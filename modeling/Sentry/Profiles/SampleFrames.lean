import Sentry.Library.Blocks
import Sentry.Library.Dictionary
import Mathlib.Algebra.GroupWithZero.Nat

/-!
# The frames of a profile and Symbolicator

For profiles in the sample format: `_prepare_frames_from_profile` and
`_process_symbolicator_results_for_sample` of `profiles/task.py`, with `get_frame_index_map` and
`get_profile_platforms`. Symbolicator is asked about the frames of one platform at a time: all of
them for the platform of the profile, unless that is JavaScript, else a set of indices in the order
in which it is iterated. Frames are objects, told apart by `ref`.
-/

namespace Sentry.Profiles

open Library

variable {δ : Type*}

/-- The platforms that are symbolicated: `SHOULD_SYMBOLICATE`. -/
inductive Platform
  | cocoa
  | rust
  | javascript
  | node
  deriving DecidableEq

/-- `platform in JS_PLATFORMS`. -/
def Platform.isJs : Platform → Bool
  | .cocoa => false
  | .rust => false
  | .javascript => true
  | .node => true

/-- A frame, with the items that the code reads and writes, and what else it has. -/
structure Frame (δ : Type*) where
  ref : ℕ
  platform : Option Platform
  function : Option String
  instructionAddr : Option String
  adjustInstructionAddr : Option Bool
  originalIndex : Option ℕ
  data : δ

/-- A profile in the sample format. -/
structure SampleProfile (δ : Type*) where
  platform : Platform
  frames : List (Frame δ)
  profileStacks : List (List ℕ)

/-- `get_profile_platforms`. -/
def SampleProfile.platforms (profile : SampleProfile δ) : List Platform :=
  if profile.platform.isJs ∧ ∃ frame ∈ profile.frames, frame.platform = some .cocoa then
    [profile.platform, .cocoa]
  else [profile.platform]

/-- What is sent to Symbolicator, the set of indices sent, in its order, and the profile, which is
changed. -/
structure Prepared (δ : Type*) where
  frames : List (Frame δ)
  framesSent : List ℕ
  profile : SampleProfile δ

def indicesWhere (p : Frame δ → Bool) (frames : List (Frame δ)) : List ℕ :=
  (frames.zipIdx.filter fun item ↦ p item.1).map Prod.snd

/-- `[profile["profile"]["frames"][idx] for idx in frames_sent]`. -/
def framesAt (frames : List (Frame δ)) (framesSent : List ℕ) : List (Frame δ) :=
  framesSent.filterMap (frames[·]?)

def prepareStack (copyRef : ℕ → ℕ) (st : Prepared δ) (stack : List ℕ) : Option (Prepared δ) :=
  match stack with
  | [] => some
    { st with profile := { st.profile with profileStacks := st.profile.profileStacks ++ [[]] } }
  | firstFrameIdx :: rest => do
    let leaf ← st.profile.frames[firstFrameIdx]?
    let last := st.profile.frames.length
    let frame := { leaf with ref := copyRef last, adjustInstructionAddr := some false }
    if ¬st.profile.platform.isJs then
      -- The list sent is the list of frames of the profile.
      some {
        frames := st.frames ++ [frame]
        framesSent := st.framesSent
        profile := { st.profile with
          frames := st.profile.frames ++ [frame]
          profileStacks := st.profile.profileStacks ++ [last :: rest] } }
    else if firstFrameIdx ∈ st.framesSent then
      some {
        frames := st.frames ++ [frame]
        framesSent := st.framesSent ++ [last]
        profile := { st.profile with
          frames := st.profile.frames ++ [frame]
          profileStacks := st.profile.profileStacks ++ [last :: rest] } }
    else
      some { st with
        profile := { st.profile with profileStacks :=
          st.profile.profileStacks ++ [firstFrameIdx :: rest] } }

/-- `_prepare_frames_from_profile`, with the check for valid JavaScript frames, the order in which
the set is iterated, and the objects that `deepcopy` makes. -/
def prepareFrames (valid : Frame δ → Bool) (iterate : List ℕ → List ℕ) (copyRef : ℕ → ℕ)
    (profile : SampleProfile δ) (platform : Platform) : Option (Prepared δ) :=
  if platform.isJs then
    let framesSent := iterate (indicesWhere valid profile.frames)
    some ⟨framesAt profile.frames framesSent, framesSent, profile⟩
  else
    let start : Prepared δ :=
      if profile.platform ≠ platform then
        let framesSent := iterate (indicesWhere
          (fun frame ↦ frame.platform = some platform ∧
            frame.instructionAddr.isSome) profile.frames)
        ⟨framesAt profile.frames framesSent, framesSent, { profile with profileStacks := [] }⟩
      else ⟨profile.frames, [], { profile with profileStacks := [] }⟩
    profile.profileStacks.foldlM (prepareStack copyRef) start

end Sentry.Profiles
