import Sentry.Profiles.PreparedFrames

/-!
# When the frames of stacks are replaced in place

A round of symbolication of one platform: the frames are prepared, Symbolicator returns a group for
each frame sent, and the results are processed.
-/

namespace Sentry.Profiles

open Library List

variable {δ : Type*}

/-- A round: a profile with its frames as objects and stacks of their indices, one of its platforms,
the check for JavaScript frames, the order in which a set is iterated, the objects that are made by
`deepcopy`, what has been prepared, and what Symbolicator returns. -/
structure Round (δ : Type*) where
  profile : SampleProfile δ
  platform : Platform
  valid : Frame δ → Bool
  iterate : List ℕ → List ℕ
  copyRef : ℕ → ℕ
  prepared : Prepared δ
  groups : List (List (Frame δ))
  platform_mem : platform ∈ profile.platforms
  stacks_lt : ∀ stack ∈ profile.profileStacks, ∀ t ∈ stack, t < profile.frames.length
  refs_nodup : (profile.frames.map Frame.ref).Nodup
  iterate_perm : ∀ l, (iterate l).Perm l
  prepared_eq : prepareFrames valid iterate copyRef profile platform = some prepared
  returns : ReturnsInOrder platform prepared groups

namespace Round

variable (r : Round δ)

/-- The indices of the frames sent, in the order sent. -/
def sent : List ℕ :=
  if SendsAll r.profile r.platform then List.range r.prepared.frames.length
  else r.prepared.framesSent

def put : List (List (Frame δ)) :=
  if SendsAll r.profile r.platform then r.groups
  else r.groups.map (List.map (Frame.mark r.platform))

def blocks : List (List (Frame δ)) := layout r.sent r.put r.prepared.profile.frames

def replaced (t : ℕ) : List (Frame δ) :=
  if t ∈ r.sent then block r.put (r.sent.idxOf t) else r.prepared.profile.frames[t]?.toList

def place (t : ℕ) : List ℕ :=
  positions r.blocks (if t ∈ r.sent then (ascending r.sent)[r.sent.idxOf t]?.getD t else t)

end Round

end Sentry.Profiles
