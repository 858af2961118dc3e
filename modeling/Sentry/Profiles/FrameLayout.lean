import Sentry.Profiles.SampleFrames
import Sentry.Library.SortedSublist

/-!
# Where the frames are put

Symbolicator returns the frames in groups, one for each frame sent and in the order sent
(`ReturnsInOrder`); the index map has the positions of each group (`frameIndexMap_eq`). The loop
goes through the indices in ascending order and gives each index sent the next group
(`replaceFrames_eq`), so that the group of a frame is put where the frame of its rank among those
sent was.
-/

namespace Sentry.Profiles

open Library List Function

variable {δ : Type*}

/-- What Symbolicator returns, in groups: one or more frames for each frame sent, with its position
as their original index, and one for JavaScript. They are objects of their own. -/
structure ReturnsInOrder (platform : Platform) (prepared : Prepared δ)
    (groups : List (List (Frame δ))) : Prop where
  length_eq : groups.length = prepared.frames.length
  nonempty : ∀ group ∈ groups, group ≠ []
  originalIndex : ∀ j, ∀ frame ∈ block groups j, frame.originalIndex = some j
  single : platform.isJs → ∀ group ∈ groups, group.length = 1
  nodup : (groups.flatten.map Frame.ref).Nodup
  new : ∀ frame ∈ groups.flatten, ∀ frame' ∈ prepared.profile.frames, frame.ref ≠ frame'.ref

section Ranks

variable {sent : List ℕ}

def rank (sent : List ℕ) (idx : ℕ) : ℕ := sent.countP fun i ↦ i < idx

theorem rank_succ_eq_add_count (sent : List ℕ) (idx : ℕ) :
    rank sent (idx + 1) = rank sent idx + sent.count idx := by
  unfold rank
  induction sent with
  | nil => rfl
  | cons i sent ih =>
    rw [countP_cons, countP_cons, count_cons, ih]
    rcases lt_trichotomy i idx with hlt | rfl | hgt
    · simp [hlt, hlt.ne, hlt.trans (Nat.lt_succ_self idx), Nat.add_right_comm]
    · simp [Nat.add_assoc]
    · simp [hgt.ne', not_lt.mpr hgt.le, not_lt.mpr (Nat.succ_le_of_lt hgt)]

theorem rank_mono {idx idx' : ℕ} (h : idx ≤ idx') : rank sent idx ≤ rank sent idx' := by
  apply countP_mono_left
  intro i _ hi
  exact decide_eq_true ((of_decide_eq_true hi).trans_le h)

theorem rank_lt_rank {idx idx' : ℕ} (hmem : idx ∈ sent) (h : idx < idx') :
    rank sent idx < rank sent idx' := by
  have hcount : 0 < sent.count idx := count_pos_iff.mpr hmem
  have hsucc := rank_succ_eq_add_count sent idx
  have hmono : rank sent (idx + 1) ≤ rank sent idx' := rank_mono h
  omega

def ascending (sent : List ℕ) : List ℕ := sent.insertionSort (· ≤ ·)

end Ranks

def Frame.mark (platform : Platform) (frame : Frame δ) : Frame δ :=
  { frame with platform := some platform }

def layoutBlock (sent : List ℕ) (put : List (List (Frame δ))) (frames : List (Frame δ)) (idx : ℕ) :
    List (Frame δ) :=
  if idx ∈ sent then block put (rank sent idx) else frames[idx]?.toList

def layout (sent : List ℕ) (put : List (List (Frame δ))) (frames : List (Frame δ)) :
    List (List (Frame δ)) :=
  (List.range frames.length).map (layoutBlock sent put frames)

end Sentry.Profiles
