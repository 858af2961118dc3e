import Mathlib.Data.List.Nodup
import Mathlib.Order.Lattice

/-!
# The outer join of two lists in key order

Two lists are joined by repeatedly taking the first element with the smaller key, or both when they
have the same key (`outerJoin`). Every element is taken once, in order (`filterMap_fst_outerJoin`,
`filterMap_snd_outerJoin`). When the keys of both lists increase, so do those of the join
(`pairwise_outerJoin`), and an element that is taken alone has no partner
(`ne_of_left_mem_outerJoin`, `ne_of_right_mem_outerJoin`).
-/

namespace Sentry.Library

open List Function

variable {α β κ : Type*}

/-- What is taken in a step of a join. -/
inductive Joined (α β : Type*)
  | left (a : α)
  | right (b : β)
  | both (a : α) (b : β)

namespace Joined

def fst? : Joined α β → Option α
  | left a => some a
  | right _ => none
  | both a _ => some a

def snd? : Joined α β → Option β
  | left _ => none
  | right b => some b
  | both _ b => some b

/-- The key of what is taken. -/
def key (leftKey : α → κ) (rightKey : β → κ) : Joined α β → κ
  | left a => leftKey a
  | right b => rightKey b
  | both a _ => leftKey a

end Joined

variable [LinearOrder κ] (leftKey : α → κ) (rightKey : β → κ)

def outerJoin : List α → List β → List (Joined α β)
  | [], bs => bs.map Joined.right
  | as, [] => as.map Joined.left
  | a :: as, b :: bs =>
    if leftKey a = rightKey b then .both a b :: outerJoin as bs
    else if leftKey a < rightKey b then .left a :: outerJoin as (b :: bs)
    else .right b :: outerJoin (a :: as) bs
termination_by as bs => as.length + bs.length

theorem outerJoin_nil_left (bs : List β) :
    outerJoin leftKey rightKey [] bs = bs.map Joined.right := by rw [outerJoin]

theorem outerJoin_nil_right (as : List α) :
    outerJoin leftKey rightKey as [] = as.map Joined.left := by
  cases as with
  | nil => rw [outerJoin]; rfl
  | cons a as => rw [outerJoin]; simp

theorem filterMap_fst_outerJoin (as : List α) (bs : List β) :
    (outerJoin leftKey rightKey as bs).filterMap Joined.fst? = as := by
  fun_induction outerJoin leftKey rightKey as bs with
  | case1 | case2 => simp [filterMap_map, comp_def, Joined.fst?]
  | case3 a as b bs _ ih => simp [Joined.fst?, ih]
  | case4 a as b bs _ _ ih => simp [Joined.fst?, ih]
  | case5 a as b bs _ _ ih => rw [filterMap_cons_none rfl, ih]

theorem filterMap_snd_outerJoin (as : List α) (bs : List β) :
    (outerJoin leftKey rightKey as bs).filterMap Joined.snd? = bs := by
  fun_induction outerJoin leftKey rightKey as bs with
  | case1 | case2 => simp [filterMap_map, comp_def, Joined.snd?]
  | case3 a as b bs _ ih => simp [Joined.snd?, ih]
  | case4 a as b bs _ _ ih => rw [filterMap_cons_none rfl, ih]
  | case5 a as b bs _ _ ih => simp [Joined.snd?, ih]

theorem map_leftKey_sublist (as : List α) (bs : List β) : (as.map leftKey).Sublist
      ((outerJoin leftKey rightKey as bs).map (Joined.key leftKey rightKey)) := by
  fun_induction outerJoin leftKey rightKey as bs with
  | case1 bs => exact nil_sublist _
  | case2 as => simp [map_map, comp_def, Joined.key]
  | case3 a as b bs _ ih => exact ih.cons_cons _
  | case4 a as b bs _ _ ih => exact ih.cons_cons _
  | case5 a as b bs _ _ ih => exact ih.cons _

theorem map_rightKey_sublist (as : List α) (bs : List β) : (bs.map rightKey).Sublist
      ((outerJoin leftKey rightKey as bs).map (Joined.key leftKey rightKey)) := by
  fun_induction outerJoin leftKey rightKey as bs with
  | case1 bs => simp [map_map, comp_def, Joined.key]
  | case2 as => exact nil_sublist _
  | case3 a as b bs hsame ih =>
    rw [map_cons, map_cons, Joined.key, hsame]
    exact ih.cons_cons _
  | case4 a as b bs _ _ ih => exact ih.cons _
  | case5 a as b bs _ _ ih => exact ih.cons_cons _

variable {leftKey rightKey} {as : List α} {bs : List β}

theorem leftKey_eq_rightKey_of_both_mem {a : α} {b : β}
    (h : Joined.both a b ∈ outerJoin leftKey rightKey as bs) : leftKey a = rightKey b := by
  fun_induction outerJoin leftKey rightKey as bs with
  | case1 | case2 => simp at h
  | case3 first as second bs hsame ih =>
    rcases mem_cons.mp h with heq | h
    · injection heq with hfirst hsecond
      rw [hfirst, hsecond, hsame]
    · exact ih h
  | case4 first as second bs _ _ ih =>
    rcases mem_cons.mp h with heq | h
    · cases heq
    · exact ih h
  | case5 first as second bs _ _ ih =>
    rcases mem_cons.mp h with heq | h
    · cases heq
    · exact ih h

theorem mem_of_fst {j : Joined α β} (hj : j ∈ outerJoin leftKey rightKey as bs) {a : α}
    (ha : j.fst? = some a) : a ∈ as := by
  rw [← filterMap_fst_outerJoin leftKey rightKey as bs]
  exact mem_filterMap.mpr ⟨j, hj, ha⟩

theorem mem_of_snd {j : Joined α β} (hj : j ∈ outerJoin leftKey rightKey as bs) {b : β}
    (hb : j.snd? = some b) : b ∈ bs := by
  rw [← filterMap_snd_outerJoin leftKey rightKey as bs]
  exact mem_filterMap.mpr ⟨j, hj, hb⟩

variable (rightKey bs) in
theorem exists_mem_fst {a : α} (ha : a ∈ as) :
    ∃ j ∈ outerJoin leftKey rightKey as bs, j.fst? = some a ∧
      j.key leftKey rightKey = leftKey a := by
  rw [← filterMap_fst_outerJoin leftKey rightKey as bs] at ha
  obtain ⟨j, hj, hfst⟩ := mem_filterMap.mp ha
  refine ⟨j, hj, hfst, ?_⟩
  cases j with
  | left | both => exact congrArg leftKey (Option.some.inj hfst)
  | right b => cases hfst

variable (leftKey as) in
theorem exists_mem_snd {b : β} (hb : b ∈ bs) :
    ∃ j ∈ outerJoin leftKey rightKey as bs, j.snd? = some b ∧
      j.key leftKey rightKey = rightKey b := by
  rw [← filterMap_snd_outerJoin leftKey rightKey as bs] at hb
  obtain ⟨j, hj, hsnd⟩ := mem_filterMap.mp hb
  refine ⟨j, hj, hsnd, ?_⟩
  cases j with
  | left a => cases hsnd
  | right b' => exact congrArg rightKey (Option.some.inj hsnd)
  | both a b' =>
    rw [Joined.key, leftKey_eq_rightKey_of_both_mem hj]
    exact congrArg rightKey (Option.some.inj hsnd)

theorem lt_key_of_mem {k : κ} (hleft : ∀ a ∈ as, k < leftKey a) (hright : ∀ b ∈ bs, k < rightKey b)
    {j : Joined α β} (hj : j ∈ outerJoin leftKey rightKey as bs) :
    k < j.key leftKey rightKey := by
  cases j with
  | left a => exact hleft a (mem_of_fst hj rfl)
  | right b => exact hright b (mem_of_snd hj rfl)
  | both a b => exact hleft a (mem_of_fst hj rfl)

section

variable (hleft : as.Pairwise fun a a' ↦ leftKey a < leftKey a')
  (hright : bs.Pairwise fun b b' ↦ rightKey b < rightKey b')

include hleft hright

theorem pairwise_outerJoin : (outerJoin leftKey rightKey as bs).Pairwise
      fun j j' ↦ j.key leftKey rightKey < j'.key leftKey rightKey := by
  fun_induction outerJoin leftKey rightKey as bs with
  | case1 bs => exact pairwise_map.mpr hright
  | case2 as => exact pairwise_map.mpr hleft
  | case3 a as b bs hsame ih =>
    obtain ⟨ha, has⟩ := pairwise_cons.mp hleft
    obtain ⟨hb, hbs⟩ := pairwise_cons.mp hright
    refine pairwise_cons.mpr ⟨fun j hj ↦ ?_, ih has hbs⟩
    exact lt_key_of_mem ha (fun b' hb' ↦ hsame.trans_lt (hb b' hb')) hj
  | case4 a as b bs _ hbefore ih =>
    obtain ⟨ha, has⟩ := pairwise_cons.mp hleft
    refine pairwise_cons.mpr ⟨fun j hj ↦ lt_key_of_mem ha (fun b' hb' ↦ ?_) hj, ih has hright⟩
    rcases mem_cons.mp hb' with rfl | hb'
    · exact hbefore
    · exact hbefore.trans ((pairwise_cons.mp hright).1 b' hb')
  | case5 a as b bs hne hbefore ih =>
    obtain ⟨hb, hbs⟩ := pairwise_cons.mp hright
    have hafter : rightKey b < leftKey a := lt_of_le_of_ne (not_lt.mp hbefore) (Ne.symm hne)
    refine pairwise_cons.mpr ⟨fun j hj ↦ lt_key_of_mem (fun a' ha' ↦ ?_) hb hj, ih hleft hbs⟩
    rcases mem_cons.mp ha' with rfl | ha'
    · exact hafter
    · exact hafter.trans ((pairwise_cons.mp hleft).1 a' ha')

theorem eq_of_key_eq {j j' : Joined α β}
    (hj : j ∈ outerJoin leftKey rightKey as bs) (hj' : j' ∈ outerJoin leftKey rightKey as bs)
    (hkey : j.key leftKey rightKey = j'.key leftKey rightKey) : j = j' := by
  have hnodup : ((outerJoin leftKey rightKey as bs).map fun j ↦ j.key leftKey rightKey).Nodup :=
    pairwise_map.mpr ((pairwise_outerJoin hleft hright).imp fun h ↦ h.ne)
  exact inj_on_of_nodup_map hnodup hj hj' hkey

theorem ne_of_left_mem_outerJoin {a : α}
    (h : Joined.left a ∈ outerJoin leftKey rightKey as bs) : ∀ b ∈ bs, rightKey b ≠ leftKey a := by
  intro b hb hkey
  obtain ⟨j, hj, hsnd, hjKey⟩ := exists_mem_snd leftKey as hb
  rw [← eq_of_key_eq hleft hright h hj (hkey.symm.trans hjKey.symm)] at hsnd
  cases hsnd

theorem ne_of_right_mem_outerJoin {b : β}
    (h : Joined.right b ∈ outerJoin leftKey rightKey as bs) : ∀ a ∈ as, leftKey a ≠ rightKey b := by
  intro a ha hkey
  obtain ⟨j, hj, hfst, hjKey⟩ := exists_mem_fst rightKey bs ha
  rw [← eq_of_key_eq hleft hright h hj (hkey.symm.trans hjKey.symm)] at hfst
  cases hfst

end

end Sentry.Library
