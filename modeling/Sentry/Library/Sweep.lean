import Mathlib.Data.List.Chain
import Mathlib.Data.List.Perm.Basic

/-!
# Removing from a list while going over it

A loop over the positions of a list visits an element, puts what has become of it in its place, and
may remove the first element equal to it (`sweep`), so that the next one is passed by (`swept`).
What is left does not depend on where the equal elements stand (`sweep_perm`), and if what is
removed is unlike everything that stays, its order does not either (`sweep_eq`). Where elements are
only removed, none is left that should go just if no two of them were next to each other
(`forall_mem_swept_iff`).
-/

namespace Sentry.Library

open List

variable {α : Type*} [DecidableEq α]

def sweep (visit : α → α) (drop : α → Bool) (l : List α) (i : ℕ) : List α :=
  if h : i < l.length then
    let visited := l.set i (visit l[i])
    sweep visit drop (if drop l[i] then visited.erase (visit l[i]) else visited) (i + 1)
  else l
termination_by l.length - i
decreasing_by
  have herase := (erase_sublist (a := visit l[i]) (l := l.set i (visit l[i]))).length_le
  rw [length_set] at herase
  split_ifs
  · omega
  · rw [length_set]
    omega

def swept (visit : α → α) (drop : α → Bool) : List α → List α
  | [] => []
  | [x] => if drop x then [] else [visit x]
  | x :: y :: rest =>
    if drop x then y :: swept visit drop rest else visit x :: swept visit drop (y :: rest)

variable {visit : α → α} {drop : α → Bool}

theorem sweep_length (l : List α) {i : ℕ} (h : l.length ≤ i) : sweep visit drop l i = l := by
  rw [sweep, dif_neg (Nat.not_lt.mpr h)]

theorem sweep_append_cons (before : List α) (x : α) (rest : List α) :
    sweep visit drop (before ++ x :: rest) before.length =
      sweep visit drop
        (if drop x then (before ++ visit x :: rest).erase (visit x) else before ++ visit x :: rest)
        (before.length + 1) := by
  rw [sweep, dif_pos (by simp)]
  simp

theorem exists_erase_append_cons (before : List α) (x : α) (rest : List α) :
    ∃ before', before'.Perm before ∧ (before ++ x :: rest).erase x = before' ++ rest := by
  by_cases hmem : x ∈ before
  · refine ⟨before.erase x ++ [x], ?_, ?_⟩
    · exact (perm_append_singleton x _).trans (perm_cons_erase hmem).symm
    · rw [erase_append_left _ hmem, append_cons]
  · refine ⟨before, List.Perm.refl before, ?_⟩
    rw [erase_append_right _ hmem, erase_cons_head]

theorem sweep_perm (before rest : List α) :
    (sweep visit drop (before ++ rest) before.length).Perm (before ++ swept visit drop rest) := by
  fun_induction swept visit drop rest generalizing before with
  | case1 => rw [sweep_length _ (by simp)]
  | case2 x hdrop =>
    obtain ⟨before', hperm, herase⟩ := exists_erase_append_cons before (visit x) []
    rw [sweep_append_cons, if_pos hdrop, herase, sweep_length _ (by simp [hperm.length_eq])]
    simpa using hperm
  | case3 x hdrop => rw [sweep_append_cons, if_neg hdrop, sweep_length _ (by simp)]
  | case4 x y rest hdrop ih =>
    obtain ⟨before', hperm, herase⟩ := exists_erase_append_cons before (visit x) (y :: rest)
    have hrest := ih (before' ++ [y])
    rw [length_append, length_singleton, append_assoc, append_assoc] at hrest
    rw [sweep_append_cons, if_pos hdrop, herase, ← hperm.length_eq]
    exact hrest.trans (hperm.append_right _)
  | case5 x y rest hdrop ih =>
    have hrest := ih (before ++ [visit x])
    rw [length_append, length_singleton, append_assoc, append_assoc] at hrest
    rw [sweep_append_cons, if_neg hdrop]
    exact hrest

theorem sweep_eq (before rest : List α)
    (h : ∀ x ∈ rest, drop x → visit x ∉ before ++ swept visit drop rest) :
    sweep visit drop (before ++ rest) before.length = before ++ swept visit drop rest := by
  fun_induction swept visit drop rest generalizing before with
  | case1 => rw [sweep_length _ (by simp)]
  | case2 x hdrop =>
    have hx : visit x ∉ before := by simpa using h x (mem_singleton_self x) hdrop
    rw [sweep_append_cons, if_pos hdrop, erase_append_right _ hx, erase_cons_head,
      sweep_length _ (by simp)]
  | case3 x hdrop => rw [sweep_append_cons, if_neg hdrop, sweep_length _ (by simp)]
  | case4 x y rest hdrop ih =>
    have hx : visit x ∉ before := fun hmem ↦ h x mem_cons_self hdrop (mem_append_left _ hmem)
    have hrest := ih (before ++ [y]) fun z hz hdropz ↦ by
      rw [← append_cons]
      exact h z (mem_cons_of_mem _ (mem_cons_of_mem _ hz)) hdropz
    rw [length_append, length_singleton, append_assoc, append_assoc] at hrest
    rw [sweep_append_cons, if_pos hdrop, erase_append_right _ hx, erase_cons_head]
    exact hrest
  | case5 x y rest hdrop ih =>
    have hrest := ih (before ++ [visit x]) fun z hz hdropz ↦ by
      rw [← append_cons]
      exact h z (mem_cons_of_mem _ hz) hdropz
    rw [length_append, length_singleton, append_assoc, append_assoc] at hrest
    rw [sweep_append_cons, if_neg hdrop]
    exact hrest

omit [DecidableEq α] in
theorem swept_id_of_isChain {l : List α} (h : l.IsChain fun x y ↦ ¬ (drop x ∧ drop y)) :
    swept id drop l = l.filter (!drop ·) := by
  fun_induction swept id drop l with
  | case1 => rfl
  | case2 x hdrop => simp [hdrop]
  | case3 x hdrop => simp [hdrop]
  | case4 x y rest hdrop ih =>
    rw [isChain_cons_cons] at h
    have hy : ¬ drop y := fun hdropy ↦ h.1 ⟨hdrop, hdropy⟩
    rw [ih h.2.tail]
    simp [hdrop, hy]
  | case5 x y rest hdrop ih =>
    rw [isChain_cons_cons] at h
    rw [ih h.2, filter_cons_of_pos (a := x) (by simpa using hdrop), id]

omit [DecidableEq α] in
theorem forall_mem_swept_iff (l : List α) :
    (∀ x ∈ swept id drop l, ¬ drop x) ↔ l.IsChain fun x y ↦ ¬ (drop x ∧ drop y) := by
  constructor
  · intro h
    fun_induction swept id drop l with
    | case1 => exact isChain_nil
    | case2 x hdrop => exact isChain_singleton x
    | case3 x hdrop => exact isChain_singleton x
    | case4 x y rest hdrop ih =>
      rw [forall_mem_cons] at h
      refine isChain_cons_cons.mpr ⟨fun hboth ↦ h.1 hboth.2, ?_⟩
      exact isChain_cons.mpr ⟨fun z _ hboth ↦ h.1 hboth.1, ih h.2⟩
    | case5 x y rest hdrop ih =>
      rw [forall_mem_cons] at h
      exact isChain_cons_cons.mpr ⟨fun hboth ↦ hdrop hboth.1, ih h.2⟩
  · intro h x hx
    rw [swept_id_of_isChain h, mem_filter] at hx
    simpa using hx.2

theorem sweep_id_of_isChain {l : List α} (h : l.IsChain fun x y ↦ ¬ (drop x ∧ drop y)) :
    sweep id drop l 0 = l.filter (!drop ·) := by
  have hnot := (forall_mem_swept_iff l).mpr h
  rw [← swept_id_of_isChain h]
  exact sweep_eq [] l fun x _ hdrop hmem ↦ hnot x hmem hdrop

end Sentry.Library
