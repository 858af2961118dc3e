import Mathlib.Data.List.DropRight

/-!
# Dropping at both ends

What stays of a list when elements are dropped at its ends (`List.dropWhile`, `List.rdropWhile`): an
append keeps its first part if something of the second stays (`rdropWhile_append_of_ne_nil`), and
what stays begins and ends with elements that are not dropped.
-/

namespace Sentry.Library

open List

variable {α : Type*}

variable {p : α → Bool}

theorem rdropWhile_append_of_ne_nil (l : List α) {last : List α}
    (h : last.rdropWhile p ≠ []) : (l ++ last).rdropWhile p = l ++ last.rdropWhile p := by
  have hne : ¬ (last.reverse.dropWhile p).isEmpty := by
    simpa [List.rdropWhile] using h
  unfold List.rdropWhile
  rw [reverse_append, dropWhile_append, if_neg hne, reverse_append, reverse_reverse]

theorem rdropWhile_append_of_all (l : List α) {last : List α}
    (h : ∀ x ∈ last, p x) : (l ++ last).rdropWhile p = l.rdropWhile p := by
  unfold List.rdropWhile
  rw [reverse_append, dropWhile_append_of_pos]
  exact fun x hx ↦ h x (mem_reverse.mp hx)

theorem exists_rdropWhile_append (l : List α) (x : α) (hx : p x = false) (rest : List α) :
    ∃ tail, (l ++ x :: rest).rdropWhile p = l ++ x :: tail := by
  rw [append_cons]
  by_cases hrest : rest.rdropWhile p = []
  · refine ⟨[], ?_⟩
    rw [rdropWhile_append_of_all _ (rdropWhile_eq_nil_iff.mp hrest),
      rdropWhile_concat_neg _ _ _ (by simp [hx])]
  · exact ⟨rest.rdropWhile p, by rw [rdropWhile_append_of_ne_nil _ hrest, ← append_cons]⟩

theorem not_head_dropWhile {l : List α} {x : α} (h : x ∈ (l.dropWhile p).head?) : p x = false := by
  have hne : l.dropWhile p ≠ [] := fun hnil ↦ by
    rw [hnil] at h
    cases h
  have hnot := head_dropWhile_not p hne
  rwa [← head_eq_iff_head?_eq_some hne |>.mpr h]

theorem not_head_dropWhile_rdropWhile {p q : α → Bool} {l : List α} {x : α}
    (h : x ∈ ((l.dropWhile p).rdropWhile q).head?) : p x = false := by
  obtain ⟨rest, hrest⟩ := rdropWhile_prefix q (l.dropWhile p)
  have hhead : x ∈ (l.dropWhile p).head? := by
    rw [← hrest]
    exact mem_head?_append_of_mem_head? h
  exact not_head_dropWhile hhead

theorem not_getLast_rdropWhile {q : α → Bool} {l : List α} {x : α}
    (h : x ∈ (l.rdropWhile q).getLast?) : q x = false := by
  have hne : l.rdropWhile q ≠ [] := fun hnil ↦ by
    rw [hnil] at h
    cases h
  have hnot := rdropWhile_last_not q l hne
  rw [Bool.not_eq_true] at hnot
  rwa [← (getLast_eq_iff_getLast?_eq_some hne).mpr h]

end Sentry.Library
