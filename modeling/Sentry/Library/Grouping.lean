import Mathlib.Data.List.Induction
import Mathlib.Data.List.Nodup

/-!
# Grouping items by their key

The items of a list of pairs are collected in one group for each key, in the order in which the
keys first occur: a dictionary of lists that is filled item by item. A key has one group
(`nodup_keys_groupItems`), and the group holds the values that occur with the key
(`mem_groupItems_iff`).
-/

namespace Sentry.Library

open List

variable {κ α : Type*} [DecidableEq κ]

def appendToGroup (key : κ) (value : α) : List (κ × List α) → List (κ × List α)
  | [] => [(key, [value])]
  | (key', values) :: rest =>
    if key' = key then (key', values ++ [value]) :: rest
    else (key', values) :: appendToGroup key value rest

def groupItems (items : List (κ × α)) : List (κ × List α) :=
  items.foldl (fun groups item ↦ appendToGroup item.1 item.2 groups) []

variable {groups : List (κ × List α)}

theorem mem_keys_appendToGroup {key k : κ} {value : α} :
    k ∈ (appendToGroup key value groups).map Prod.fst ↔ k = key ∨ k ∈ groups.map Prod.fst := by
  induction groups with
  | nil => simp [appendToGroup]
  | cons group rest ih =>
    by_cases h : group.1 = key
    · subst h
      simp [appendToGroup]
    · simp only [appendToGroup, h, if_false, map_cons, mem_cons, ih]
      exact or_left_comm

theorem nodup_keys_appendToGroup {key : κ} {value : α} (h : (groups.map Prod.fst).Nodup) :
    ((appendToGroup key value groups).map Prod.fst).Nodup := by
  induction groups with
  | nil => simp [appendToGroup]
  | cons group rest ih =>
    obtain ⟨hfresh, hrest⟩ := nodup_cons.mp h
    by_cases hkey : group.1 = key
    · simpa [appendToGroup, hkey] using h
    · simp only [appendToGroup, hkey, if_false, map_cons]
      refine nodup_cons.mpr ⟨fun hmem ↦ ?_, ih hrest⟩
      rcases mem_keys_appendToGroup.mp hmem with heq | hmem
      · exact hkey heq
      · exact hfresh hmem

theorem mem_appendToGroup_iff {key k : κ} {value a : α} :
    (∃ values, (k, values) ∈ appendToGroup key value groups ∧ a ∈ values) ↔
      (k = key ∧ a = value) ∨ ∃ values, (k, values) ∈ groups ∧ a ∈ values := by
  induction groups with
  | nil => simp [appendToGroup]
  | cons group rest ih =>
    obtain ⟨key', values'⟩ := group
    by_cases h : key' = key
    · subst h
      simp only [appendToGroup, if_true, mem_cons, Prod.mk.injEq, or_and_right, exists_or,
        and_assoc, exists_and_left, exists_eq_left, mem_append]
      tauto
    · simp only [appendToGroup, h, if_false, mem_cons, or_and_right, exists_or, ih]
      exact or_left_comm

theorem appendToGroup_ne_nil {key : κ} {value : α}
    (h : ∀ group ∈ groups, group.2 ≠ []) : ∀ group ∈ appendToGroup key value groups,
      group.2 ≠ [] := by
  induction groups with
  | nil => simp [appendToGroup]
  | cons group rest ih =>
    by_cases hkey : group.1 = key
    · simpa [appendToGroup, hkey] using fun a b hmem ↦ h (a, b) (mem_cons_of_mem _ hmem)
    · simp only [appendToGroup, hkey, if_false, mem_cons, forall_eq_or_imp]
      exact ⟨h group mem_cons_self, ih fun g hg ↦ h g (mem_cons_of_mem _ hg)⟩

theorem nodup_keys_groupItems (items : List (κ × α)) : ((groupItems items).map Prod.fst).Nodup := by
  induction items using List.reverseRecOn with
  | nil => simp [groupItems]
  | append_singleton items item ih =>
    rw [groupItems, foldl_append]
    exact nodup_keys_appendToGroup ih

theorem mem_groupItems_iff (items : List (κ × α)) (k : κ) (a : α) :
    (∃ values, (k, values) ∈ groupItems items ∧ a ∈ values) ↔ (k, a) ∈ items := by
  induction items using List.reverseRecOn with
  | nil => simp [groupItems]
  | append_singleton items item ih =>
    rw [groupItems, foldl_append, foldl_cons, foldl_nil, mem_appendToGroup_iff]
    rw [← groupItems, ih, mem_append, mem_singleton, Prod.ext_iff]
    exact or_comm

theorem groupItems_ne_nil (items : List (κ × α)) : ∀ group ∈ groupItems items, group.2 ≠ [] := by
  induction items using List.reverseRecOn with
  | nil => simp [groupItems]
  | append_singleton items item ih =>
    rw [groupItems, foldl_append]
    exact appendToGroup_ne_nil ih

theorem mem_of_mem_group {items : List (κ × α)} {group : κ × List α} (h : group ∈ groupItems items)
    {a : α} (ha : a ∈ group.2) : (group.1, a) ∈ items :=
  (mem_groupItems_iff items group.1 a).mp ⟨group.2, h, ha⟩

end Sentry.Library
