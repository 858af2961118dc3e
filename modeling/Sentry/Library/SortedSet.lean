import Mathlib.Data.List.Sort

/-!
# Sorted sets

A sorted set maps distinct members to scores and lists its entries by ascending score, members of
equal score in their own order. Order and distinctness are fields of the structure. The operations
are characterized by the scores they give (`score_add`, `score_remove`) and by their members
(`mem_addAll`, `mem_removeAll`, `mem_unionMax`), and an entry is a member with its score
(`mem_entries_iff`).
-/

namespace Sentry.Library

open List

variable {α β : Type*} [LinearOrder α] [LinearOrder β]

def EntryLE (x y : α × β) : Prop := x.2 < y.2 ∨ x.2 = y.2 ∧ x.1 ≤ y.1

instance decidableEntryLE : DecidableRel (EntryLE (α := α) (β := β)) := fun x y ↦
  inferInstanceAs (Decidable (x.2 < y.2 ∨ x.2 = y.2 ∧ x.1 ≤ y.1))

instance entryLE_total : Std.Total (EntryLE (α := α) (β := β)) := ⟨fun x y ↦ by
  rcases lt_trichotomy x.2 y.2 with h | h | h
  · exact Or.inl (Or.inl h)
  · rcases le_total x.1 y.1 with hmember | hmember
    · exact Or.inl (Or.inr ⟨h, hmember⟩)
    · exact Or.inr (Or.inr ⟨h.symm, hmember⟩)
  · exact Or.inr (Or.inl h)⟩

instance entryLE_trans : IsTrans (α × β) EntryLE := ⟨fun x y z hxy hyz ↦ by
  rcases hxy with hxy | ⟨hxy, hmember⟩ <;> rcases hyz with hyz | ⟨hyz, hmember'⟩
  · exact Or.inl (hxy.trans hyz)
  · exact Or.inl (hyz ▸ hxy)
  · exact Or.inl (hxy ▸ hyz)
  · exact Or.inr ⟨hxy.trans hyz, hmember.trans hmember'⟩⟩

/-- A finite map from members to scores, listed by ascending score. -/
structure SortedSet (α β : Type*) [LinearOrder α] [LinearOrder β] where
  entries : List (α × β)
  sorted : entries.Pairwise EntryLE
  nodup : (entries.map Prod.fst).Nodup

namespace SortedSet

def empty : SortedSet α β := ⟨[], List.Pairwise.nil, nodup_nil⟩

instance : Inhabited (SortedSet α β) := ⟨empty⟩

instance : DecidableEq (SortedSet α β) := fun s t ↦
  decidable_of_iff (s.entries = t.entries) <| by
    cases s; cases t; simp

/-- The score of a member, `none` when it is not in the set. -/
def score (s : SortedSet α β) (a : α) : Option β :=
  (s.entries.find? fun entry ↦ entry.1 = a).map Prod.snd

instance : Membership α (SortedSet α β) := ⟨fun s a ↦ (s.score a).isSome⟩

instance (a : α) (s : SortedSet α β) : Decidable (a ∈ s) :=
  inferInstanceAs (Decidable ((s.score a).isSome = true))

/-- The number of members. -/
def card (s : SortedSet α β) : ℕ := s.entries.length

def remove (s : SortedSet α β) (a : α) : SortedSet α β where
  entries := s.entries.filter fun entry ↦ entry.1 ≠ a
  sorted := s.sorted.filter _
  nodup := s.nodup.sublist (filter_sublist.map _)

def add (s : SortedSet α β) (a : α) (v : β) : SortedSet α β where
  entries := (s.remove a).entries.orderedInsert EntryLE (a, v)
  sorted := (s.remove a).sorted.orderedInsert (a, v) _
  nodup := by
    have hperm := (perm_orderedInsert EntryLE (a, v) (s.remove a).entries).map Prod.fst
    rw [hperm.nodup_iff, map_cons, nodup_cons]
    refine ⟨?_, (s.remove a).nodup⟩
    simp [remove]

def addAll (s : SortedSet α β) (entries : List (α × β)) : SortedSet α β :=
  entries.foldl (fun set entry ↦ set.add entry.1 entry.2) s

def removeAll (s : SortedSet α β) (members : List α) : SortedSet α β := members.foldl remove s

def rangeByScore (s : SortedSet α β) (low high : β) : List (α × β) :=
  s.entries.filter fun entry ↦ low ≤ entry.2 ∧ entry.2 ≤ high

def revRange (s : SortedSet α β) : List (α × β) := s.entries.reverse

def trim (s : SortedSet α β) (n : ℕ) : SortedSet α β where
  entries := s.entries.drop (s.card - n)
  sorted := s.sorted.drop
  nodup := s.nodup.sublist ((drop_sublist _ _).map _)

def unionMax (s t : SortedSet α β) : SortedSet α β :=
  s.addAll (t.entries.map fun entry ↦
    (entry.1, match s.score entry.1 with | some v => max v entry.2 | none => entry.2))

theorem mem_entries_iff (s : SortedSet α β) (a : α) (v : β) :
    (a, v) ∈ s.entries ↔ s.score a = some v := by
  unfold score
  have hnodup := s.nodup
  revert hnodup
  induction s.entries with
  | nil => simp
  | cons entry rest ih =>
    intro hnodup
    rw [map_cons, nodup_cons] at hnodup
    by_cases ha : entry.1 = a
    · have hrest : (a, v) ∉ rest := fun hmem ↦ hnodup.1 (ha ▸ mem_map_of_mem (f := Prod.fst) hmem)
      rw [find?_cons_of_pos (by simpa using ha), mem_cons, or_iff_left hrest]
      simp [Prod.ext_iff, ha, eq_comm]
    · have hne : (a, v) ≠ entry := fun h ↦ ha (by rw [← h])
      rw [find?_cons_of_neg (by simpa using ha), mem_cons, or_iff_right hne]
      exact ih hnodup.2

theorem mem_iff_exists_score (s : SortedSet α β) (a : α) : a ∈ s ↔ ∃ v, s.score a = some v :=
  Option.isSome_iff_exists

theorem score_eq_none_iff (s : SortedSet α β) (a : α) : s.score a = none ↔ a ∉ s := by
  change s.score a = none ↔ ¬ (s.score a).isSome = true
  simp

theorem mem_iff_mem_members (s : SortedSet α β) (a : α) : a ∈ s ↔ a ∈ s.entries.map Prod.fst := by
  simp [mem_iff_exists_score, ← mem_entries_iff]

@[simp] theorem score_empty (a : α) : (empty : SortedSet α β).score a = none := rfl

@[simp] theorem not_mem_empty (a : α) : a ∉ (empty : SortedSet α β) := by
  simp [← score_eq_none_iff]

section

variable (s : SortedSet α β)

include s

theorem score_remove (a b : α) : (s.remove a).score b = if b = a then none else s.score b := by
  ext v
  rw [← mem_entries_iff, remove, mem_filter, mem_entries_iff]
  split_ifs with h
  · simp [h]
  · simp [h]

theorem score_add (a b : α) (v : β) :
    (s.add a v).score b = if b = a then some v else s.score b := by
  ext w
  rw [← mem_entries_iff, add, mem_orderedInsert, mem_entries_iff, score_remove]
  split_ifs with h
  · simp [h, eq_comm]
  · simp [h]

@[simp] theorem mem_add (a b : α) (v : β) : b ∈ s.add a v ↔ b = a ∨ b ∈ s := by
  rw [mem_iff_exists_score, mem_iff_exists_score, score_add]
  split_ifs with h <;> simp [h]

@[simp] theorem mem_remove (a b : α) : b ∈ s.remove a ↔ b ≠ a ∧ b ∈ s := by
  rw [mem_iff_exists_score, mem_iff_exists_score, score_remove]
  split_ifs with h <;> simp [h]

@[simp] theorem mem_removeAll (members : List α) (b : α) :
    b ∈ s.removeAll members ↔ b ∉ members ∧ b ∈ s := by
  unfold removeAll
  induction members generalizing s with
  | nil => simp
  | cons a rest ih =>
    rw [foldl_cons, ih, mem_remove, mem_cons]
    tauto

@[simp] theorem mem_addAll (entries : List (α × β)) (b : α) :
    b ∈ s.addAll entries ↔ b ∈ entries.map Prod.fst ∨ b ∈ s := by
  unfold addAll
  induction entries generalizing s with
  | nil => simp
  | cons entry rest ih =>
    rw [foldl_cons, ih, mem_add, map_cons, mem_cons]
    tauto

theorem score_removeAll (members : List α) (b : α) :
    (s.removeAll members).score b = if b ∈ members then none else s.score b := by
  unfold removeAll
  induction members generalizing s with
  | nil => rfl
  | cons a rest ih =>
    rw [foldl_cons, ih, score_remove]
    by_cases hrest : b ∈ rest <;> by_cases ha : b = a <;> simp [hrest, ha]

theorem score_addAll {entries : List (α × β)} {b : α} {v : β}
    (hentries : ∀ entry ∈ entries, entry.1 = b → entry.2 = v) :
    (s.addAll entries).score b = if b ∈ entries.map Prod.fst then some v else s.score b := by
  unfold addAll
  induction entries generalizing s with
  | nil => rfl
  | cons entry rest ih =>
    rw [forall_mem_cons] at hentries
    rw [foldl_cons, ih _ hentries.2, score_add, map_cons]
    by_cases hb : entry.1 = b
    · simp [hb, hentries.1 hb]
    · simp only [mem_cons, if_neg (Ne.symm hb), or_iff_right (Ne.symm hb)]

end

@[simp] theorem mem_unionMax (s t : SortedSet α β) (b : α) : b ∈ s.unionMax t ↔ b ∈ s ∨ b ∈ t := by
  rw [unionMax, mem_addAll, map_map, mem_iff_mem_members t, or_comm]
  rfl

theorem mem_revRange (s : SortedSet α β) (a : α) (v : β) :
    (a, v) ∈ s.revRange ↔ s.score a = some v := by
  rw [revRange, mem_reverse, mem_entries_iff]

theorem card_eq_zero_iff (s : SortedSet α β) : s.card = 0 ↔ ∀ a, a ∉ s := by
  rw [card, length_eq_zero_iff]
  simp only [mem_iff_mem_members]
  constructor
  · intro h a
    simp [h]
  · intro h
    rcases hentries : s.entries with _ | ⟨entry, rest⟩
    · rfl
    · exact absurd (by simp [hentries]) (h entry.1)

theorem card_pos_iff (s : SortedSet α β) : 0 < s.card ↔ ∃ a, a ∈ s := by
  rw [Nat.pos_iff_ne_zero, Ne, card_eq_zero_iff]
  push Not
  rfl

def members (s : SortedSet α β) : List α := s.entries.map Prod.fst

@[simp] theorem length_members (s : SortedSet α β) : s.members.length = s.card :=
  length_map _

theorem members_remove (s : SortedSet α β) (a : α) : (s.remove a).members = s.members.erase a := by
  rw [members, members, List.Nodup.erase_eq_filter s.nodup, filter_map, remove]
  congr 1
  refine filter_congr fun entry _ ↦ ?_
  by_cases h : entry.1 = a <;> simp [h]

theorem card_add (s : SortedSet α β) (a : α) (v : β) :
    (s.add a v).card = if a ∈ s then s.card else s.card + 1 := by
  have hinsert : (s.add a v).card = (s.remove a).card + 1 :=
    orderedInsert_length EntryLE (s.remove a).entries (a, v)
  have hmem : a ∈ s ↔ a ∈ s.members := s.mem_iff_mem_members a
  rw [hinsert, ← length_members, members_remove, ← length_members s]
  by_cases ha : a ∈ s
  · have hlength := length_erase_add_one (hmem.mp ha)
    rw [if_pos ha, hlength]
  · rw [if_neg ha, erase_of_not_mem fun h ↦ ha (hmem.mpr h)]

theorem length_le_card {s : SortedSet α β} {l : List α} (hl : l.Nodup) (hmem : ∀ a ∈ l, a ∈ s) :
    l.length ≤ s.card := by
  rw [← length_members]
  exact (subperm_of_subset hl fun a ha ↦ (s.mem_iff_mem_members a).mp (hmem a ha)).length_le

theorem card_trim (s : SortedSet α β) (n : ℕ) : (s.trim n).card = min s.card n := by
  show (s.entries.drop (s.card - n)).length = _
  rw [length_drop]
  show s.card - (s.card - n) = _
  omega

theorem score_of_score_trim {s : SortedSet α β} {n : ℕ} {a : α} {v : β}
    (h : (s.trim n).score a = some v) : s.score a = some v := by
  rw [← mem_entries_iff] at h ⊢
  exact mem_of_mem_drop h

end SortedSet

end Sentry.Library
