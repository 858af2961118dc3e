import Mathlib.Algebra.Group.Int.Defs
import Mathlib.Tactic.Common

/-!
# Counts and where they come from

For a key at a place there is a count for every field that occurs, and a field is a member of the
intervals in which it occurred (`Occurrences`). Adding (`add`), moving (`move`) and removing
(`erase`) keep that a field has a count exactly if it is a member of some interval (`Consistent`).
Moving a key after adding to it is adding to where it is moved (`move_add_source`), also for a list
of places (`foldl_move_foldl_add`).
-/

namespace Sentry.Library

open List

variable {π κ φ ι : Type*}

def addCounts : Option ℤ → Option ℤ → Option ℤ := Option.merge (· + ·)

theorem addCounts_comm (a b : Option ℤ) : addCounts a b = addCounts b a :=
  (Option.commutative_merge ((· + ·) : ℤ → ℤ → ℤ)).comm a b

theorem addCounts_assoc (a b c : Option ℤ) :
    addCounts (addCounts a b) c = addCounts a (addCounts b c) :=
  (Option.associative_merge ((· + ·) : ℤ → ℤ → ℤ)).assoc a b c

@[simp] theorem addCounts_none (a : Option ℤ) : addCounts a none = a := Option.merge_none_right

@[simp] theorem isSome_addCounts (a b : Option ℤ) :
    (addCounts a b).isSome ↔ a.isSome ∨ b.isSome := by
  rw [addCounts, Option.isSome_merge, Bool.or_eq_true]

/-- A count for a field, and the intervals in which it occurred. -/
structure Occurrence (φ ι : Type*) where
  field : φ
  count : ℤ
  intervals : List ι

def total [DecidableEq φ] : List (Occurrence φ ι) → φ → Option ℤ
  | [], _ => none
  | occurrence :: occurrences, field =>
    if occurrence.field = field then addCounts (some occurrence.count) (total occurrences field)
    else total occurrences field

theorem isSome_total [DecidableEq φ] {occurrences : List (Occurrence φ ι)} {field : φ} :
    (total occurrences field).isSome ↔ ∃ occurrence ∈ occurrences, occurrence.field = field := by
  induction occurrences with
  | nil => simp [total]
  | cons occurrence occurrences ih =>
    simp only [total, mem_cons, exists_eq_or_imp]
    by_cases h : occurrence.field = field
    · simp [h]
    · simp [h, ih]

/-- The counts of the fields of each key at each place, and the intervals of which the fields are
members. -/
@[ext]
structure Occurrences (π κ φ ι : Type*) where
  frequency : π → κ → φ → Option ℤ
  member : π → κ → φ → ι → Prop

namespace Occurrences

/-- There is a count for a field exactly if it is a member of some interval. -/
def Consistent (o : Occurrences π κ φ ι) : Prop :=
  ∀ place key field, (∃ interval, o.member place key field interval) ↔
    (o.frequency place key field).isSome

variable [DecidableEq π] [DecidableEq κ] [DecidableEq φ] {o : Occurrences π κ φ ι}
  {place other : π} {source destination : κ} {occurrences : List (Occurrence φ ι)}

def add (place : π) (key : κ) (occurrences : List (Occurrence φ ι)) (o : Occurrences π κ φ ι) :
    Occurrences π κ φ ι where
  frequency place' key' field :=
    if place' = place ∧ key' = key then
      addCounts (o.frequency place' key' field) (total occurrences field)
    else o.frequency place' key' field
  member place' key' field interval :=
    o.member place' key' field interval ∨ (place' = place ∧ key' = key ∧
      ∃ occurrence ∈ occurrences, occurrence.field = field ∧ interval ∈ occurrence.intervals)

def move (place : π) (source destination : κ) (o : Occurrences π κ φ ι) : Occurrences π κ φ ι where
  frequency place' key field :=
    if place' = place ∧ key = source then none
    else if place' = place ∧ key = destination then
      addCounts (o.frequency place' key field) (o.frequency place' source field)
    else o.frequency place' key field
  member place' key field interval :=
    if place' = place ∧ key = source then False
    else if place' = place ∧ key = destination then
      o.member place' key field interval ∨ o.member place' source field interval
    else o.member place' key field interval

def erase (place : π) (key : κ) (o : Occurrences π κ φ ι) : Occurrences π κ φ ι where
  frequency place' key' field :=
    if place' = place ∧ key' = key then none else o.frequency place' key' field
  member place' key' field interval :=
    if place' = place ∧ key' = key then False else o.member place' key' field interval

omit [DecidableEq κ] [DecidableEq π] [DecidableEq φ] in
theorem Consistent.eq_none (h : o.Consistent) {key : κ} {field : φ}
    (hnone : o.frequency place key field = none) (interval : ι) :
    ¬ o.member place key field interval := by
  intro hmember
  have hsome := (h place key field).mp ⟨interval, hmember⟩
  rw [hnone] at hsome
  exact Bool.false_ne_true hsome

theorem Consistent.add (h : o.Consistent) (place : π) (key : κ)
    (hoccurrences : ∀ occurrence ∈ occurrences, occurrence.intervals ≠ []) :
    (o.add place key occurrences).Consistent := by
  intro place' key' field
  have hnew : (∃ interval, ∃ occurrence ∈ occurrences, occurrence.field = field ∧
      interval ∈ occurrence.intervals) ↔ (total occurrences field).isSome := by
    rw [isSome_total]
    constructor
    · rintro ⟨interval, occurrence, hmem, hfield, -⟩
      exact ⟨occurrence, hmem, hfield⟩
    · rintro ⟨occurrence, hmem, hfield⟩
      obtain ⟨interval, hinterval⟩ := exists_mem_of_ne_nil _ (hoccurrences occurrence hmem)
      exact ⟨interval, occurrence, hmem, hfield, hinterval⟩
  show (∃ interval, o.member place' key' field interval ∨ (place' = place ∧ key' = key ∧ _)) ↔
    (if place' = place ∧ key' = key then _ else _ : Option ℤ).isSome
  by_cases hkey : place' = place ∧ key' = key
  · rw [if_pos hkey, isSome_addCounts, exists_or, h place' key' field]
    simp only [hkey, true_and, hnew]
  · rw [if_neg hkey, exists_or, h place' key' field]
    refine or_iff_left fun hright ↦ ?_
    obtain ⟨-, hplace, hkey', -⟩ := hright
    exact hkey ⟨hplace, hkey'⟩

omit [DecidableEq φ] in
theorem Consistent.move (h : o.Consistent) (place : π) (source destination : κ) :
    (o.move place source destination).Consistent := by
  intro place' key field
  show (∃ interval, if place' = place ∧ key = source then False else _) ↔
    (if place' = place ∧ key = source then none else _ : Option ℤ).isSome
  by_cases hsource : place' = place ∧ key = source
  · simp [hsource]
  · by_cases hdestination : place' = place ∧ key = destination
    · simp only [if_neg hsource, if_pos hdestination, exists_or, isSome_addCounts]
      rw [h place' key field, h place' source field]
    · simp only [if_neg hsource, if_neg hdestination]
      exact h place' key field

omit [DecidableEq φ] in
theorem Consistent.erase (h : o.Consistent) (place : π) (key : κ) :
    (o.erase place key).Consistent := by
  intro place' key' field
  show (∃ interval, if place' = place ∧ key' = key then False else _) ↔
    (if place' = place ∧ key' = key then none else _ : Option ℤ).isSome
  by_cases hkey : place' = place ∧ key' = key
  · simp [hkey]
  · simp only [if_neg hkey]
    exact h place' key' field

omit [DecidableEq π] [DecidableEq κ] [DecidableEq φ] in
theorem ext_at {p : Occurrences π κ φ ι}
    (h : ∀ place key, (∀ field, o.frequency place key field = p.frequency place key field) ∧
      ∀ field interval, o.member place key field interval ↔ p.member place key field interval) :
    o = p := by
  ext place key field interval
  · rw [(h place key).1]
  · rw [(h place key).2]

theorem move_add_source (o : Occurrences π κ φ ι) (place : π) (hne : source ≠ destination)
    (occurrences : List (Occurrence φ ι)) :
    (o.add place source occurrences).move place source destination =
      (o.move place source destination).add place destination occurrences := by
  refine ext_at fun place' key ↦ ?_
  by_cases hplace : place' = place
  · by_cases hsource : key = source
    · simp [move, add, hplace, hsource, hne]
    · by_cases hdestination : key = destination
      · simp [move, add, hplace, hdestination, hne.symm, addCounts_assoc, or_assoc]
      · simp [move, add, hplace, hsource, hdestination]
  · simp [move, add, hplace]

theorem move_add_destination (o : Occurrences π κ φ ι) (place other : π)
    (hne : source ≠ destination) (occurrences : List (Occurrence φ ι)) :
    (o.add other destination occurrences).move place source destination =
      (o.move place source destination).add other destination occurrences := by
  refine ext_at fun place' key ↦ ?_
  by_cases hplace : place' = place
  · by_cases hsource : key = source
    · simp [move, add, hplace, hsource, hne]
    · by_cases hdestination : key = destination
      · by_cases hother : place = other
        · simp [move, add, hplace, hdestination, hother, hne, hne.symm, or_right_comm,
            addCounts_assoc, addCounts_comm (total occurrences _)]
        · simp [move, add, hplace, hdestination, hother, hne, hne.symm]
      · simp [move, add, hplace, hsource, hdestination]
  · simp [move, add, hplace]

theorem move_add_of_ne (o : Occurrences π κ φ ι) (hplaces : place ≠ other) (key : κ)
    (occurrences : List (Occurrence φ ι)) :
    (o.add other key occurrences).move place source destination =
      (o.move place source destination).add other key occurrences := by
  refine ext_at fun place' key' ↦ ?_
  by_cases hplace : place' = place
  · simp [move, add, hplace, hplaces]
  · simp [move, add, hplace]

omit [DecidableEq φ] in
theorem Consistent.move_eq_self (h : o.Consistent)
    (hsource : ∀ field, o.frequency place source field = none) :
    o.move place source destination = o := by
  have hmember := fun field interval ↦ h.eq_none (hsource field) interval
  ext place' key field interval
  · by_cases hplace : place' = place
    · by_cases hkey : key = source
      · simp [Occurrences.move, hplace, hkey, hsource]
      · simp [Occurrences.move, hplace, hkey, hsource]
    · simp [Occurrences.move, hplace]
  · by_cases hplace : place' = place
    · by_cases hkey : key = source
      · simp [Occurrences.move, hplace, hkey, hmember]
      · simp [Occurrences.move, hplace, hkey, hmember]
    · simp [Occurrences.move, hplace]

theorem foldl_move_add_destination (hne : source ≠ destination) (place : π)
    (occurrences : List (Occurrence φ ι)) (places : List π) (o : Occurrences π κ φ ι) :
    places.foldl (fun o place ↦ o.move place source destination)
        (o.add place destination occurrences) =
      (places.foldl (fun o place ↦ o.move place source destination) o).add place destination
        occurrences := by
  induction places generalizing o with
  | nil => rfl
  | cons first places ih =>
    rw [foldl_cons, foldl_cons, move_add_destination o first place hne, ih]

theorem foldl_move_add {places : List π} (hne : source ≠ destination) (hplace : place ∈ places)
    (occurrences : List (Occurrence φ ι)) (o : Occurrences π κ φ ι) :
    places.foldl (fun o place ↦ o.move place source destination)
        (o.add place source occurrences) =
      (places.foldl (fun o place ↦ o.move place source destination) o).add place destination
        occurrences := by
  induction places generalizing o with
  | nil => exact absurd hplace not_mem_nil
  | cons first places ih =>
    rw [foldl_cons, foldl_cons]
    by_cases hfirst : first = place
    · rw [hfirst, move_add_source o place hne, foldl_move_add_destination hne]
    · rw [move_add_of_ne o hfirst]
      exact ih ((List.mem_cons.mp hplace).resolve_left (Ne.symm hfirst)) _

theorem foldl_move_foldl_add {places : List π} (hne : source ≠ destination)
    {additions : List (π × List (Occurrence φ ι))}
    (hplaces : ∀ addition ∈ additions, addition.1 ∈ places) (o : Occurrences π κ φ ι) :
    places.foldl (fun o place ↦ o.move place source destination)
        (additions.foldl (fun o addition ↦ o.add addition.1 source addition.2) o) =
      additions.foldl (fun o addition ↦ o.add addition.1 destination addition.2)
        (places.foldl (fun o place ↦ o.move place source destination) o) := by
  induction additions generalizing o with
  | nil => rfl
  | cons addition additions ih =>
    obtain ⟨hfirst, hrest⟩ := List.forall_mem_cons.mp hplaces
    rw [foldl_cons, foldl_cons, ih hrest, foldl_move_add hne hfirst]

end Occurrences

end Sentry.Library
