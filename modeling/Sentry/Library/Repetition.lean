import Mathlib.Algebra.BigOperators.Group.List.Basic
import Mathlib.Algebra.Order.Group.Nat
import Mathlib.Algebra.GroupWithZero.Nat

/-!
# Reading again and again

A reader takes a value off the beginning of a list, or refuses; `many` reads until it refuses, as
`*` and `+` of a grammar do. If every value shortens the list, then `many` reads the first value and
goes on (`many_of_some`), with rules for what holds of all values (`many_induction`), for a weight
that pays for them (`sum_cost_add_weight_le`) and for values that are written one after the other
(`many_flatMap`).
-/

namespace Sentry.Library.Repetition

open List

variable {α β : Type*}

def Shortens (read : List α → Option (β × List α)) : Prop :=
  ∀ ⦃list value rest⦄, read list = some (value, rest) → rest.length < list.length

def manyWithin (read : List α → Option (β × List α)) : ℕ → List α → List β × List α
  | 0, list => ([], list)
  | most + 1, list =>
    match read list with
    | none => ([], list)
    | some (value, rest) =>
      match manyWithin read most rest with
      | (values, left) => (value :: values, left)

def many (read : List α → Option (β × List α)) (list : List α) : List β × List α :=
  manyWithin read list.length list

variable {read : List α → Option (β × List α)} {list rest : List α} {value : β}

theorem manyWithin_of_none (h : read list = none) (most : ℕ) :
    manyWithin read most list = ([], list) := by
  cases most with
  | zero => rfl
  | succ most => rw [manyWithin, h]

theorem manyWithin_of_some (h : read list = some (value, rest)) (most : ℕ) :
    manyWithin read (most + 1) list =
      (value :: (manyWithin read most rest).1, (manyWithin read most rest).2) := by
  rw [manyWithin, h]

theorem manyWithin_congr (hshortens : Shortens read) {most most' : ℕ} (h : list.length ≤ most)
    (h' : list.length ≤ most') : manyWithin read most list = manyWithin read most' list := by
  induction most generalizing list most' with
  | zero =>
    cases hread : read list with
    | none => rw [manyWithin_of_none hread, manyWithin_of_none hread]
    | some reading => exact absurd (hshortens hread) (by omega)
  | succ most ih =>
    cases hread : read list with
    | none => rw [manyWithin_of_none hread, manyWithin_of_none hread]
    | some reading =>
      have hlength := hshortens hread
      cases most' with
      | zero => omega
      | succ most' =>
        rw [manyWithin_of_some hread, manyWithin_of_some hread,
          ih (by omega) (show reading.2.length ≤ most' by omega)]

theorem many_of_none (h : read list = none) : many read list = ([], list) :=
  manyWithin_of_none h _

theorem many_of_some (hshortens : Shortens read) (h : read list = some (value, rest)) :
    many read list = (value :: (many read rest).1, (many read rest).2) := by
  have hlength := hshortens h
  obtain ⟨most, hmost⟩ : ∃ most, list.length = most + 1 := ⟨list.length - 1, by omega⟩
  rw [many, hmost, manyWithin_of_some h,
    manyWithin_congr hshortens (show rest.length ≤ most by omega) le_rfl]
  rfl

theorem many_induction (hshortens : Shortens read) {motive : List α → List β → List α → Prop}
    (hnone : ∀ list, read list = none → motive list [] list)
    (hsome : ∀ list value rest values left, read list = some (value, rest) →
      motive rest values left → motive list (value :: values) left)
    (list : List α) : motive list (many read list).1 (many read list).2 := by
  induction hlength : list.length using Nat.strong_induction_on generalizing list with
  | _ length ih =>
    cases hread : read list with
    | none =>
      rw [many_of_none hread]
      exact hnone list hread
    | some reading =>
      rw [many_of_some hshortens hread]
      exact hsome list _ _ _ _ hread (ih _ (hlength ▸ hshortens hread) reading.2 rfl)

theorem many_values {motive : List α → List β → List α → Prop} (hnil : ∀ list, motive list [] list)
    (hcons : ∀ list value rest values left, read list = some (value, rest) →
      motive rest values left → motive list (value :: values) left)
    (list : List α) : motive list (many read list).1 (many read list).2 := by
  rw [many]
  induction list.length generalizing list with
  | zero => exact hnil list
  | succ most ih =>
    cases hread : read list with
    | none =>
      rw [manyWithin_of_none hread]
      exact hnil list
    | some reading =>
      rw [manyWithin_of_some hread]
      exact hcons list _ _ _ _ hread (ih reading.2)

theorem forall_mem_many (hshortens : Shortens read) (Holds : β → Prop)
    (h : ∀ list value rest, read list = some (value, rest) → Holds value) (list : List α) :
    ∀ value ∈ (many read list).1, Holds value := by
  refine many_induction hshortens (motive := fun _ values _ ↦ ∀ value ∈ values, Holds value)
    ?_ ?_ list
  · intro list _ value hvalue
    exact absurd hvalue not_mem_nil
  · intro list value rest values left hread ih
    exact forall_mem_cons.mpr ⟨h list value rest hread, ih⟩

theorem sum_cost_add_weight_le (hshortens : Shortens read) {cost : β → ℕ} {weight : List α → ℕ}
    (h : ∀ list value rest, read list = some (value, rest) →
      cost value + weight rest ≤ weight list) (list : List α) :
    ((many read list).1.map cost).sum + weight (many read list).2 ≤ weight list := by
  refine many_induction hshortens
    (motive := fun list values left ↦ (values.map cost).sum + weight left ≤ weight list) ?_ ?_ list
  · intro list _
    exact (Nat.zero_add _).le
  · intro list value rest values left hread ih
    rw [map_cons, sum_cons]
    have hvalue := h list value rest hread
    omega

theorem many_flatMap (hshortens : Shortens read) {write : β → List α} (Follows : List α → Prop)
    (hwrite : ∀ value rest, Follows (write value ++ rest)) {values : List β} {left : List α}
    (hread : ∀ value ∈ values, ∀ rest, Follows rest →
      read (write value ++ rest) = some (value, rest))
    (hleft : Follows left) (hnone : read left = none) :
    many read (values.flatMap write ++ left) = (values, left) := by
  induction values with
  | nil => exact many_of_none hnone
  | cons value values ih =>
    have hfollows : Follows (values.flatMap write ++ left) := by
      cases values with
      | nil => exact hleft
      | cons next values =>
        rw [flatMap_cons, append_assoc]
        exact hwrite next _
    rw [flatMap_cons, append_assoc, many_of_some hshortens (hread value mem_cons_self _ hfollows),
      ih fun other hother ↦ hread other (mem_cons_of_mem _ hother)]

end Sentry.Library.Repetition
