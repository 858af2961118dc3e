import Sentry.Library.KeyedFold
import Mathlib.Algebra.BigOperators.Group.Finset.Piecewise
import Mathlib.Algebra.Order.Ring.Int

/-!
# Amounts by key

Items with an amount each, and the sum of the amounts of some keys (`amountOn`). Adding up the items
by their key first does not change it (`amountOn_sumByKey`). In a table of counters, where a missing
one counts as zero, the sum over some keys follows a write (`sum_count_update`).
-/

namespace Sentry.Library

open List Function

variable {κ ι : Type*}

def amountOn (p : κ → Prop) [DecidablePred p] (items : List (κ × ℤ)) : ℤ :=
  (items.map fun item ↦ if p item.1 then item.2 else 0).sum

section Amount

variable (p q : κ → Prop) [DecidablePred p] [DecidablePred q]

@[simp] theorem amountOn_nil : amountOn p [] = 0 := rfl

@[simp] theorem amountOn_cons (item : κ × ℤ) (items : List (κ × ℤ)) :
    amountOn p (item :: items) = (if p item.1 then item.2 else 0) + amountOn p items := by
  rw [amountOn, map_cons, sum_cons, ← amountOn]

theorem amountOn_map (f : ι → κ) (items : List (ι × ℤ)) :
    amountOn p (items.map fun item ↦ (f item.1, item.2)) = amountOn (fun i ↦ p (f i)) items := by
  rw [amountOn, amountOn, map_map]
  rfl

variable {p q} in
theorem amountOn_eq_add (h : ∀ k, q k → p k) (items : List (κ × ℤ)) :
    amountOn p items = amountOn q items + amountOn (fun k ↦ p k ∧ ¬ q k) items := by
  induction items with
  | nil => rfl
  | cons item items ih =>
    rw [amountOn_cons, amountOn_cons, amountOn_cons, ih]
    by_cases hq : q item.1
    · rw [if_pos (h _ hq), if_pos hq, if_neg fun hboth ↦ hboth.2 hq]
      omega
    · by_cases hp : p item.1
      · rw [if_pos hp, if_neg hq, if_pos ⟨hp, hq⟩]
        omega
      · rw [if_neg hp, if_neg hq, if_neg fun hboth ↦ hp hboth.1]
        omega

end Amount

variable [DecidableEq κ]

def sumByKey (items : List (κ × ℤ)) : List (κ × ℤ) :=
  foldByKey (fun item ↦ some item.1) (fun total item ↦ total.getD 0 + item.2) [] items

theorem amountOn_setItem (p : κ → Prop) [DecidablePred p] (d : List (κ × ℤ)) (key : κ) (n : ℤ) :
    amountOn p (setItem key ((getItem d key).getD 0 + n) d) =
      amountOn p d + if p key then n else 0 := by
  induction d with
  | nil => simp [setItem]
  | cons item rest ih =>
    obtain ⟨key', value⟩ := item
    rw [getItem_cons]
    by_cases hkey : key' = key
    · rw [if_pos hkey, setItem, if_pos hkey, amountOn_cons, amountOn_cons, Option.getD_some, hkey]
      split_ifs <;> omega
    · rw [if_neg hkey, setItem, if_neg hkey, amountOn_cons, amountOn_cons, ih, add_assoc]

theorem amountOn_sumByKey (p : κ → Prop) [DecidablePred p] (items : List (κ × ℤ)) :
    amountOn p (sumByKey items) = amountOn p items := by
  induction items using List.reverseRecOn with
  | nil => rfl
  | append_singleton items item ih =>
    have hstep : sumByKey (items ++ [item]) =
        setItem item.1 ((getItem (sumByKey items) item.1).getD 0 + item.2) (sumByKey items) :=
      foldl_concat ..
    have hlast : amountOn p (items ++ [item]) =
        amountOn p items + if p item.1 then item.2 else 0 := by
      rw [amountOn, amountOn, map_append, sum_append, map_singleton, sum_singleton]
    rw [hstep, amountOn_setItem, ih, hlast]

/-- The count of a key, zero when it is missing. -/
def count (table : κ → Option ℤ) (key : κ) : ℤ := (table key).getD 0

theorem sum_count_update (table : κ → Option ℤ) (key : κ) (value : Option ℤ) (keys : Finset κ) :
    ∑ k ∈ keys, count (Function.update table key value) k =
      ∑ k ∈ keys, count table k + if key ∈ keys then value.getD 0 - count table key else 0 := by
  by_cases hkey : key ∈ keys
  · rw [if_pos hkey, ← Finset.add_sum_erase keys _ hkey,
      ← Finset.add_sum_erase keys (count table) hkey]
    have hothers : ∑ k ∈ keys.erase key, count (Function.update table key value) k =
        ∑ k ∈ keys.erase key, count table k := by
      refine Finset.sum_congr rfl fun k hk ↦ ?_
      rw [count, update_of_ne (Finset.ne_of_mem_erase hk), ← count]
    rw [hothers, count, update_self]
    omega
  · rw [if_neg hkey, add_zero]
    refine Finset.sum_congr rfl fun k hk ↦ ?_
    have hne : k ≠ key := fun heq ↦ hkey (heq ▸ hk)
    rw [count, update_of_ne hne, ← count]

end Sentry.Library
