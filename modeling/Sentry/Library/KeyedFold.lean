import Sentry.Library.Dictionary
import Mathlib.Data.List.Induction

/-!
# Folding items by their key

A loop over items that keeps a value for each key in a dictionary, `d[key] = step(d.get(key), item)`
(`foldByKey`). The value of a key is the fold of its own items (`foldValue`, `getItem_foldByKey`). A
second loop writes the items of a dictionary into a table of rows (`writeItems`): a row is written
once, from what it was and the items of its key (`writeItems_foldByKey`).
-/

namespace Sentry.Library

open List Option

variable {κ α β γ : Type*} [DecidableEq κ]

def foldValue (step : Option β → α → β) (value : Option β) (items : List α) : Option β :=
  items.foldl (fun value item ↦ some (step value item)) value

section

variable (step : Option β → α → β) (value : Option β)

include step value

@[simp] theorem foldValue_nil : foldValue step value [] = value := rfl

theorem foldValue_append (items others : List α) :
    foldValue step value (items ++ others) = foldValue step (foldValue step value items) others :=
  foldl_append

theorem foldValue_concat (items : List α) (item : α) :
    foldValue step value (items ++ [item]) = some (step (foldValue step value items) item) :=
  foldValue_append step value items [item]

end

theorem foldValue_last (f : α → β) (value : Option β) (items : List α) :
    foldValue (fun _ item ↦ f item) value items = (items.getLast?.map f).or value := by
  induction items using List.reverseRecOn with
  | nil => rfl
  | append_singleton items item _ =>
    rw [foldValue_concat, getLast?_concat, map_some, some_or]

theorem foldValue_collect (items : List α) :
    foldValue (fun others item ↦ others.getD [] ++ [item]) none items =
      if items = [] then none else some items := by
  induction items using List.reverseRecOn with
  | nil => rfl
  | append_singleton items item ih =>
    rw [foldValue_concat, ih, if_neg (append_ne_nil_of_right_ne_nil _ (cons_ne_nil _ _))]
    by_cases hitems : items = []
    · rw [hitems, if_pos rfl, getD_none]
    · rw [if_neg hitems, getD_some]

def foldItem (key : α → Option κ) (step : Option β → α → β) (d : List (κ × β)) (item : α) :
    List (κ × β) :=
  match key item with
  | none => d
  | some k => setItem k (step (getItem d k) item) d

def foldByKey (key : α → Option κ) (step : Option β → α → β) (d : List (κ × β)) (items : List α) :
    List (κ × β) :=
  items.foldl (foldItem key step) d

variable (key : α → Option κ) (step : Option β → α → β)

theorem getItem_foldItem (d : List (κ × β)) (item : α) (k : κ) :
    getItem (foldItem key step d item) k =
      if key item = some k then some (step (getItem d k) item) else getItem d k := by
  unfold foldItem
  cases hitem : key item with
  | none => rw [if_neg (some_ne_none k).symm]
  | some other =>
    by_cases hother : other = k
    · rw [hother, if_pos rfl, getItem_setItem, if_pos rfl]
    · rw [if_neg fun heq ↦ hother (Option.some.inj heq), getItem_setItem, if_neg hother]

theorem getItem_foldByKey (d : List (κ × β)) (items : List α) (k : κ) :
    getItem (foldByKey key step d items) k =
      foldValue step (getItem d k) (items.filter fun item ↦ key item = some k) := by
  induction items generalizing d with
  | nil => rfl
  | cons item items ih =>
    refine (ih (foldItem key step d item)).trans ?_
    rw [getItem_foldItem]
    by_cases hkey : key item = some k
    · simp only [hkey, if_true, decide_true, filter_cons_of_pos]
      rfl
    · simp only [hkey, if_false, decide_false, Bool.false_eq_true, not_false_eq_true,
        filter_cons_of_neg]

theorem nodup_keys_foldByKey {d : List (κ × β)} (hd : (d.map Prod.fst).Nodup) (items : List α) :
    ((foldByKey key step d items).map Prod.fst).Nodup := by
  induction items generalizing d with
  | nil => exact hd
  | cons item items ih =>
    refine ih ?_
    unfold foldItem
    cases key item with
    | none => exact hd
    | some k => exact nodup_keys_setItem hd k _

def writeItems (write : Option γ → β → γ) (table : κ → Option γ) (items : List (κ × β)) :
    κ → Option γ :=
  items.foldl
    (fun table item ↦ Function.update table item.1 (some (write (table item.1) item.2))) table

/-- Assumes: no key is there twice. A row is written from what it was. -/
theorem writeItems_apply (write : Option γ → β → γ) (table : κ → Option γ) {items : List (κ × β)}
    (hitems : (items.map Prod.fst).Nodup) (k : κ) :
    writeItems write table items k =
      (getItem items k).elim (table k) fun value ↦ some (write (table k) value) := by
  induction items generalizing table with
  | nil => rfl
  | cons item items ih =>
    obtain ⟨hfresh, hrest⟩ := nodup_cons.mp hitems
    refine (ih _ hrest).trans ?_
    dsimp only
    rw [getItem_cons]
    by_cases hk : item.1 = k
    · subst hk
      rw [if_pos rfl, getItem_of_notMem hfresh]
      exact Function.update_self ..
    · rw [if_neg hk, Function.update_of_ne (Ne.symm hk)]

theorem writeItems_foldByKey (write : Option γ → β → γ) (table : κ → Option γ) (items : List α)
    (k : κ) :
    writeItems write table (foldByKey key step [] items) k =
      (foldValue step none (items.filter fun item ↦ key item = some k)).elim (table k)
        fun value ↦ some (write (table k) value) := by
  have hnil : (([] : List (κ × β)).map Prod.fst).Nodup := nodup_nil
  rw [writeItems_apply _ _ (nodup_keys_foldByKey key step hnil items), getItem_foldByKey,
    getItem_nil]

end Sentry.Library
