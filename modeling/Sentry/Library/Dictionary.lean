import Mathlib.Data.List.Lookmap
import Mathlib.Data.List.Nodup

/-!
# Dictionaries that keep the order of insertion

A dictionary is the list of its items. Setting a key replaces the value in place, or appends the
item when the key is new (`lookup_setItem`), so that a dictionary built by setting keys has every
key once (`nodup_keys_dictOfItems`) and holds the last value that was set for it.
-/

namespace Sentry.Library

open List

variable {κ α : Type*} [DecidableEq κ]

/-- `d[key] = value`. -/
def setItem (key : κ) (value : α) : List (κ × α) → List (κ × α)
  | [] => [(key, value)]
  | (key', value') :: rest =>
    if key' = key then (key', value) :: rest else (key', value') :: setItem key value rest

/-- `d.get(key)`. -/
def getItem (d : List (κ × α)) (key : κ) : Option α :=
  (d.find? fun item ↦ item.1 = key).map Prod.snd

/-- `del d[key]`. -/
def delItem (key : κ) (d : List (κ × α)) : List (κ × α) := d.filter fun item ↦ item.1 ≠ key

/-- `d.update(items)`: the last value of a key counts. -/
def updateItems (d items : List (κ × α)) : List (κ × α) :=
  items.foldl (fun d item ↦ setItem item.1 item.2 d) d

def dictOfItems (items : List (κ × α)) : List (κ × α) := updateItems [] items

@[simp] theorem getItem_nil (key : κ) : getItem ([] : List (κ × α)) key = none := rfl

theorem getItem_cons (item : κ × α) (d : List (κ × α)) (key : κ) :
    getItem (item :: d) key = if item.1 = key then some item.2 else getItem d key := by
  by_cases h : item.1 = key
  all_goals simp [getItem, h]

theorem getItem_append (d d' : List (κ × α)) (key : κ) :
    getItem (d ++ d') key = (getItem d key).or (getItem d' key) := by
  induction d with
  | nil => rfl
  | cons item rest ih =>
    by_cases h : item.1 = key
    · simp [getItem_cons, h]
    · simp [getItem_cons, h, ih]

variable {d : List (κ × α)} {key : κ}

theorem mem_of_getItem {value : α} (h : getItem d key = some value) : (key, value) ∈ d := by
  induction d with
  | nil => simp at h
  | cons item rest ih =>
    rw [getItem_cons] at h
    by_cases hkey : item.1 = key
    · rw [if_pos hkey, Option.some.injEq] at h
      subst hkey h
      exact mem_cons_self
    · rw [if_neg hkey] at h
      exact mem_cons_of_mem _ (ih h)

theorem getItem_of_notMem (h : key ∉ d.map Prod.fst) : getItem d key = none := by
  cases hget : getItem d key with
  | none => rfl
  | some value => exact absurd (mem_map.mpr ⟨_, mem_of_getItem hget, rfl⟩) h

theorem getItem_setItem (d : List (κ × α)) (key k : κ) (value : α) :
    getItem (setItem key value d) k = if key = k then some value else getItem d k := by
  induction d with
  | nil => simp [setItem, getItem_cons]
  | cons item rest ih =>
    by_cases h : item.1 = key
    · subst h
      by_cases hk : item.1 = k
      · simp [setItem, getItem_cons, hk]
      · simp [setItem, getItem_cons, hk]
    · by_cases hk : item.1 = k
      · subst hk
        simp [setItem, getItem_cons, h, Ne.symm h]
      · simp [setItem, getItem_cons, h, hk, ih]

theorem getItem_delItem_of_ne {key k : κ} (h : k ≠ key) :
    getItem (delItem key d) k = getItem d k := by
  induction d with
  | nil => rfl
  | cons item rest ih =>
    by_cases hkey : item.1 = key
    · have hk : item.1 ≠ k := fun heq ↦ h (heq.symm.trans hkey)
      simpa [delItem, hkey, getItem_cons, hk, Ne.symm h] using ih
    · by_cases hk : item.1 = k
      · simp [delItem, getItem_cons, hk, h]
      · simpa [delItem, hkey, getItem_cons, hk] using ih

theorem mem_keys_setItem {key k : κ} {value : α} :
    k ∈ (setItem key value d).map Prod.fst ↔ k = key ∨ k ∈ d.map Prod.fst := by
  induction d with
  | nil => simp [setItem]
  | cons item rest ih =>
    by_cases h : item.1 = key
    · subst h
      simp [setItem]
    · simp only [setItem, h, if_false, map_cons, mem_cons, ih]
      exact or_left_comm

theorem setItem_ne_nil (d : List (κ × α)) (key : κ) (value : α) : setItem key value d ≠ [] := by
  intro h
  have hmem : key ∈ (setItem key value d).map Prod.fst := mem_keys_setItem.mpr (Or.inl rfl)
  simp [h] at hmem

theorem eq_or_mem_of_mem_setItem {value : α} {item : κ × α}
    (h : item ∈ setItem key value d) : item = (key, value) ∨ item ∈ d := by
  induction d with
  | nil => simpa [setItem] using h
  | cons first rest ih =>
    by_cases hkey : first.1 = key
    · subst hkey
      simp only [setItem, if_true, mem_cons] at h
      exact h.imp id (mem_cons_of_mem _)
    · simp only [setItem, hkey, if_false, mem_cons] at h
      rcases h with rfl | hrest
      · exact Or.inr mem_cons_self
      · exact (ih hrest).imp id (mem_cons_of_mem _)

theorem nodup_keys_setItem (h : (d.map Prod.fst).Nodup) (key : κ) (value : α) :
    ((setItem key value d).map Prod.fst).Nodup := by
  induction d with
  | nil => simp [setItem]
  | cons item rest ih =>
    obtain ⟨hfresh, hrest⟩ := nodup_cons.mp h
    by_cases hkey : item.1 = key
    · simpa [setItem, hkey] using h
    · simp only [setItem, hkey, if_false, map_cons]
      refine nodup_cons.mpr ⟨fun hmem ↦ ?_, ih hrest⟩
      rcases mem_keys_setItem.mp hmem with heq | hmem
      · exact hkey heq
      · exact hfresh hmem

theorem setItem_of_notMem (h : key ∉ d.map Prod.fst) (value : α) :
    setItem key value d = d ++ [(key, value)] := by
  induction d with
  | nil => rfl
  | cons item rest ih =>
    have hkey : item.1 ≠ key := fun heq ↦ h (by simp [heq])
    have hrest : key ∉ rest.map Prod.fst := fun hmem ↦ h (mem_cons_of_mem _ hmem)
    simp [setItem, hkey, ih hrest]

theorem getItem_eq_some_iff (h : (d.map Prod.fst).Nodup) {value : α} :
    getItem d key = some value ↔ (key, value) ∈ d := by
  refine ⟨mem_of_getItem, fun hmem ↦ ?_⟩
  induction d with
  | nil => simp at hmem
  | cons item rest ih =>
    obtain ⟨hfresh, hrest⟩ := nodup_cons.mp h
    rw [getItem_cons]
    by_cases hkey : item.1 = key
    · subst hkey
      have hnot : (item.1, value) ∉ rest := fun hmem ↦ hfresh (mem_map.mpr ⟨_, hmem, rfl⟩)
      rw [if_pos rfl, ← (mem_cons.mp hmem).resolve_right hnot]
    · rw [if_neg hkey]
      refine ih hrest ((mem_cons.mp hmem).resolve_left fun heq ↦ hkey ?_)
      rw [← heq]

theorem nodup_keys_updateItems (h : (d.map Prod.fst).Nodup)
    (items : List (κ × α)) : ((updateItems d items).map Prod.fst).Nodup := by
  induction items generalizing d with
  | nil => exact h
  | cons item rest ih => exact ih (nodup_keys_setItem h item.1 item.2)

theorem nodup_keys_dictOfItems (items : List (κ × α)) : ((dictOfItems items).map Prod.fst).Nodup :=
  nodup_keys_updateItems (d := []) nodup_nil items

variable {items : List (κ × α)}

theorem getItem_updateItems_of_notMem (h : key ∉ items.map Prod.fst) (d : List (κ × α)) :
    getItem (updateItems d items) key = getItem d key := by
  unfold updateItems
  induction items generalizing d with
  | nil => rfl
  | cons item rest ih =>
    have hkey : item.1 ≠ key := fun heq ↦ h (by simp [heq])
    have hrest : key ∉ rest.map Prod.fst := fun hmem ↦ h (mem_cons_of_mem _ hmem)
    rw [foldl_cons, ih hrest, getItem_setItem, if_neg hkey]

theorem exists_getItem_updateItems (hmem : key ∈ items.map Prod.fst) (d : List (κ × α)) :
    ∃ value, (key, value) ∈ items ∧ getItem (updateItems d items) key = some value := by
  induction items generalizing d with
  | nil => simp at hmem
  | cons item rest ih =>
    by_cases hrest : key ∈ rest.map Prod.fst
    · obtain ⟨value, hvalue, hget⟩ := ih hrest (setItem item.1 item.2 d)
      exact ⟨value, mem_cons_of_mem _ hvalue, hget⟩
    · obtain rfl : item.1 = key := by
        rw [map_cons, mem_cons] at hmem
        exact (hmem.resolve_right hrest).symm
      refine ⟨item.2, mem_cons_self, ?_⟩
      rw [show updateItems d (item :: rest) = updateItems (setItem item.1 item.2 d) rest from rfl,
        getItem_updateItems_of_notMem hrest, getItem_setItem, if_pos rfl]

theorem getItem_updateItems (h : (items.map Prod.fst).Nodup) (d : List (κ × α)) (key : κ) :
    getItem (updateItems d items) key = (getItem items key).or (getItem d key) := by
  cases hitem : getItem items key with
  | some value =>
    obtain ⟨other, hother, hget⟩ :=
      exists_getItem_updateItems (mem_map.mpr ⟨_, mem_of_getItem hitem, rfl⟩) d
    rw [← getItem_eq_some_iff h, hitem] at hother
    rw [hget, ← hother, Option.some_or]
  | none =>
    refine getItem_updateItems_of_notMem (fun hmem ↦ ?_) d
    obtain ⟨⟨k, value⟩, hin, rfl⟩ := mem_map.mp hmem
    rw [(getItem_eq_some_iff h).mpr hin] at hitem
    exact nomatch hitem

theorem dictOfItems_of_nodup (h : (items.map Prod.fst).Nodup) : dictOfItems items = items := by
  have hfold : ∀ d : List (κ × α), ((d ++ items).map Prod.fst).Nodup →
      updateItems d items = d ++ items := by
    clear h
    unfold updateItems
    induction items with
    | nil => exact fun d _ ↦ (append_nil d).symm
    | cons item rest ih =>
      intro d hd
      have hfresh : item.1 ∉ d.map Prod.fst := by
        rw [map_append, nodup_append] at hd
        exact fun hmem ↦ hd.2.2 _ hmem _ (by simp) rfl
      rw [foldl_cons, setItem_of_notMem hfresh, ih]
      · simp
      · simpa using hd
  exact hfold [] h

end Sentry.Library
