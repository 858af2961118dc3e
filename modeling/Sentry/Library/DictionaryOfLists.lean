import Sentry.Library.Dictionary
import Mathlib.Data.List.Induction
import Mathlib.Data.List.Perm.Subperm
import Mathlib.Algebra.GroupWithZero.Nat

/-!
# What dictionaries of lists hold

A dictionary whose values have lists of things holds every thing under its key (`contents`). When
dictionaries are merged by updating the first with the others, the merged one holds all that the
single ones hold if and only if no two have a key in common (`contents_foldl_updateItems_perm_iff`).
-/

namespace Sentry.Library

open List

variable {κ α β : Type*} (values : α → List β) {d items : List (κ × α)}

/-- What a dictionary holds, every thing with its key. -/
def contents (d : List (κ × α)) : List (κ × β) :=
  d.flatMap fun item ↦ (values item.2).map fun b ↦ (item.1, b)

@[simp] theorem contents_nil : contents values ([] : List (κ × α)) = [] := rfl

theorem contents_cons (item : κ × α) (d : List (κ × α)) :
    contents values (item :: d) = (values item.2).map (fun b ↦ (item.1, b)) ++ contents values d :=
  rfl

theorem length_contents (d : List (κ × α)) :
    (contents values d).length = ((d.map Prod.snd).map fun value ↦ (values value).length).sum := by
  induction d with
  | nil => rfl
  | cons item rest ih =>
    rw [contents_cons, length_append, length_map, ih]
    rfl

variable {values}

theorem mem_contents {entry : κ × β} :
    entry ∈ contents values d ↔ ∃ value, (entry.1, value) ∈ d ∧ entry.2 ∈ values value := by
  simp only [contents, mem_flatMap, mem_map]
  constructor
  · rintro ⟨item, hitem, b, hb, rfl⟩
    exact ⟨item.2, hitem, hb⟩
  · rintro ⟨value, hmem, hb⟩
    exact ⟨_, hmem, entry.2, hb, rfl⟩

theorem key_mem_of_mem_contents {entry : κ × β} (h : entry ∈ contents values d) :
    entry.1 ∈ d.map Prod.fst := by
  obtain ⟨value, hmem, -⟩ := mem_contents.mp h
  exact mem_map.mpr ⟨_, hmem, rfl⟩

theorem exists_mem_contents (hne : ∀ item ∈ d, values item.2 ≠ []) {key : κ}
    (hkey : key ∈ d.map Prod.fst) : ∃ b, (key, b) ∈ contents values d := by
  obtain ⟨item, hitem, rfl⟩ := mem_map.mp hkey
  obtain ⟨b, hb⟩ := exists_mem_of_ne_nil _ (hne item hitem)
  exact ⟨b, mem_contents.mpr ⟨item.2, hitem, hb⟩⟩

theorem contents_perm {d' : List (κ × α)} (h : d.Perm d') :
    (contents values d).Perm (contents values d') :=
  h.flatMap_right _

theorem contents_filter (p : κ → Bool) (d : List (κ × α)) :
    contents values (d.filter fun item ↦ p item.1) =
      (contents values d).filter fun entry ↦ p entry.1 := by
  induction d with
  | nil => rfl
  | cons item rest ih =>
    rw [contents_cons, filter_append, ← ih, filter_map]
    by_cases hp : p item.1 = true
    · simp [hp, contents_cons, Function.comp_def]
    · simp [hp, Function.comp_def]

variable [DecidableEq κ]

theorem perm_setItem (h : (d.map Prod.fst).Nodup) (key : κ) (value : α) :
    (setItem key value d).Perm ((key, value) :: delItem key d) := by
  have hdel : (key, value) ∉ delItem key d := fun hmem ↦ by simp [delItem] at hmem
  refine (perm_ext_iff_of_nodup ((nodup_keys_setItem h key value).of_map)
    (nodup_cons.mpr ⟨hdel, h.of_map.filter _⟩)).mpr ?_
  rintro ⟨k, v⟩
  rw [← getItem_eq_some_iff (nodup_keys_setItem h key value), getItem_setItem]
  by_cases hk : key = k
  · subst hk
    simp [delItem, eq_comm]
  · simp [delItem, hk, Ne.symm hk, getItem_eq_some_iff h]

theorem perm_of_getItem (h : (d.map Prod.fst).Nodup) {key : κ} {value : α}
    (hget : getItem d key = some value) : d.Perm ((key, value) :: delItem key d) := by
  have hdel : (key, value) ∉ delItem key d := fun hmem ↦ by simp [delItem] at hmem
  refine (perm_ext_iff_of_nodup h.of_map
    (nodup_cons.mpr ⟨hdel, h.of_map.filter _⟩)).mpr ?_
  rintro ⟨k, v⟩
  by_cases hk : k = key
  · subst hk
    rw [← getItem_eq_some_iff h, hget]
    simp [delItem, eq_comm]
  · simp [delItem, hk]

theorem delItem_of_notMem {key : κ} (h : key ∉ d.map Prod.fst) : delItem key d = d :=
  filter_eq_self.mpr fun item hitem ↦ by
    simpa using fun heq ↦ h (mem_map.mpr ⟨item, hitem, heq⟩)

theorem perm_updateItems (h : (d.map Prod.fst).Nodup) (hitems : (items.map Prod.fst).Nodup) :
    (updateItems d items).Perm
      (d.filter (fun item ↦ decide (item.1 ∉ items.map Prod.fst)) ++ items) := by
  have hdisjoint : List.Disjoint
      (d.filter (fun item ↦ decide (item.1 ∉ items.map Prod.fst))) items := by
    intro item hleft hright
    have hnot := of_decide_eq_true (mem_filter.mp hleft).2
    exact hnot (mem_map_of_mem hright)
  refine (perm_ext_iff_of_nodup (nodup_keys_updateItems h items).of_map
    ((h.of_map.filter _).append hitems.of_map hdisjoint)).mpr fun ⟨k, v⟩ ↦ ?_
  rw [← getItem_eq_some_iff (nodup_keys_updateItems h items), getItem_updateItems hitems,
    mem_append, mem_filter, ← getItem_eq_some_iff h, ← getItem_eq_some_iff hitems]
  cases hget : getItem items k with
  | some value =>
    have hkey : k ∈ items.map Prod.fst := mem_map.mpr ⟨_, mem_of_getItem hget, rfl⟩
    simp [hkey]
  | none =>
    have hkey : k ∉ items.map Prod.fst := by
      intro hmem
      obtain ⟨item, hitem, rfl⟩ := mem_map.mp hmem
      rw [(getItem_eq_some_iff hitems).mpr hitem] at hget
      cases hget
    simp [hkey]

theorem contents_setItem (h : (d.map Prod.fst).Nodup) (key : κ) (value : α) :
    (contents values (setItem key value d)).Perm
      ((values value).map (fun b ↦ (key, b)) ++ contents values (delItem key d)) :=
  contents_perm (perm_setItem h key value)

theorem contents_updateItems (values : α → List β) (h : (d.map Prod.fst).Nodup)
    (hitems : (items.map Prod.fst).Nodup) : (contents values (updateItems d items)).Perm
      ((contents values d).filter (fun entry ↦ decide (entry.1 ∉ items.map Prod.fst)) ++
        contents values items) := by
  refine (contents_perm (perm_updateItems h hitems)).trans ?_
  rw [contents, flatMap_append, ← contents, ← contents, ← contents_filter fun key ↦ decide (key ∉ items.map Prod.fst)]

theorem nodup_keys_foldl_updateItems (ds : List (List (κ × α))) :
    ((ds.foldl updateItems []).map Prod.fst).Nodup := by
  induction ds using reverseRecOn with
  | nil => exact nodup_nil
  | append_singleton ds d ih =>
    rw [foldl_append]
    exact nodup_keys_updateItems ih d

variable {ds : List (List (κ × α))}

theorem exists_mem_of_mem_foldl_updateItems (hnodup : ∀ d ∈ ds, (d.map Prod.fst).Nodup)
    {item : κ × α} (h : item ∈ ds.foldl updateItems []) : ∃ d ∈ ds, item ∈ d := by
  induction ds using reverseRecOn with
  | nil => exact absurd h not_mem_nil
  | append_singleton ds d ih =>
    have hd := hnodup d (mem_append_right _ (mem_singleton_self d))
    rw [foldl_append, foldl_cons, foldl_nil,
      (perm_updateItems (nodup_keys_foldl_updateItems ds) hd).mem_iff, mem_append, mem_filter] at h
    rcases h with ⟨hmem, -⟩ | hmem
    · obtain ⟨d', hd', hitem⟩ := ih (fun d' hd' ↦ hnodup d' (mem_append_left _ hd')) hmem
      exact ⟨d', mem_append_left _ hd', hitem⟩
    · exact ⟨d, mem_append_right _ (mem_singleton_self d), hmem⟩

theorem contents_foldl_updateItems_subperm (values : α → List β)
    (hnodup : ∀ d ∈ ds, (d.map Prod.fst).Nodup) :
    (contents values (ds.foldl updateItems [])).Subperm (ds.flatMap (contents values)) := by
  induction ds using reverseRecOn with
  | nil => exact List.Subperm.refl _
  | append_singleton ds d ih =>
    rw [foldl_append, flatMap_append, flatMap_singleton, foldl_cons, foldl_nil]
    have hds := ih fun d' hd' ↦ hnodup d' (mem_append_left _ hd')
    have hd := hnodup d (mem_append_right _ (mem_singleton_self d))
    refine (contents_updateItems values (nodup_keys_foldl_updateItems ds) hd).subperm.trans ?_
    exact (subperm_append_right _).mpr ((filter_sublist.subperm).trans hds)

theorem contents_foldl_updateItems_perm_iff (hnodup : ∀ d ∈ ds, (d.map Prod.fst).Nodup)
    (hne : ∀ d ∈ ds, ∀ item ∈ d, values item.2 ≠ []) :
    (contents values (ds.foldl updateItems [])).Perm (ds.flatMap (contents values)) ↔
      ds.Pairwise fun d d' ↦ List.Disjoint (d.map Prod.fst) (d'.map Prod.fst) := by
  induction ds using reverseRecOn with
  | nil => simp
  | append_singleton ds d ih =>
    have hnodup' : ∀ d' ∈ ds, (d'.map Prod.fst).Nodup :=
      fun d' hd' ↦ hnodup d' (mem_append_left _ hd')
    have hne' : ∀ d' ∈ ds, ∀ item ∈ d', values item.2 ≠ [] :=
      fun d' hd' ↦ hne d' (mem_append_left _ hd')
    have hd := hnodup d (mem_append_right _ (mem_singleton_self d))
    have hupdate := contents_updateItems values (nodup_keys_foldl_updateItems ds) hd
    have hsub := contents_foldl_updateItems_subperm values hnodup'
    rw [foldl_append, flatMap_append, flatMap_singleton, foldl_cons,
      foldl_nil, pairwise_append, ← ih hnodup' hne']
    constructor
    · intro hall
      -- What the update leaves of the merged dictionary is as long as all that comes before.
      have hleft := (perm_append_right_iff _).mp (hupdate.symm.trans hall)
      have hlength := hleft.length_eq
      have hkept := length_filter_le
        (fun entry : κ × β ↦ decide (entry.1 ∉ d.map Prod.fst))
        (contents values (ds.foldl updateItems []))
      have hperm := hsub.perm_of_length_le (by omega)
      refine ⟨hperm, pairwise_singleton _ d, fun d' hd' other hother ↦ ?_⟩
      obtain rfl := mem_singleton.mp hother
      intro key hkey' hkey
      obtain ⟨b, hb⟩ := exists_mem_contents (hne' d' hd') hkey'
      have hmem := hleft.mem_iff.mpr (mem_flatMap.mpr ⟨d', hd', hb⟩)
      exact absurd hkey (by simpa using (mem_filter.mp hmem).2)
    · rintro ⟨hperm, -, hdisjoint⟩
      refine hupdate.trans ((perm_append_right_iff _).mpr ?_)
      rw [filter_eq_self.mpr]
      · exact hperm
      · intro entry hentry
        obtain ⟨d', hd', hmem⟩ := mem_flatMap.mp (hperm.mem_iff.mp hentry)
        have hkey := key_mem_of_mem_contents hmem
        simpa using hdisjoint d' hd' d (mem_singleton_self d) hkey

end Sentry.Library
