import Sentry.Rules.Processor
import Mathlib.Data.List.Dedup

/-!
# The statuses of rules for groups

`models/grouprulestatus.py`, and `bulk_get_rule_status` of `rules/processing/processor.py`. When a
rule was last active for a group is in a row of the database, which is cached as it was when it was
read. Reading the statuses of some rules creates the rows that are missing, which changes nothing of
when a rule was last active (`sameExcept_bulkGetRuleStatus`).
-/

namespace Sentry.Rules

open Library List

/-- A row of `GroupRuleStatus`; times in minutes. -/
structure StatusRow where
  id : ℕ
  ruleId : ℕ
  groupId : ℕ
  lastActive : Option ℚ
  deriving DecidableEq

def StatusRow.pair (row : StatusRow) : ℕ × ℕ := (row.ruleId, row.groupId)

/-- The table with the next id, and the cache. -/
structure StatusStore where
  rows : List StatusRow
  nextId : ℕ
  cache : List ((ℕ × ℕ) × StatusRow)

namespace StatusStore

variable (store : StatusStore) (ruleIds : List ℕ) (groupId : ℕ)

/-- `missing_rule_ids` -/
def missingRuleIds : List ℕ :=
  (ruleIds.filter fun ruleId ↦ getItem store.cache (ruleId, groupId) = none).dedup

/-- `GroupRuleStatus.objects.filter(group=group, rule_id__in=rule_ids)` -/
def filterRows : List StatusRow :=
  store.rows.filter fun row ↦ row.groupId = groupId ∧ row.ruleId ∈ ruleIds

/-- `GroupRuleStatus.objects.bulk_create` of rows that were never active. -/
def bulkCreate : StatusStore :=
  { store with
    rows := store.rows ++ ruleIds.mapIdx fun i ruleId ↦ ⟨store.nextId + i, ruleId, groupId, none⟩
    nextId := store.nextId + ruleIds.length }

def uncreatedRuleIds : List ℕ :=
  (store.missingRuleIds ruleIds groupId).filter fun ruleId ↦
    ruleId ∉ (store.filterRows (store.missingRuleIds ruleIds groupId) groupId).map StatusRow.ruleId

def created : StatusStore := store.bulkCreate (store.uncreatedRuleIds ruleIds groupId) groupId

/-- `to_cache` -/
def toCache : List StatusRow :=
  store.filterRows (store.missingRuleIds ruleIds groupId) groupId ++
    (store.created ruleIds groupId).filterRows (store.uncreatedRuleIds ruleIds groupId) groupId

/-- `bulk_get_rule_status` -/
def bulkGetRuleStatus : List (ℕ × StatusRow) × StatusStore :=
  let cacheResults := ruleIds.filterMap fun ruleId ↦
    (getItem store.cache (ruleId, groupId)).map fun status ↦ (ruleId, status)
  let toCache := store.toCache ruleIds groupId
  (updateItems cacheResults (toCache.map fun status ↦ (status.ruleId, status)),
    { store.created ruleIds groupId with
      cache := updateItems store.cache (toCache.map fun status ↦ (status.pair, status)) })

/-- The rows that `filter(id=id).exclude(last_active__gt=freq_offset)` selects. -/
def Selects (id : ℕ) (freqOffset : ℚ) (row : StatusRow) : Prop :=
  row.id = id ∧ ∀ time ∈ row.lastActive, time ≤ freqOffset

instance (id : ℕ) (freqOffset : ℚ) : DecidablePred (Selects id freqOffset) :=
  fun row ↦ inferInstanceAs (Decidable (_ ∧ ∀ time ∈ row.lastActive, _))

/-- `update(last_active=now)` of the rows that are selected, with their number. -/
def updateLastActive (id : ℕ) (freqOffset now : ℚ) : ℕ × StatusStore :=
  (store.rows.countP fun row ↦ Selects id freqOffset row,
    { store with
      rows := store.rows.map fun row ↦
        if Selects id freqOffset row then { row with lastActive := some now } else row })

/-- The rule was last active for the group at or before a time, if ever: neither the cached status
nor the row is later. -/
def LastActiveBy (pair : ℕ × ℕ) (time : ℚ) : Prop :=
  (∀ status ∈ getItem store.cache pair, ∀ lastActive ∈ status.lastActive, lastActive ≤ time) ∧
    ∀ row ∈ store.rows, row.pair = pair → ∀ lastActive ∈ row.lastActive, lastActive ≤ time

instance (pair : ℕ × ℕ) (time : ℚ) : Decidable (store.LastActiveBy pair time) :=
  inferInstanceAs (Decidable (_ ∧ _))

def Kept (pair : ℕ × ℕ) : Prop :=
  ∀ status ∈ getItem store.cache pair, ∃ row ∈ store.rows, row.id = status.id

instance (pair : ℕ × ℕ) : Decidable (store.Kept pair) :=
  inferInstanceAs (Decidable (∀ status ∈ getItem store.cache pair, _))

/-- A store that reads and updates can have led to: ids and pairs are unique, and a cached status
was read from the row with its id. -/
structure Valid : Prop where
  nodup_ids : (store.rows.map StatusRow.id).Nodup
  nodup_pairs : (store.rows.map StatusRow.pair).Nodup
  id_lt : ∀ row ∈ store.rows, row.id < store.nextId
  cached_id_lt : ∀ pair, ∀ status ∈ getItem store.cache pair, status.id < store.nextId
  cached : ∀ pair, ∀ status ∈ getItem store.cache pair, ∀ row ∈ store.rows,
    row.id = status.id → row.pair = pair

/-- Two stores say the same of all pairs but some. -/
structure SameExcept (changed : ℕ × ℕ → Prop) (store store' : StatusStore) : Prop where
  lastActiveBy : ∀ pair, ¬ changed pair → ∀ time,
    (store'.LastActiveBy pair time ↔ store.LastActiveBy pair time)
  kept : ∀ pair, ¬ changed pair → (store'.Kept pair ↔ store.Kept pair)

theorem SameExcept.refl (changed : ℕ × ℕ → Prop) (store : StatusStore) :
    SameExcept changed store store where
  lastActiveBy _ _ _ := Iff.rfl
  kept _ _ := Iff.rfl

theorem SameExcept.trans {changed changed' : ℕ × ℕ → Prop} {store store' store'' : StatusStore}
    (h : SameExcept changed store store') (h' : SameExcept changed' store' store'') :
    SameExcept (fun pair ↦ changed pair ∨ changed' pair) store store'' where
  lastActiveBy pair hpair time :=
    (h'.lastActiveBy pair (fun hmem ↦ hpair (Or.inr hmem)) time).trans
      (h.lastActiveBy pair (fun hmem ↦ hpair (Or.inl hmem)) time)
  kept pair hpair :=
    (h'.kept pair fun hmem ↦ hpair (Or.inr hmem)).trans
      (h.kept pair fun hmem ↦ hpair (Or.inl hmem))

theorem SameExcept.mono {changed changed' : ℕ × ℕ → Prop} {store store' : StatusStore}
    (h : SameExcept changed store store') (hle : ∀ pair, changed pair → changed' pair) :
    SameExcept changed' store store' where
  lastActiveBy pair hpair := h.lastActiveBy pair fun hmem ↦ hpair (hle pair hmem)
  kept pair hpair := h.kept pair fun hmem ↦ hpair (hle pair hmem)

section Read

variable {store ruleIds groupId}

variable {ruleId : ℕ}

theorem mem_missingRuleIds :
    ruleId ∈ store.missingRuleIds ruleIds groupId ↔
      ruleId ∈ ruleIds ∧ getItem store.cache (ruleId, groupId) = none := by
  rw [missingRuleIds, mem_dedup, mem_filter, decide_eq_true_eq]

variable {row : StatusRow}

theorem mem_filterRows :
    row ∈ store.filterRows ruleIds groupId ↔
      row ∈ store.rows ∧ row.groupId = groupId ∧ row.ruleId ∈ ruleIds := by
  simp [filterRows]

theorem mem_uncreatedRuleIds :
    ruleId ∈ store.uncreatedRuleIds ruleIds groupId ↔
      ruleId ∈ store.missingRuleIds ruleIds groupId ∧
        ∀ row ∈ store.rows, row.pair ≠ (ruleId, groupId) := by
  simp only [uncreatedRuleIds, mem_filter, mem_map, mem_filterRows, decide_eq_true_eq]
  refine and_congr_right fun hmissing ↦ ⟨?_, ?_⟩
  · intro hnone row hrow hpair
    have hrule : row.ruleId = ruleId := congrArg Prod.fst hpair
    exact hnone ⟨row, ⟨hrow, congrArg Prod.snd hpair, by rwa [hrule]⟩, hrule⟩
  · rintro hnone ⟨row, ⟨hrow, hgroup, -⟩, hrule⟩
    exact hnone row hrow (Prod.ext hrule hgroup)

theorem mem_rows_bulkCreate :
    row ∈ (store.bulkCreate ruleIds groupId).rows ↔
      row ∈ store.rows ∨ ∃ i, ∃ h : i < ruleIds.length,
        row = ⟨store.nextId + i, ruleIds[i], groupId, none⟩ := by
  simp [bulkCreate, mem_mapIdx, eq_comm]

theorem mem_rows_created (h : row ∈ (store.created ruleIds groupId).rows) :
    row ∈ store.rows ∨ store.nextId ≤ row.id ∧ row.lastActive = none ∧
      row.ruleId ∈ store.uncreatedRuleIds ruleIds groupId ∧ row.groupId = groupId := by
  rcases mem_rows_bulkCreate.mp h with hrow | ⟨i, hi, rfl⟩
  · exact Or.inl hrow
  · exact Or.inr ⟨Nat.le_add_right _ _, rfl, getElem_mem hi, rfl⟩

theorem mem_rows_created_of_mem (h : row ∈ store.rows) :
    row ∈ (store.created ruleIds groupId).rows :=
  mem_append_left _ h

theorem exists_created (h : ruleId ∈ store.uncreatedRuleIds ruleIds groupId) :
    ∃ row ∈ (store.created ruleIds groupId).rows, row.pair = (ruleId, groupId) := by
  obtain ⟨i, hi, rfl⟩ := mem_iff_getElem.mp h
  exact ⟨_, mem_rows_bulkCreate.mpr (Or.inr ⟨i, hi, rfl⟩), rfl⟩

theorem of_mem_toCache (h : row ∈ store.toCache ruleIds groupId) :
    row ∈ (store.created ruleIds groupId).rows ∧ row.groupId = groupId ∧
      row.ruleId ∈ store.missingRuleIds ruleIds groupId := by
  rcases mem_append.mp h with hrow | hrow
  · obtain ⟨hmem, hgroup, hmissing⟩ := mem_filterRows.mp hrow
    exact ⟨mem_rows_created_of_mem hmem, hgroup, hmissing⟩
  · obtain ⟨hmem, hgroup, huncreated⟩ := mem_filterRows.mp hrow
    exact ⟨hmem, hgroup, (mem_uncreatedRuleIds.mp huncreated).1⟩

theorem exists_mem_toCache (h : ruleId ∈ store.missingRuleIds ruleIds groupId) :
    ∃ row ∈ store.toCache ruleIds groupId, row.pair = (ruleId, groupId) := by
  by_cases hrow : ∃ row ∈ store.rows, row.pair = (ruleId, groupId)
  · obtain ⟨row, hmem, hpair⟩ := hrow
    have hrule : row.ruleId = ruleId := congrArg Prod.fst hpair
    refine ⟨row, mem_append_left _ (mem_filterRows.mpr ⟨hmem, congrArg Prod.snd hpair, ?_⟩), hpair⟩
    rwa [hrule]
  · have huncreated : ruleId ∈ store.uncreatedRuleIds ruleIds groupId :=
      mem_uncreatedRuleIds.mpr ⟨h, fun row hmem hpair ↦ hrow ⟨row, hmem, hpair⟩⟩
    obtain ⟨row, hmem, hpair⟩ := exists_created huncreated
    have hrule : row.ruleId = ruleId := congrArg Prod.fst hpair
    refine ⟨row, mem_append_right _ (mem_filterRows.mpr
      ⟨hmem, congrArg Prod.snd hpair, ?_⟩), hpair⟩
    rwa [hrule]

theorem mem_keys_toCache {pair : ℕ × ℕ} :
    pair ∈ ((store.toCache ruleIds groupId).map fun status ↦ (status.pair, status)).map Prod.fst ↔
      pair.2 = groupId ∧ pair.1 ∈ store.missingRuleIds ruleIds groupId := by
  simp only [map_map, mem_map, Function.comp_apply]
  constructor
  · rintro ⟨row, hrow, rfl⟩
    exact (of_mem_toCache hrow).2
  · rintro ⟨rfl, hmissing⟩
    exact exists_mem_toCache hmissing

variable (store ruleIds groupId) in
theorem getItem_cache_bulkGetRuleStatus (pair : ℕ × ℕ) :
    (getItem (store.bulkGetRuleStatus ruleIds groupId).2.cache pair = getItem store.cache pair ∧
      ¬ (pair.2 = groupId ∧ pair.1 ∈ store.missingRuleIds ruleIds groupId)) ∨
    ∃ row ∈ (store.created ruleIds groupId).rows, row.pair = pair ∧
      getItem (store.bulkGetRuleStatus ruleIds groupId).2.cache pair = some row ∧
      pair.2 = groupId ∧ pair.1 ∈ store.missingRuleIds ruleIds groupId := by
  by_cases hmem : pair.2 = groupId ∧ pair.1 ∈ store.missingRuleIds ruleIds groupId
  · right
    obtain ⟨row, hrow, hget⟩ := exists_getItem_updateItems (mem_keys_toCache.mpr hmem) store.cache
    obtain ⟨status, hstatus, heq⟩ := mem_map.mp hrow
    obtain ⟨hpair, rfl⟩ := Prod.mk.inj heq
    exact ⟨status, (of_mem_toCache hstatus).1, hpair, hget, hmem⟩
  · left
    exact ⟨getItem_updateItems_of_notMem (fun hkey ↦ hmem (mem_keys_toCache.mp hkey)) store.cache,
      hmem⟩

theorem nodup_uncreatedRuleIds : (store.uncreatedRuleIds ruleIds groupId).Nodup :=
  (nodup_dedup _).filter _

theorem Valid.eq_of_id {row row' : StatusRow} (h : store.Valid) (hrow : row ∈ store.rows)
    (hrow' : row' ∈ store.rows) (heq : row.id = row'.id) : row = row' :=
  inj_on_of_nodup_map h.nodup_ids hrow hrow' heq

theorem Valid.eq_of_pair {row row' : StatusRow} (h : store.Valid) (hrow : row ∈ store.rows)
    (hrow' : row' ∈ store.rows) (heq : row.pair = row'.pair) : row = row' :=
  inj_on_of_nodup_map h.nodup_pairs hrow hrow' heq

theorem Valid.created (h : store.Valid) : (store.created ruleIds groupId).Valid where
  nodup_ids := by
    rw [StatusStore.created, bulkCreate, map_append, nodup_append]
    refine ⟨h.nodup_ids, ?_, ?_⟩
    · rw [List.Nodup, pairwise_iff_getElem]
      intro i j hi hj hij
      simp only [getElem_map, getElem_mapIdx]
      omega
    · intro id hid id' hid'
      obtain ⟨row, hrow, rfl⟩ := mem_map.mp hid
      obtain ⟨row', hrow', rfl⟩ := mem_map.mp hid'
      obtain ⟨i, hi, rfl⟩ := mem_mapIdx.mp hrow'
      exact ((h.id_lt row hrow).trans_le (Nat.le_add_right _ _)).ne
  nodup_pairs := by
    rw [StatusStore.created, bulkCreate, map_append, nodup_append]
    refine ⟨h.nodup_pairs, ?_, ?_⟩
    · rw [List.Nodup, pairwise_iff_getElem]
      intro i j hi hj hij
      simp only [getElem_map, getElem_mapIdx]
      intro heq
      have hindex := (nodup_uncreatedRuleIds.getElem_inj_iff).mp (congrArg Prod.fst heq)
      exact hij.ne hindex
    · intro pair hpair pair' hpair' heq
      obtain ⟨row, hrow, rfl⟩ := mem_map.mp hpair
      obtain ⟨row', hrow', rfl⟩ := mem_map.mp hpair'
      obtain ⟨i, hi, rfl⟩ := mem_mapIdx.mp hrow'
      exact (mem_uncreatedRuleIds.mp (getElem_mem hi)).2 row hrow heq
  id_lt := by
    intro row hrow
    rcases mem_rows_bulkCreate.mp hrow with hold | ⟨i, hi, rfl⟩
    · exact (h.id_lt row hold).trans_le (Nat.le_add_right _ _)
    · exact Nat.add_lt_add_left hi _
  cached_id_lt pair status hstatus :=
    (h.cached_id_lt pair status hstatus).trans_le (Nat.le_add_right _ _)
  cached := by
    intro pair status hstatus row hrow hid
    rcases mem_rows_created hrow with hold | ⟨hnew, -⟩
    · exact h.cached pair status hstatus row hold hid
    · exact absurd (h.cached_id_lt pair status hstatus) (hid ▸ not_lt.mpr hnew)

variable (ruleIds groupId) in
theorem Valid.bulkGetRuleStatus (h : store.Valid) :
    (store.bulkGetRuleStatus ruleIds groupId).2.Valid where
  nodup_ids := h.created.nodup_ids
  nodup_pairs := h.created.nodup_pairs
  id_lt := h.created.id_lt
  cached_id_lt := by
    intro pair status hstatus
    rcases getItem_cache_bulkGetRuleStatus store ruleIds groupId pair with
      ⟨hsame, -⟩ | ⟨row, hrow, -, hget, -⟩
    · exact h.created.cached_id_lt pair status (hsame ▸ hstatus)
    · rw [hget] at hstatus
      exact Option.some_inj.mp hstatus ▸ h.created.id_lt row hrow
  cached := by
    intro pair status hstatus row hrow hid
    rcases getItem_cache_bulkGetRuleStatus store ruleIds groupId pair with
      ⟨hsame, -⟩ | ⟨row', hrow', hpair, hget, -⟩
    · exact h.created.cached pair status (hsame ▸ hstatus) row hrow hid
    · rw [hget] at hstatus
      obtain rfl := Option.some_inj.mp hstatus
      rw [h.created.eq_of_id hrow hrow' hid, hpair]

variable (ruleIds groupId) in
theorem sameExcept_bulkGetRuleStatus (h : store.Valid) :
    SameExcept (fun _ ↦ False) store (store.bulkGetRuleStatus ruleIds groupId).2 where
  lastActiveBy := by
    intro pair _ time
    constructor
    · rintro ⟨hcache, hrows⟩
      refine ⟨?_, fun row hrow ↦ hrows row (mem_rows_created_of_mem hrow)⟩
      rcases getItem_cache_bulkGetRuleStatus store ruleIds groupId pair with
        ⟨hsame, -⟩ | ⟨row, hrow, hpair, hget, hmem⟩
      · exact hsame ▸ hcache
      · intro status hstatus
        obtain ⟨rfl, hmissing⟩ := hmem
        rw [(mem_missingRuleIds.mp hmissing).2] at hstatus
        cases hstatus
    · rintro ⟨hcache, hrows⟩
      have hcreated : ∀ row ∈ (store.created ruleIds groupId).rows, row.pair = pair →
          ∀ lastActive ∈ row.lastActive, lastActive ≤ time := by
        intro row hrow hpair
        rcases mem_rows_created hrow with hold | ⟨-, hnever, -⟩
        · exact hrows row hold hpair
        · simp [hnever]
      refine ⟨?_, hcreated⟩
      rcases getItem_cache_bulkGetRuleStatus store ruleIds groupId pair with
        ⟨hsame, -⟩ | ⟨row, hrow, hpair, hget, -⟩
      · exact hsame ▸ hcache
      · intro status hstatus
        rw [hget] at hstatus
        obtain rfl := Option.some_inj.mp hstatus
        exact hcreated row hrow hpair
  kept := by
    intro pair _
    rcases getItem_cache_bulkGetRuleStatus store ruleIds groupId pair with
      ⟨hsame, -⟩ | ⟨row, hrow, -, hget, hmem⟩
    · unfold Kept
      rw [hsame]
      refine forall_congr' fun status ↦ forall_congr' fun hstatus ↦ ⟨?_, ?_⟩
      · rintro ⟨row, hrow, hid⟩
        rcases mem_rows_created hrow with hold | ⟨hnew, -⟩
        · exact ⟨row, hold, hid⟩
        · exact absurd (h.cached_id_lt pair status hstatus) (hid ▸ not_lt.mpr hnew)
      · rintro ⟨row, hrow, hid⟩
        exact ⟨row, mem_rows_created_of_mem hrow, hid⟩
    · obtain ⟨rfl, hmissing⟩ := hmem
      refine iff_of_true ?_ ?_
      · intro status hstatus
        rw [hget] at hstatus
        exact ⟨row, hrow, congrArg StatusRow.id (Option.some_inj.mp hstatus)⟩
      · intro status hstatus
        rw [(mem_missingRuleIds.mp hmissing).2] at hstatus
        cases hstatus

theorem getItem_filterMap_cache (hmem : ruleId ∈ ruleIds) :
    getItem (ruleIds.filterMap fun ruleId ↦
      (getItem store.cache (ruleId, groupId)).map fun status ↦ (ruleId, status)) ruleId =
      getItem store.cache (ruleId, groupId) := by
  induction ruleIds with
  | nil => simp at hmem
  | cons first rest ih =>
    by_cases hfirst : first = ruleId
    · subst hfirst
      cases hget : getItem store.cache (first, groupId) with
      | none =>
        rw [filterMap_cons_none (by rw [hget]; rfl)]
        by_cases hrest : first ∈ rest
        · rw [ih hrest, hget]
        · refine getItem_of_notMem fun hkey ↦ hrest ?_
          obtain ⟨item, hitem, rfl⟩ := mem_map.mp hkey
          obtain ⟨ruleId, hruleId, hsome⟩ := mem_filterMap.mp hitem
          obtain ⟨status, -, rfl⟩ := Option.map_eq_some_iff.mp hsome
          exact hruleId
      | some status =>
        rw [filterMap_cons_some (by rw [hget]; rfl), getItem_cons, if_pos rfl]
    · have hrest := ih ((mem_cons.mp hmem).resolve_left (Ne.symm hfirst))
      cases hget : getItem store.cache (first, groupId) with
      | none => rw [filterMap_cons_none (by rw [hget]; rfl), hrest]
      | some status =>
        rw [filterMap_cons_some (by rw [hget]; rfl), getItem_cons, if_neg hfirst, hrest]

variable (ruleIds groupId) in
theorem exists_getItem_bulkGetRuleStatus (h : store.Valid) (hmem : ruleId ∈ ruleIds) :
    ∃ status, getItem (store.bulkGetRuleStatus ruleIds groupId).1 ruleId = some status ∧
      getItem (store.bulkGetRuleStatus ruleIds groupId).2.cache (ruleId, groupId) =
        some status := by
  rcases getItem_cache_bulkGetRuleStatus store ruleIds groupId (ruleId, groupId) with
    ⟨hsame, hcached⟩ | ⟨row, hrow, hpair, hget, -, hmissing⟩
  · have hnot : ruleId ∉ store.missingRuleIds ruleIds groupId := fun hmissing ↦
      hcached ⟨rfl, hmissing⟩
    obtain ⟨status, hstatus⟩ : ∃ status, getItem store.cache (ruleId, groupId) = some status :=
      Option.ne_none_iff_exists'.mp fun hnone ↦ hnot (mem_missingRuleIds.mpr ⟨hmem, hnone⟩)
    refine ⟨status, ?_, hsame.trans hstatus⟩
    refine (getItem_updateItems_of_notMem ?_ _).trans ((getItem_filterMap_cache hmem).trans hstatus)
    intro hkey
    obtain ⟨item, hitem, rfl⟩ := mem_map.mp hkey
    obtain ⟨row, hrow, rfl⟩ := mem_map.mp hitem
    exact hnot (of_mem_toCache hrow).2.2
  · refine ⟨row, ?_, hget⟩
    obtain ⟨row', hrow', hpair'⟩ := exists_mem_toCache hmissing
    have hkey : ruleId ∈ ((store.toCache ruleIds groupId).map fun status ↦
        (status.ruleId, status)).map Prod.fst :=
      mem_map.mpr ⟨_, mem_map.mpr ⟨row', hrow', rfl⟩, congrArg Prod.fst hpair'⟩
    obtain ⟨status, hitem, hstatus⟩ := exists_getItem_updateItems hkey _
    obtain ⟨row'', hrow'', heq⟩ := mem_map.mp hitem
    obtain ⟨hrule, rfl⟩ := Prod.mk.inj heq
    obtain ⟨hcreated, hgroup, -⟩ := of_mem_toCache hrow''
    rw [← h.created.eq_of_pair hcreated hrow ((Prod.ext hrule hgroup).trans hpair.symm)]
    exact hstatus

end Read

section Update

variable {store} {pair : ℕ × ℕ} {status : StatusRow} {id : ℕ} {freqOffset now : ℚ}

theorem rows_updateLastActive : (store.updateLastActive id freqOffset now).2.rows =
      store.rows.map fun row ↦
        if Selects id freqOffset row then { row with lastActive := some now } else row := rfl

theorem map_id_updateLastActive :
    (store.updateLastActive id freqOffset now).2.rows.map StatusRow.id =
      store.rows.map StatusRow.id := by
  rw [rows_updateLastActive, map_map]
  refine map_congr_left fun row _ ↦ ?_
  by_cases hrow : Selects id freqOffset row <;> simp [hrow]

theorem map_pair_updateLastActive :
    (store.updateLastActive id freqOffset now).2.rows.map StatusRow.pair =
      store.rows.map StatusRow.pair := by
  rw [rows_updateLastActive, map_map]
  refine map_congr_left fun row _ ↦ ?_
  by_cases hrow : Selects id freqOffset row <;> simp [hrow, StatusRow.pair]

theorem exists_of_mem_updateLastActive {row : StatusRow}
    (h : row ∈ (store.updateLastActive id freqOffset now).2.rows) :
    ∃ old ∈ store.rows, row.id = old.id ∧ row.pair = old.pair ∧
      (row = old ∨ Selects id freqOffset old) := by
  obtain ⟨old, hold, rfl⟩ := mem_map.mp h
  refine ⟨old, hold, ?_⟩
  by_cases hrow : Selects id freqOffset old <;> simp [hrow, StatusRow.pair]

theorem Valid.updateLastActive (h : store.Valid) :
    (store.updateLastActive id freqOffset now).2.Valid where
  nodup_ids := by
    rw [map_id_updateLastActive]
    exact h.nodup_ids
  nodup_pairs := by
    rw [map_pair_updateLastActive]
    exact h.nodup_pairs
  id_lt := by
    intro row hrow
    obtain ⟨old, hold, hid, -⟩ := exists_of_mem_updateLastActive hrow
    exact hid ▸ h.id_lt old hold
  cached_id_lt := h.cached_id_lt
  cached := by
    intro pair status hstatus row hrow hid
    obtain ⟨old, hold, hsame, hpair, -⟩ := exists_of_mem_updateLastActive hrow
    exact hpair.trans (h.cached pair status hstatus old hold (hsame.symm.trans hid))

theorem updateLastActive_ne_zero (h : store.Valid) (hstatus : status ∈ getItem store.cache pair)
    (hlast : ∀ lastActive ∈ status.lastActive, lastActive ≤ freqOffset) :
    (store.updateLastActive status.id freqOffset now).1 ≠ 0 ↔
      store.LastActiveBy pair freqOffset ∧ store.Kept pair := by
  show store.rows.countP _ ≠ 0 ↔ _
  rw [← Nat.pos_iff_ne_zero, countP_pos_iff]
  constructor
  · rintro ⟨row, hrow, hselects⟩
    obtain ⟨hid, hrowLast⟩ := of_decide_eq_true hselects
    have hpair := h.cached pair status hstatus row hrow hid
    refine ⟨⟨?_, ?_⟩, ?_⟩
    · intro status' hstatus'
      rw [Option.mem_unique hstatus' hstatus]
      exact hlast
    · intro row' hrow' hpair'
      rw [h.eq_of_pair hrow' hrow (hpair'.trans hpair.symm)]
      exact hrowLast
    · intro status' hstatus'
      rw [Option.mem_unique hstatus' hstatus]
      exact ⟨row, hrow, hid⟩
  · rintro ⟨⟨-, hrows⟩, hkept⟩
    obtain ⟨row, hrow, hid⟩ := hkept status hstatus
    exact ⟨row, hrow, decide_eq_true
      ⟨hid, hrows row hrow (h.cached pair status hstatus row hrow hid)⟩⟩

theorem sameExcept_updateLastActive (h : store.Valid)
    (hstatus : status ∈ getItem store.cache pair) :
    SameExcept (fun other ↦ other = pair) store
      (store.updateLastActive status.id freqOffset now).2 where
  lastActiveBy := by
    intro other hother time
    refine and_congr_right fun _ ↦ ⟨?_, ?_⟩
    · intro hrows row hrow hpair
      refine hrows row ?_ hpair
      refine mem_map.mpr ⟨row, hrow, if_neg fun hselects ↦ hother ?_⟩
      rw [← hpair]
      exact h.cached pair status hstatus row hrow hselects.1
    · intro hrows row hrow hpair
      obtain ⟨old, hold, -, hsame, heq | hselects⟩ := exists_of_mem_updateLastActive hrow
      · exact heq ▸ hrows old hold (hsame.symm.trans hpair)
      · refine absurd ?_ hother
        rw [← hpair, hsame]
        exact h.cached pair status hstatus old hold hselects.1
  kept := by
    intro other _
    refine forall_congr' fun status' ↦ forall_congr' fun _ ↦ ?_
    have hmem : ∀ s : StatusStore, (∃ row ∈ s.rows, row.id = status'.id) ↔
        status'.id ∈ s.rows.map StatusRow.id := fun s ↦ mem_map.symm
    rw [hmem, hmem, map_id_updateLastActive]

end Update

end StatusStore

end Sentry.Rules
