import Sentry.SentryMetrics.StringIndexer
import Sentry.SentryMetrics.MappingMeta
import Mathlib.Data.List.Perm.Subperm

/-!
# What `bulk_record` returns

The partial results of the four layers are described by the id they give for each key (`Answers`):
the cache and the two reads give ids of the table (`answers_dbRecords`), the limiter `None`. No two
of them answer the same key, so the precedence of `merge` does not matter (`Answers.merge`), and
together they answer every key (`bulkRecord_complete`).
-/

namespace Sentry.SentryMetrics

open Library List

/-! ### Rows -/

namespace IndexerTable

variable {table : IndexerTable}

theorem idOf_pos {key : RowKey} {id : ℤ} (h : table.idOf key = some id) : 0 < id :=
  (table.id_bounds _ (mem_of_getItem h)).1

theorem idOf_insert_of_some {key : RowKey} {id : ℤ}
    (h : table.idOf key = some id) (new : RowKey) : (table.insert new).idOf key = some id := by
  unfold insert
  split
  · exact h
  · rw [idOf, getItem_append, show getItem table.rows key = some id from h, Option.some_or]

theorem isSome_idOf_insert_self (table : IndexerTable) (key : RowKey) :
    ((table.insert key).idOf key).isSome := by
  unfold insert
  split
  · next h =>
    obtain ⟨row, hrow, rfl⟩ := mem_map.mp h
    have hid : table.idOf row.1 = some row.2 := (getItem_eq_some_iff table.nodup_keys).mpr hrow
    exact Option.isSome_iff_exists.mpr ⟨row.2, hid⟩
  · rw [idOf, getItem_append]
    cases getItem table.rows key with
    | none => simp [getItem_cons]
    | some id => rfl

theorem idOf_insertAll_of_some {key : RowKey} {id : ℤ} (h : table.idOf key = some id)
    (keys : List RowKey) : (table.insertAll keys).idOf key = some id := by
  induction keys generalizing table with
  | nil => exact h
  | cons new rest ih => exact ih (idOf_insert_of_some h new)

theorem isSome_idOf_insertAll_of_mem {key : RowKey} {keys : List RowKey} (h : key ∈ keys)
    (table : IndexerTable) : ((table.insertAll keys).idOf key).isSome := by
  induction keys generalizing table with
  | nil => simp at h
  | cons new rest ih =>
    rcases mem_cons.mp h with rfl | h
    · obtain ⟨id, hid⟩ := Option.isSome_iff_exists.mp (table.isSome_idOf_insert_self key)
      exact Option.isSome_iff_exists.mpr ⟨id, idOf_insertAll_of_some hid rest⟩
    · exact ih h _

end IndexerTable

variable {key : IndexerKey}

theorem keyOfRow_rowKey {metricPathKey : UseCaseKey} (h : metricPathMapping key.1 = metricPathKey) :
    keyOfRow metricPathKey (rowKey metricPathKey key) = key := by
  obtain ⟨useCaseId, orgId, string⟩ := key
  subst h
  cases useCaseId <;> rfl

/-! ### Collections -/

namespace UseCaseKeyCollection

variable {keys : UseCaseKeyCollection}

theorem mem_asTuples {key : IndexerKey} :
    key ∈ keys.asTuples ↔
      ∃ strings, ((key.1, key.2.1), strings) ∈ keys.mapping ∧ key.2.2 ∈ strings := by
  unfold asTuples
  rw [mem_flatMap]
  constructor
  · rintro ⟨⟨⟨useCaseId, orgId⟩, strings⟩, hentry, hkey⟩
    obtain ⟨string, hstring, rfl⟩ := mem_map.mp hkey
    exact ⟨strings, hentry, hstring⟩
  · rintro ⟨strings, hentry, hstring⟩
    exact ⟨_, hentry, mem_map.mpr ⟨key.2.2, hstring, rfl⟩⟩

theorem size_eq (keys : UseCaseKeyCollection) : keys.size = keys.asTuples.length := by
  simp [size, asTuples, length_flatMap]

theorem mem_filterStrings {p : IndexerKey → Bool} {key : IndexerKey} :
    key ∈ (keys.filterStrings p).asTuples ↔ key ∈ keys.asTuples ∧ p key := by
  obtain ⟨useCaseId, orgId, string⟩ := key
  simp only [mem_asTuples, filterStrings, mem_filter, mem_map]
  constructor
  · rintro ⟨strings, ⟨⟨⟨org, original⟩, horiginal, heq⟩, -⟩, hstring⟩
    obtain ⟨rfl, rfl⟩ := Prod.mk.inj heq
    obtain ⟨hmem, hp⟩ := mem_filter.mp hstring
    exact ⟨⟨original, horiginal, hmem⟩, hp⟩
  · rintro ⟨⟨original, horiginal, hmem⟩, hp⟩
    have hstring : string ∈ original.filter fun s ↦ p (useCaseId, orgId, s) :=
      mem_filter.mpr ⟨hmem, hp⟩
    refine ⟨_, ⟨⟨_, horiginal, rfl⟩, ?_⟩, hstring⟩
    simpa using ne_nil_of_mem hstring

theorem eq_of_mapping_eq {keys keys' : UseCaseKeyCollection} (h : keys.mapping = keys'.mapping) :
    keys = keys' := by
  cases keys
  cases keys'
  subst h
  rfl

theorem ne_nil_of_mem_filterStrings {p : IndexerKey → Bool} :
    ∀ entry ∈ (keys.filterStrings p).mapping, entry.2 ≠ [] := by
  intro entry hentry
  simpa using (mem_filter.mp hentry).2

theorem filterStrings_congr {p q : IndexerKey → Bool}
    (h : ∀ key ∈ keys.asTuples, p key = q key) : keys.filterStrings p = keys.filterStrings q := by
  apply eq_of_mapping_eq
  unfold filterStrings
  dsimp only
  congr 1
  refine map_congr_left fun entry hentry ↦ ?_
  congr 1
  refine filter_congr fun string hstring ↦ ?_
  exact h _ (mem_asTuples.mpr ⟨entry.2, hentry, hstring⟩)

theorem filterStrings_filterStrings (keys : UseCaseKeyCollection) (p q : IndexerKey → Bool) :
    (keys.filterStrings p).filterStrings q = keys.filterStrings fun key ↦ p key && q key := by
  apply eq_of_mapping_eq
  unfold filterStrings
  dsimp only
  induction keys.mapping with
  | nil => rfl
  | cons entry rest ih =>
    obtain ⟨org, strings⟩ := entry
    have htwice :
        strings.filter (fun string ↦ p (org.1, org.2, string) && q (org.1, org.2, string)) =
        (strings.filter fun string ↦ p (org.1, org.2, string)).filter
          fun string ↦ q (org.1, org.2, string) := by
      rw [filter_filter]
      exact filter_congr fun string _ ↦ Bool.and_comm _ _
    by_cases hempty : (strings.filter fun string ↦ p (org.1, org.2, string)) = []
    · rw [hempty, filter_nil] at htwice
      simpa [hempty, htwice] using ih
    · have hkeep : (!(strings.filter fun string ↦ p (org.1, org.2, string)).isEmpty) = true := by
        simpa using hempty
      simp only [map_cons, filter_cons, htwice, hkeep, if_true, ih]

theorem nodup_asTuples (keys : UseCaseKeyCollection) : keys.asTuples.Nodup := by
  unfold asTuples
  rw [nodup_flatMap]
  constructor
  · intro entry hentry
    refine (keys.nodup_strings entry hentry).map fun a b heq ↦ ?_
    exact congrArg (fun key : IndexerKey ↦ key.2.2) heq
  · have horgs := keys.nodup_orgs
    rw [List.Nodup, pairwise_map] at horgs
    refine horgs.imp fun {a b} hne ↦ ?_
    rintro key ha hb
    obtain ⟨string, -, rfl⟩ := mem_map.mp ha
    obtain ⟨string', -, heq⟩ := mem_map.mp hb
    simp only [Prod.mk.injEq] at heq
    exact hne (Prod.ext heq.1.symm heq.2.1.symm)

end UseCaseKeyCollection

section

variable {limiter : WritesLimiter} {keys : UseCaseKeyCollection}

theorem mem_acceptedKeys :
    key ∈ (limiter.checkWriteLimits keys).acceptedKeys.asTuples ↔ ∃ strings,
      ((key.1, key.2.1), strings) ∈ keys.mapping ∧
        key.2.2 ∈ (limiter.limitStrings key.1 key.2.1 strings).2 := by
  obtain ⟨useCaseId, orgId, string⟩ := key
  simp only [UseCaseKeyCollection.mem_asTuples, WritesLimiter.checkWriteLimits, mem_map]
  constructor
  · rintro ⟨strings, ⟨⟨org, original⟩, horiginal, heq⟩, hstring⟩
    obtain ⟨rfl, rfl⟩ := Prod.mk.inj heq
    exact ⟨original, horiginal, hstring⟩
  · rintro ⟨original, horiginal, hstring⟩
    exact ⟨_, ⟨_, horiginal, rfl⟩, hstring⟩

theorem mem_droppedStrings :
    key ∈ (limiter.checkWriteLimits keys).droppedStrings.map Prod.fst ↔ ∃ strings,
      ((key.1, key.2.1), strings) ∈ keys.mapping ∧
        key.2.2 ∈ (limiter.limitStrings key.1 key.2.1 strings).1 := by
  obtain ⟨useCaseId, orgId, string⟩ := key
  simp only [WritesLimiter.checkWriteLimits, mem_map, mem_flatMap]
  constructor
  · rintro ⟨-, ⟨⟨⟨useCaseId', orgId'⟩, strings⟩, hentry, string', hstring, rfl⟩, heq⟩
    obtain ⟨rfl, rfl, rfl⟩ := heq
    exact ⟨strings, hentry, hstring⟩
  · rintro ⟨strings, hentry, hstring⟩
    exact ⟨_, ⟨_, hentry, string, hstring, rfl⟩, rfl⟩

theorem mem_acceptedKeys_iff :
    key ∈ (limiter.checkWriteLimits keys).acceptedKeys.asTuples ↔ key ∈ keys.asTuples ∧
      key ∉ (limiter.checkWriteLimits keys).droppedStrings.map Prod.fst := by
  rw [mem_acceptedKeys, mem_droppedStrings, UseCaseKeyCollection.mem_asTuples]
  constructor
  · rintro ⟨strings, hentry, hstring⟩
    refine ⟨⟨strings, hentry, (limiter.mem_limitStrings _ _ _ _).mp (.inr hstring)⟩, ?_⟩
    rintro ⟨strings', hentry', hdropped⟩
    obtain rfl : strings = strings' :=
      congrArg Prod.snd (inj_on_of_nodup_map keys.nodup_orgs hentry hentry' rfl)
    have hnodup := limiter.nodup_limitStrings key.1 key.2.1 (keys.nodup_strings _ hentry)
    exact (nodup_append.mp hnodup).2.2 _ hdropped _ hstring rfl
  · rintro ⟨⟨strings, hentry, hstring⟩, hdropped⟩
    refine ⟨strings, hentry, ?_⟩
    refine ((limiter.mem_limitStrings key.1 key.2.1 strings key.2.2).mpr hstring).resolve_left ?_
    exact fun hmem ↦ hdropped ⟨strings, hentry, hmem⟩

theorem mem_keys_of_dropped
    (h : key ∈ (limiter.checkWriteLimits keys).droppedStrings.map Prod.fst) :
    key ∈ keys.asTuples := by
  obtain ⟨strings, hentry, hstring⟩ := mem_droppedStrings.mp h
  exact UseCaseKeyCollection.mem_asTuples.mpr
    ⟨strings, hentry, (limiter.mem_limitStrings _ _ _ _).mp (.inl hstring)⟩

end

/-! ### Partial results -/

def UseCaseKeyResults.Answers (self : UseCaseKeyResults) (ids : IndexerKey → Option (Option ℤ)) :
    Prop :=
  ∀ key, getItem self.results key = ids key ∧ (getItem self.fetchMeta key).map Metadata.id = ids key

theorem answers_addUseCaseKeyResults {fetchType : FetchType}
    {added : List (IndexerKey × Option ℤ × Option Bool)} {ids : IndexerKey → Option (Option ℤ)}
    (hids : ∀ result ∈ added, ids result.1 = some result.2.1)
    (hall : ∀ key id, ids key = some id → key ∈ added.map Prod.fst) :
    (UseCaseKeyResults.empty.addUseCaseKeyResults fetchType added).Answers ids := by
  intro key
  by_cases hkey : key ∈ added.map Prod.fst
  · have hresults : key ∈ (added.map fun result ↦ (result.1, result.2.1)).map Prod.fst := by
      simpa using hkey
    have hmeta : key ∈ (added.map fun result ↦
        (result.1, (⟨result.2.1, fetchType, result.2.2⟩ : Metadata))).map Prod.fst := by
      simpa using hkey
    obtain ⟨id, hid, hget⟩ := exists_getItem_updateItems hresults []
    obtain ⟨metadata, hmetadata, hgetMeta⟩ := exists_getItem_updateItems hmeta []
    obtain ⟨result, hresult, heq⟩ := mem_map.mp hid
    obtain ⟨rfl, rfl⟩ := Prod.mk.inj heq
    obtain ⟨result', hresult', heq'⟩ := mem_map.mp hmetadata
    obtain ⟨hsame, rfl⟩ := Prod.mk.inj heq'
    have hid' := hids result' hresult'
    rw [hsame] at hid'
    refine ⟨hget.trans (hids result hresult).symm, ?_⟩
    rw [show getItem (UseCaseKeyResults.empty.addUseCaseKeyResults fetchType added).fetchMeta
      result.1 = _ from hgetMeta, Option.map_some, hid']
  · have hnone : ids key = none := by
      cases hid : ids key with
      | none => rfl
      | some id => exact absurd (hall key id hid) hkey
    rw [hnone]
    constructor
    · refine (getItem_updateItems_of_notMem ?_ _).trans (getItem_nil key)
      simpa using hkey
    · rw [Option.map_eq_none_iff]
      refine (getItem_updateItems_of_notMem ?_ _).trans (getItem_nil key)
      simpa using hkey

theorem UseCaseKeyResults.Answers.merge {self other : UseCaseKeyResults}
    {f g : IndexerKey → Option (Option ℤ)} (hself : self.Answers f) (hother : other.Answers g)
    (hdisjoint : ∀ key, f key = none ∨ g key = none) :
    (self.merge other).Answers fun key ↦ (f key).or (g key) := by
  intro key
  constructor
  · rw [UseCaseKeyResults.merge, getItem_updateItems self.nodup_results, (hself key).1,
      (hother key).1]
  · rw [UseCaseKeyResults.merge, getItem_updateItems other.nodup_fetchMeta, Option.map_or,
      (hself key).2, (hother key).2]
    rcases hdisjoint key with hnone | hnone
    · simp [hnone]
    · simp [hnone]

theorem UseCaseKeyResults.Answers.congr {self : UseCaseKeyResults}
    {f g : IndexerKey → Option (Option ℤ)} (h : self.Answers f) (hfg : ∀ key, f key = g key) :
    self.Answers g :=
  fun key ↦ hfg key ▸ h key

def idsFound (keys : UseCaseKeyCollection) (found : IndexerKey → Option ℤ) (key : IndexerKey) :
    Option (Option ℤ) :=
  if key ∈ keys.asTuples then (found key).map some else none

variable {found : IndexerKey → Option ℤ} {keys : UseCaseKeyCollection}

theorem idsFound_of_notMem (h : key ∉ keys.asTuples) : idsFound keys found key = none := if_neg h

theorem idsFound_eq_none (h : found key = none) : idsFound keys found key = none := by
  rw [idsFound, h, Option.map_none, ite_self]

theorem UseCaseKeyResults.Answers.getUnmapped_eq {self : UseCaseKeyResults}
    (h : self.Answers (idsFound keys found))
    (hpos : ∀ key ∈ keys.asTuples, ∀ id, found key = some id → 0 < id) :
    self.getUnmappedUseCaseKeys keys = keys.filterStrings fun key ↦ (found key).isNone := by
  refine UseCaseKeyCollection.filterStrings_congr fun key hkey ↦ ?_
  rw [(h key).1, idsFound, if_pos hkey]
  cases hid : found key with
  | none => rfl
  | some id =>
    have hpos := hpos key hkey id hid
    simp only [Option.map_some, Option.isNone_some, decide_eq_false_iff_not]
    omega

theorem notMem_of_size_eq_zero (h : keys.size = 0) (key : IndexerKey) : key ∉ keys.asTuples := by
  rw [UseCaseKeyCollection.size_eq, length_eq_zero_iff] at h
  rw [h]
  exact not_mem_nil

/-! ### The layers -/

section Layers

variable {metricPathKey : UseCaseKey} {keys : UseCaseKeyCollection}

theorem answers_dbRecords (hpath : ∀ key ∈ keys.asTuples, metricPathMapping key.1 = metricPathKey)
    (table : IndexerTable) (fetchType : FetchType) :
    (UseCaseKeyResults.empty.addUseCaseKeyResults fetchType
      (rowResults metricPathKey (getDbRecords metricPathKey table keys))).Answers
        (idsFound keys fun key ↦ table.idOf (rowKey metricPathKey key)) := by
  apply answers_addUseCaseKeyResults
  · intro result hresult
    obtain ⟨row, hrow, rfl⟩ := mem_map.mp hresult
    obtain ⟨hrow, hrequested⟩ := mem_filter.mp hrow
    obtain ⟨key, hkey, heq⟩ := mem_map.mp (of_decide_eq_true hrequested)
    have hid : table.idOf row.1 = some row.2 := (getItem_eq_some_iff table.nodup_keys).mpr hrow
    have hback : keyOfRow metricPathKey row.1 = key := heq ▸ keyOfRow_rowKey (hpath key hkey)
    simp only [hback]
    rw [idsFound, if_pos hkey, heq, hid, Option.map_some]
  · intro key id hid
    unfold idsFound at hid
    split_ifs at hid with hkey
    obtain ⟨rowId, hrowId, rfl⟩ := Option.map_eq_some_iff.mp hid
    have hrow : (rowKey metricPathKey key, rowId) ∈ getDbRecords metricPathKey table keys :=
      mem_filter.mpr ⟨mem_of_getItem hrowId, decide_eq_true (mem_map_of_mem hkey)⟩
    refine mem_map.mpr ⟨_, mem_map_of_mem hrow, ?_⟩
    exact keyOfRow_rowKey (hpath key hkey)

theorem answers_droppedStrings (state : RateLimitState) :
    (UseCaseKeyResults.empty.addUseCaseKeyResults .rateLimited (state.droppedStrings.map
      fun dropped ↦ (dropped.1, none, some dropped.2))).Answers fun key ↦
        if key ∈ state.droppedStrings.map Prod.fst then some none else none := by
  apply answers_addUseCaseKeyResults
  · intro result hresult
    obtain ⟨dropped, hdropped, rfl⟩ := mem_map.mp hresult
    exact if_pos (mem_map_of_mem hdropped)
  · intro key id hid
    split_ifs at hid with hkey
    simpa using hkey

theorem answers_cache {Hash : Type} [DecidableEq Hash] (options : CacheOptions Hash)
    (cache : StringIndexerCache Hash) (keys : UseCaseKeyCollection) :
    (UseCaseKeyResults.empty.addUseCaseKeyResults .cacheHit (keys.asTuples.filterMap fun key ↦
      (cache.get options key).map fun id ↦ (key, some id, none))).Answers
        (idsFound keys (cache.get options)) := by
  apply answers_addUseCaseKeyResults
  · intro result hresult
    obtain ⟨key, hkey, hget⟩ := mem_filterMap.mp hresult
    obtain ⟨id, hid, rfl⟩ := Option.map_eq_some_iff.mp hget
    simp [idsFound, hkey, hid]
  · intro key id hid
    unfold idsFound at hid
    split_ifs at hid with hkey
    obtain ⟨cached, hcached, rfl⟩ := Option.map_eq_some_iff.mp hid
    refine mem_map.mpr ⟨(key, some cached, none), ?_, rfl⟩
    exact mem_filterMap.mpr ⟨key, hkey, by rw [hcached, Option.map_some]⟩

theorem bulkCreateWithRetry_ok {maxRetryCount retryCount deadlocks : ℕ}
    (h : retryCount + deadlocks + 1 < maxRetryCount) (table : IndexerTable)
    (newRecords : List RowKey) :
    bulkCreateWithRetry maxRetryCount table newRecords retryCount deadlocks =
      .ok (table.insertAll newRecords) := by
  induction deadlocks generalizing retryCount with
  | zero =>
    unfold bulkCreateWithRetry
    rw [if_pos h]
  | succ deadlocks ih =>
    unfold bulkCreateWithRetry
    rw [if_pos (by omega)]
    exact ih (by omega)

theorem getMetricPathKey_eq (hpath : ∀ key ∈ keys.asTuples, metricPathMapping key.1 = metricPathKey)
    (hstrings : ∀ entry ∈ keys.mapping, entry.2 ≠ []) (hsize : keys.size ≠ 0) :
    getMetricPathKey keys = .ok metricPathKey := by
  have hentry : ∀ entry ∈ keys.mapping, metricPathMapping entry.1.1 = metricPathKey := by
    intro entry hentry
    obtain ⟨string, hstring⟩ := exists_mem_of_ne_nil _ (hstrings entry hentry)
    exact hpath (entry.1.1, entry.1.2, string)
      (UseCaseKeyCollection.mem_asTuples.mpr ⟨entry.2, hentry, hstring⟩)
  unfold getMetricPathKey
  cases hmapping : keys.mapping with
  | nil => simp [UseCaseKeyCollection.size, hmapping] at hsize
  | cons entry rest =>
    rw [hmapping] at hentry
    have hfirst := hentry entry mem_cons_self
    simp only [map_cons, hfirst]
    rw [if_pos]
    simp only [all_eq_true, mem_map, decide_eq_true_eq]
    rintro - ⟨other, hother, rfl⟩
    exact hentry other (mem_cons_of_mem _ hother)

def absentKeys (metricPathKey : UseCaseKey) (table : IndexerTable) (keys : UseCaseKeyCollection) :
    UseCaseKeyCollection :=
  keys.filterStrings fun key ↦ (table.idOf (rowKey metricPathKey key)).isNone

variable {key : IndexerKey}

theorem mem_absentKeys {table : IndexerTable} :
    key ∈ (absentKeys metricPathKey table keys).asTuples ↔
      key ∈ keys.asTuples ∧ table.idOf (rowKey metricPathKey key) = none := by
  rw [absentKeys, UseCaseKeyCollection.mem_filterStrings, Option.isNone_iff_eq_none]

def droppedKeys (limiter : WritesLimiter) (metricPathKey : UseCaseKey) (table : IndexerTable)
    (keys : UseCaseKeyCollection) : List IndexerKey :=
  (limiter.checkWriteLimits (absentKeys metricPathKey table keys)).droppedStrings.map Prod.fst

def recordedId (limiter : WritesLimiter) (metricPathKey : UseCaseKey) (keys : UseCaseKeyCollection)
    (tableRead table' : IndexerTable) (key : IndexerKey) : Option (Option ℤ) :=
  if key ∈ keys.asTuples then
    match tableRead.idOf (rowKey metricPathKey key) with
    | some id => some (some id)
    | none =>
      if key ∈ droppedKeys limiter metricPathKey tableRead keys then some none
      else (table'.idOf (rowKey metricPathKey key)).map some
  else none

def acceptedKeys (limiter : WritesLimiter) (metricPathKey : UseCaseKey) (table : IndexerTable)
    (keys : UseCaseKeyCollection) : UseCaseKeyCollection :=
  (limiter.checkWriteLimits (absentKeys metricPathKey table keys)).acceptedKeys

variable {limiter : WritesLimiter} {tableRead table' : IndexerTable}

theorem mem_keys_of_mem_droppedKeys (h : key ∈ droppedKeys limiter metricPathKey tableRead keys) :
    key ∈ keys.asTuples ∧ tableRead.idOf (rowKey metricPathKey key) = none :=
  mem_absentKeys.mp (mem_keys_of_dropped h)

theorem mem_acceptedKeys_iff_absent :
    key ∈ (acceptedKeys limiter metricPathKey tableRead keys).asTuples ↔
      (key ∈ keys.asTuples ∧ tableRead.idOf (rowKey metricPathKey key) = none) ∧
        key ∉ droppedKeys limiter metricPathKey tableRead keys := by
  rw [acceptedKeys, mem_acceptedKeys_iff, mem_absentKeys]
  rfl

theorem recordedId_eq_or (key : IndexerKey) :
    recordedId limiter metricPathKey keys tableRead table' key =
      ((idsFound keys (fun key ↦ tableRead.idOf (rowKey metricPathKey key)) key).or
        (idsFound (acceptedKeys limiter metricPathKey tableRead keys)
          (fun key ↦ table'.idOf (rowKey metricPathKey key)) key)).or
        (if key ∈ droppedKeys limiter metricPathKey tableRead keys then some none else none) := by
  have haccepted := @mem_acceptedKeys_iff_absent metricPathKey keys key limiter tableRead
  unfold recordedId
  by_cases hkey : key ∈ keys.asTuples
  · rw [if_pos hkey, idsFound, if_pos hkey]
    cases hid : tableRead.idOf (rowKey metricPathKey key) with
    | some id => rfl
    | none =>
      by_cases hdrop : key ∈ droppedKeys limiter metricPathKey tableRead keys
      · have hnot := fun h ↦ (haccepted.mp h).2 hdrop
        simp only [if_pos hdrop, idsFound_of_notMem hnot, Option.map_none, Option.none_or]
      · have hmem := haccepted.mpr ⟨⟨hkey, hid⟩, hdrop⟩
        simp only [if_neg hdrop, idsFound, if_pos hmem, Option.map_none, Option.none_or,
          Option.or_none]
  · have hnot := fun h ↦ hkey (haccepted.mp h).1.1
    have hdrop := fun h ↦
        hkey (@mem_keys_of_mem_droppedKeys metricPathKey keys key limiter tableRead h).1
    simp only [if_neg hkey, if_neg hdrop, idsFound_of_notMem hkey, idsFound_of_notMem hnot,
      Option.or_none]

/-- What recording leaves: the ids that were read are kept, every other key that is not dropped gets
one, and the results have the recorded ids. -/
structure Recorded (limiter : WritesLimiter) (metricPathKey : UseCaseKey)
    (keys : UseCaseKeyCollection)
    (tableRead table' : IndexerTable) (results : UseCaseKeyResults) : Prop where
  kept : ∀ key ∈ keys.asTuples, ∀ id, tableRead.idOf (rowKey metricPathKey key) = some id →
    table'.idOf (rowKey metricPathKey key) = some id
  created : ∀ key ∈ keys.asTuples, key ∉ droppedKeys limiter metricPathKey tableRead keys →
    (table'.idOf (rowKey metricPathKey key)).isSome
  answers : results.Answers (recordedId limiter metricPathKey keys tableRead table')

theorem recorded_of_accepted {results : UseCaseKeyResults}
    (hkept : ∀ key ∈ keys.asTuples, ∀ id, tableRead.idOf (rowKey metricPathKey key) = some id →
      table'.idOf (rowKey metricPathKey key) = some id)
    (haccepted : ∀ key ∈ (acceptedKeys limiter metricPathKey tableRead keys).asTuples,
      (table'.idOf (rowKey metricPathKey key)).isSome)
    (hanswers : results.Answers (recordedId limiter metricPathKey keys tableRead table')) :
    Recorded limiter metricPathKey keys tableRead table' results := by
  refine ⟨hkept, fun key hkey hnot ↦ ?_, hanswers⟩
  cases hid : tableRead.idOf (rowKey metricPathKey key) with
  | some id => exact Option.isSome_iff_exists.mpr ⟨id, hkept key hkey id hid⟩
  | none => exact haccepted key (mem_acceptedKeys_iff_absent.mpr ⟨⟨hkey, hid⟩, hnot⟩)

theorem getUnmapped_dbRecords
    (hpath : ∀ key ∈ keys.asTuples, metricPathMapping key.1 = metricPathKey)
    (table : IndexerTable) (fetchType : FetchType) :
    (UseCaseKeyResults.empty.addUseCaseKeyResults fetchType (rowResults metricPathKey
      (getDbRecords metricPathKey table keys))).getUnmappedUseCaseKeys keys =
        absentKeys metricPathKey table keys :=
  (answers_dbRecords hpath table fetchType).getUnmapped_eq fun _ _ _ hid ↦ IndexerTable.idOf_pos hid

theorem answers_read_dropped (limiter : WritesLimiter)
    (hpath : ∀ key ∈ keys.asTuples, metricPathMapping key.1 = metricPathKey)
    (tableRead : IndexerTable) :
    ((UseCaseKeyResults.empty.addUseCaseKeyResults .dbRead
      (rowResults metricPathKey (getDbRecords metricPathKey tableRead keys))).merge
        (UseCaseKeyResults.empty.addUseCaseKeyResults .rateLimited
          ((limiter.checkWriteLimits (absentKeys metricPathKey tableRead keys)).droppedStrings.map
            fun dropped ↦ (dropped.1, none, some dropped.2)))).Answers fun key ↦
      (idsFound keys (fun key ↦ tableRead.idOf (rowKey metricPathKey key)) key).or
        (if key ∈ droppedKeys limiter metricPathKey tableRead keys then some none else none) := by
  apply (answers_dbRecords hpath tableRead .dbRead).merge (answers_droppedStrings _)
  intro key
  by_cases hdrop : key ∈ droppedKeys limiter metricPathKey tableRead keys
  · exact .inl (idsFound_eq_none (mem_keys_of_mem_droppedKeys hdrop).2)
  · exact .inr (if_neg hdrop)

theorem answers_read_created_dropped (limiter : WritesLimiter)
    (hpath : ∀ key ∈ keys.asTuples, metricPathMapping key.1 = metricPathKey)
    (tableRead table' : IndexerTable) :
    (((UseCaseKeyResults.empty.addUseCaseKeyResults .dbRead
      (rowResults metricPathKey (getDbRecords metricPathKey tableRead keys))).merge
        (UseCaseKeyResults.empty.addUseCaseKeyResults .firstSeen
          (rowResults metricPathKey (getDbRecords metricPathKey table'
            (acceptedKeys limiter metricPathKey tableRead keys))))).merge
        (UseCaseKeyResults.empty.addUseCaseKeyResults .rateLimited
          ((limiter.checkWriteLimits (absentKeys metricPathKey tableRead keys)).droppedStrings.map
            fun dropped ↦ (dropped.1, none, some dropped.2)))).Answers
      (recordedId limiter metricPathKey keys tableRead table') := by
  have hpathAccepted : ∀ key ∈ (acceptedKeys limiter metricPathKey tableRead keys).asTuples,
      metricPathMapping key.1 = metricPathKey :=
    fun key hkey ↦ hpath key (mem_acceptedKeys_iff_absent.mp hkey).1.1
  have hreread := answers_dbRecords hpathAccepted table' .firstSeen
  have hfound := (answers_dbRecords hpath tableRead .dbRead).merge hreread fun key ↦ by
    by_cases hkey : key ∈ (acceptedKeys limiter metricPathKey tableRead keys).asTuples
    · exact .inl (idsFound_eq_none (mem_acceptedKeys_iff_absent.mp hkey).1.2)
    · exact .inr (idsFound_of_notMem hkey)
  refine (hfound.merge (answers_droppedStrings _) fun key ↦ ?_).congr
    fun key ↦ (recordedId_eq_or key).symm
  by_cases hdrop : key ∈ droppedKeys limiter metricPathKey tableRead keys
  · have hnot : key ∉ (acceptedKeys limiter metricPathKey tableRead keys).asTuples :=
      fun h ↦ (mem_acceptedKeys_iff_absent.mp h).2 hdrop
    left
    rw [idsFound_of_notMem hnot, Option.or_none]
    exact idsFound_eq_none (mem_keys_of_mem_droppedKeys hdrop).2
  · exact .inr (if_neg hdrop)

/-- `PGStringIndexerV2.bulk_record` gives each key its recorded id. -/
theorem pgBulkRecord_ok (limiter : WritesLimiter) {maxRetryCount : ℕ} {others : OtherIndexers}
    (tables : UseCaseKey → IndexerTable)
    (hpath : ∀ key ∈ keys.asTuples, metricPathMapping key.1 = metricPathKey)
    (hstrings : ∀ entry ∈ keys.mapping, entry.2 ≠ []) (hsize : keys.size ≠ 0)
    (hdeadlocks : others.deadlocks + 1 < maxRetryCount) :
    ∃ results table', pgBulkRecord limiter maxRetryCount others tables keys =
        .ok (results, Function.update tables metricPathKey table') ∧
      (∀ row id, ((tables metricPathKey).insertAll others.beforeRead).idOf row = some id →
        table'.idOf row = some id) ∧
      Recorded limiter metricPathKey keys
        ((tables metricPathKey).insertAll others.beforeRead) table'
        results := by
  set tableRead := (tables metricPathKey).insertAll others.beforeRead with htableRead
  unfold pgBulkRecord
  simp only [getMetricPathKey_eq hpath hstrings hsize, ← htableRead, getUnmapped_dbRecords hpath]
  by_cases hwrite : (absentKeys metricPathKey tableRead keys).size = 0
  · -- Every key was found.
    have hempty := notMem_of_size_eq_zero hwrite
    have hnot : ∀ key, key ∉ (acceptedKeys limiter metricPathKey tableRead keys).asTuples :=
      fun key h ↦ hempty key (mem_absentKeys.mpr (mem_acceptedKeys_iff_absent.mp h).1)
    have hdrop : ∀ key, key ∉ droppedKeys limiter metricPathKey tableRead keys :=
      fun key h ↦ hempty key (mem_absentKeys.mpr (mem_keys_of_mem_droppedKeys h))
    refine ⟨_, tableRead, by rw [if_pos hwrite], fun row id h ↦ h, recorded_of_accepted
      (fun key _ id h ↦ h) (fun key h ↦ absurd h (hnot key)) ?_⟩
    refine (answers_dbRecords hpath tableRead .dbRead).congr fun key ↦ ?_
    rw [recordedId_eq_or, idsFound_of_notMem (hnot key), if_neg (hdrop key), Option.or_none,
      Option.or_none]
  rw [if_neg hwrite]
  by_cases haccepted : (acceptedKeys limiter metricPathKey tableRead keys).size = 0
  · -- Every key that was not found was dropped.
    have hnot := notMem_of_size_eq_zero haccepted
    rw [acceptedKeys] at haccepted
    refine ⟨_, tableRead, by rw [if_pos haccepted], fun row id h ↦ h, recorded_of_accepted
      (fun key _ id h ↦ h) (fun key h ↦ absurd h (hnot key)) ?_⟩
    refine (answers_read_dropped limiter hpath tableRead).congr fun key ↦ ?_
    rw [recordedId_eq_or, idsFound_of_notMem (hnot key), Option.or_none]
  · -- The accepted keys are inserted, and read back.
    have hanswers := answers_read_created_dropped limiter hpath tableRead
      (((tableRead.insertAll others.beforeCreate).insertAll
        ((acceptedKeys limiter metricPathKey tableRead keys).asTuples.map
          (rowKey metricPathKey))).insertAll others.beforeReread)
    have hstable : ∀ row id, tableRead.idOf row = some id →
        (((tableRead.insertAll others.beforeCreate).insertAll
          ((acceptedKeys limiter metricPathKey tableRead keys).asTuples.map
            (rowKey metricPathKey))).insertAll others.beforeReread).idOf row = some id :=
      fun row id h ↦ IndexerTable.idOf_insertAll_of_some (IndexerTable.idOf_insertAll_of_some
        (IndexerTable.idOf_insertAll_of_some h _) _) _
    rw [acceptedKeys] at haccepted
    rw [if_neg haccepted, bulkCreateWithRetry_ok (by omega)]
    refine ⟨_, _, rfl, hstable, recorded_of_accepted (fun key _ id h ↦ hstable _ id h) ?_ hanswers⟩
    intro key hkey
    obtain ⟨id, hid⟩ := Option.isSome_iff_exists.mp (IndexerTable.isSome_idOf_insertAll_of_mem
      (mem_map_of_mem hkey) (tableRead.insertAll others.beforeCreate))
    exact Option.isSome_iff_exists.mpr ⟨id, IndexerTable.idOf_insertAll_of_some hid _⟩

end Layers

/-! ### The caching indexer -/

section Caching

variable {Hash : Type} [DecidableEq Hash] {options : CacheOptions Hash} {limiter : WritesLimiter}
  {maxRetryCount : ℕ} {others : OtherIndexers} {cache : StringIndexerCache Hash}
  {tables : UseCaseKey → IndexerTable} {keys : UseCaseKeyCollection} {metricPathKey : UseCaseKey}

/-- What the cache has for some keys is what the table has. -/
def CacheConsistent (options : CacheOptions Hash) (cache : StringIndexerCache Hash)
    (metricPathKey : UseCaseKey) (table : IndexerTable) (keys : UseCaseKeyCollection) : Prop :=
  ∀ key ∈ keys.asTuples, ∀ id, cache.get options key = some id →
    table.idOf (rowKey metricPathKey key) = some id

def missedKeys (options : CacheOptions Hash) (cache : StringIndexerCache Hash)
    (keys : UseCaseKeyCollection) : UseCaseKeyCollection :=
  keys.filterStrings fun key ↦ (cache.get options key).isNone

theorem mem_missedKeys {key : IndexerKey} :
    key ∈ (missedKeys options cache keys).asTuples ↔
      key ∈ keys.asTuples ∧ cache.get options key = none := by
  rw [missedKeys, UseCaseKeyCollection.mem_filterStrings, Option.isNone_iff_eq_none]

theorem getUnmapped_cache
    (hcache : CacheConsistent options cache metricPathKey (tables metricPathKey) keys) :
    (UseCaseKeyResults.empty.addUseCaseKeyResults .cacheHit (keys.asTuples.filterMap fun key ↦
      (cache.get options key).map fun id ↦ (key, some id, none))).getUnmappedUseCaseKeys keys =
        missedKeys options cache keys :=
  (answers_cache options cache keys).getUnmapped_eq
    fun key hkey id hid ↦ IndexerTable.idOf_pos (hcache key hkey id hid)

theorem CacheConsistent.read
    (hcache : CacheConsistent options cache metricPathKey (tables metricPathKey) keys)
    (beforeRead : List RowKey) :
    CacheConsistent options cache metricPathKey
      ((tables metricPathKey).insertAll beforeRead) keys :=
  fun key hkey id hid ↦ IndexerTable.idOf_insertAll_of_some (hcache key hkey id hid) beforeRead

variable {tableRead table' : IndexerTable}

theorem absentKeys_missedKeys (hcache : CacheConsistent options cache metricPathKey tableRead keys)
    :
    absentKeys metricPathKey tableRead (missedKeys options cache keys) =
      absentKeys metricPathKey tableRead keys := by
  unfold absentKeys missedKeys
  rw [UseCaseKeyCollection.filterStrings_filterStrings]
  refine UseCaseKeyCollection.filterStrings_congr fun key hkey ↦ ?_
  cases hid : cache.get options key with
  | none => simp
  | some id => simp [hcache key hkey id hid]

theorem droppedKeys_missedKeys (limiter : WritesLimiter)
    (hcache : CacheConsistent options cache metricPathKey tableRead keys) :
    droppedKeys limiter metricPathKey tableRead (missedKeys options cache keys) =
      droppedKeys limiter metricPathKey tableRead keys := by
  rw [droppedKeys, droppedKeys, absentKeys_missedKeys hcache]

theorem recordedId_eq_cached_or (limiter : WritesLimiter)
    (hcache : CacheConsistent options cache metricPathKey tableRead keys) (key : IndexerKey) :
    recordedId limiter metricPathKey keys tableRead table' key =
      (idsFound keys (cache.get options) key).or
        (recordedId limiter metricPathKey
          (missedKeys options cache keys) tableRead table' key) := by
  unfold recordedId
  rw [droppedKeys_missedKeys limiter hcache]
  by_cases hkey : key ∈ keys.asTuples
  · rw [if_pos hkey, idsFound, if_pos hkey]
    cases hid : cache.get options key with
    | some id =>
      rw [hcache key hkey id hid]
      rfl
    | none => rw [if_pos (mem_missedKeys.mpr ⟨hkey, hid⟩), Option.map_none, Option.none_or]
  · rw [if_neg hkey, idsFound_of_notMem hkey, if_neg fun h ↦ hkey (mem_missedKeys.mp h).1,
      Option.or_none]

theorem recorded_of_cached (limiter : WritesLimiter) (beforeRead : List RowKey)
    (hcache : CacheConsistent options cache metricPathKey (tables metricPathKey) keys)
    (hsize : (missedKeys options cache keys).size = 0) :
    Recorded limiter metricPathKey keys ((tables metricPathKey).insertAll beforeRead)
      (tables metricPathKey) (UseCaseKeyResults.empty.addUseCaseKeyResults .cacheHit
        (keys.asTuples.filterMap fun key ↦
          (cache.get options key).map fun id ↦ (key, some id, none))) := by
  have hmissed := notMem_of_size_eq_zero hsize
  have hhit : ∀ key ∈ keys.asTuples, ∃ id, cache.get options key = some id := by
    intro key hkey
    rw [← Option.ne_none_iff_exists']
    exact fun hnone ↦ hmissed key (mem_missedKeys.mpr ⟨hkey, hnone⟩)
  refine ⟨fun key hkey id hid ↦ ?_, fun key hkey _ ↦ ?_, ?_⟩
  · obtain ⟨id', hid'⟩ := hhit key hkey
    have hread := hcache.read beforeRead key hkey id' hid'
    rw [hid] at hread
    rw [hread]
    exact hcache key hkey id' hid'
  · obtain ⟨id, hid⟩ := hhit key hkey
    rw [hcache key hkey id hid]
    rfl
  · refine (answers_cache options cache keys).congr fun key ↦ ?_
    rw [recordedId_eq_cached_or limiter (hcache.read beforeRead), recordedId, if_neg (hmissed key),
      Option.or_none]

theorem Recorded.merge_cached {results : UseCaseKeyResults}
    (hcache : CacheConsistent options cache metricPathKey tableRead keys)
    (hstable : ∀ row id, tableRead.idOf row = some id → table'.idOf row = some id)
    (h : Recorded limiter metricPathKey (missedKeys options cache keys) tableRead table' results) :
    Recorded limiter metricPathKey keys tableRead table'
      ((UseCaseKeyResults.empty.addUseCaseKeyResults .cacheHit (keys.asTuples.filterMap fun key ↦
        (cache.get options key).map fun id ↦ (key, some id, none))).merge results) := by
  refine ⟨fun key _ id hid ↦ hstable _ id hid, fun key hkey hnot ↦ ?_, ?_⟩
  · cases hid : cache.get options key with
    | some id =>
      exact Option.isSome_iff_exists.mpr ⟨id, hstable _ id (hcache key hkey id hid)⟩
    | none =>
      rw [← droppedKeys_missedKeys limiter hcache] at hnot
      exact h.created key (mem_missedKeys.mpr ⟨hkey, hid⟩) hnot
  · refine ((answers_cache options cache keys).merge h.answers fun key ↦ ?_).congr
      fun key ↦ (recordedId_eq_cached_or limiter hcache key).symm
    by_cases hkey : key ∈ (missedKeys options cache keys).asTuples
    · exact .inl (idsFound_eq_none (mem_missedKeys.mp hkey).2)
    · exact .inr (if_neg hkey)

/-- `CachingIndexer.bulk_record` gives each key its recorded id. -/
theorem bulkRecord_ok (limiter : WritesLimiter)
    (hpath : ∀ key ∈ keys.asTuples, metricPathMapping key.1 = metricPathKey)
    (hcache : CacheConsistent options cache metricPathKey (tables metricPathKey) keys)
    (hdeadlocks : others.deadlocks + 1 < maxRetryCount) :
    ∃ results table' cache', bulkRecord options limiter maxRetryCount others cache tables keys =
        .ok (results, Function.update tables metricPathKey table', cache') ∧
      (∀ row id, (tables metricPathKey).idOf row = some id → table'.idOf row = some id) ∧
      Recorded limiter metricPathKey keys
        ((tables metricPathKey).insertAll others.beforeRead) table'
        results := by
  unfold bulkRecord
  simp only [getUnmapped_cache hcache]
  by_cases hsize : (missedKeys options cache keys).size = 0
  · -- Every key was in the cache.
    rw [if_pos hsize]
    refine ⟨_, tables metricPathKey, cache, ?_, fun row id h ↦ h,
      recorded_of_cached limiter others.beforeRead hcache hsize⟩
    rw [Function.update_eq_self]
  · have hpathMissed : ∀ key ∈ (missedKeys options cache keys).asTuples,
        metricPathMapping key.1 = metricPathKey :=
      fun key hkey ↦ hpath key (mem_missedKeys.mp hkey).1
    obtain ⟨results, table', hok, hstable, hrecorded⟩ := pgBulkRecord_ok limiter tables hpathMissed
      UseCaseKeyCollection.ne_nil_of_mem_filterStrings hsize hdeadlocks
    rw [if_neg hsize, hok]
    refine ⟨_, table', _, rfl, fun row id h ↦ ?_,
      hrecorded.merge_cached (hcache.read others.beforeRead) hstable⟩
    exact hstable row id (IndexerTable.idOf_insertAll_of_some h _)

theorem length_accepted_le (limiter : WritesLimiter) (metricPathKey : UseCaseKey)
    (tableRead : IndexerTable) (keys : UseCaseKeyCollection) {useCaseId : UseCaseID} {orgId : OrgId}
    (hquotas : limiter.hasQuotas useCaseId) {accepted : List IndexerKey} (hnodup : accepted.Nodup)
    (haccepted : ∀ key ∈ accepted, key.1 = useCaseId ∧ key.2.1 = orgId ∧ key ∈ keys.asTuples ∧
      tableRead.idOf (rowKey metricPathKey key) = none ∧
        key ∉ droppedKeys limiter metricPathKey tableRead keys) :
    accepted.length ≤ (limiter.grants useCaseId orgId).granted := by
  cases haccepted' : accepted with
  | nil => exact Nat.zero_le _
  | cons first rest =>
    rw [← haccepted']
    have hlimited : ∀ key ∈ accepted, ∃ strings,
        ((useCaseId, orgId), strings) ∈ (absentKeys metricPathKey tableRead keys).mapping ∧
          key.2.2 ∈ (limiter.limitStrings useCaseId orgId strings).2 := by
      intro key hkey
      obtain ⟨rfl, rfl, hmem, hnone, hnot⟩ := haccepted key hkey
      exact mem_acceptedKeys.mp (mem_acceptedKeys_iff.mpr ⟨mem_absentKeys.mpr ⟨hmem, hnone⟩, hnot⟩)
    obtain ⟨strings, hstrings, -⟩ := hlimited first (by simp [haccepted'])
    have hsubset : ∀ string ∈ accepted.map fun key ↦ key.2.2,
        string ∈ (limiter.limitStrings useCaseId orgId strings).2 := by
      intro string hstring
      obtain ⟨key, hkey, rfl⟩ := mem_map.mp hstring
      obtain ⟨strings', hstrings', hmem⟩ := hlimited key hkey
      obtain rfl : strings = strings' := congrArg Prod.snd
        (inj_on_of_nodup_map (absentKeys metricPathKey tableRead keys).nodup_orgs hstrings
          hstrings' rfl)
      exact hmem
    have hnodupStrings : (accepted.map fun key ↦ key.2.2).Nodup := by
      refine List.Nodup.map_on (fun a ha b hb heq ↦ ?_) hnodup
      obtain ⟨ha₁, ha₂, -⟩ := haccepted a ha
      obtain ⟨hb₁, hb₂, -⟩ := haccepted b hb
      exact Prod.ext (ha₁.trans hb₁.symm) (Prod.ext (ha₂.trans hb₂.symm) heq)
    have hlength := (subperm_of_subset hnodupStrings hsubset).length_le
    rw [length_map] at hlength
    exact hlength.trans (limiter.length_limitStrings_le hquotas orgId strings)

/-- What the caller of `bulk_record` relies on, with the table as it was before, as it was read, and
as it was left. -/
structure RecordsCompletely (limiter : WritesLimiter) (metricPathKey : UseCaseKey)
    (keys : UseCaseKeyCollection) (table tableRead table' : IndexerTable)
    (result : UseCaseKeyResults) : Prop where
  mapped : ∀ key ∈ keys.asTuples,
    (∃ id, getItem result.results key = some (some id) ∧
      table'.idOf (rowKey metricPathKey key) = some id) ∨ getItem result.results key = some none
  none_iff : ∀ key ∈ keys.asTuples, getItem result.results key = some none ↔
    tableRead.idOf (rowKey metricPathKey key) = none ∧
      key ∈ droppedKeys limiter metricPathKey tableRead keys
  accepted_le : ∀ useCaseId orgId, limiter.hasQuotas useCaseId →
    (keys.asTuples.filter fun key ↦ key.1 = useCaseId ∧ key.2.1 = orgId ∧
      tableRead.idOf (rowKey metricPathKey key) = none ∧
        getItem result.results key ≠ some none).length ≤ (limiter.grants useCaseId orgId).granted
  stable : ∀ row id, table.idOf row = some id → table'.idOf row = some id
  only_requested : ∀ key, getItem result.results key ≠ none → key ∈ keys.asTuples
  agree : ∀ key, (getItem result.fetchMeta key).map Metadata.id = getItem result.results key

/-- `bulk_record` is complete and stable, whatever the other indexers insert meanwhile, as long as
its own insertion gets through before the retries run out. -/
theorem bulkRecord_complete (hpath : ∀ key ∈ keys.asTuples, metricPathMapping key.1 = metricPathKey)
    (hcache : CacheConsistent options cache metricPathKey (tables metricPathKey) keys)
    (hdeadlocks : others.deadlocks + 1 < maxRetryCount) :
    ∃ result table' cache', bulkRecord options limiter maxRetryCount others cache tables keys =
        .ok (result, Function.update tables metricPathKey table', cache') ∧
      RecordsCompletely limiter metricPathKey keys (tables metricPathKey)
        ((tables metricPathKey).insertAll others.beforeRead) table' result := by
  obtain ⟨result, table', cache', hok, hstable, hrecorded⟩ :=
    bulkRecord_ok limiter hpath hcache hdeadlocks
  have hresult := hrecorded.answers
  set tableRead := (tables metricPathKey).insertAll others.beforeRead
  have hnone : ∀ key ∈ keys.asTuples, getItem result.results key = some none ↔
      tableRead.idOf (rowKey metricPathKey key) = none ∧
        key ∈ droppedKeys limiter metricPathKey tableRead keys := by
    intro key hkey
    rw [(hresult key).1, recordedId, if_pos hkey]
    cases hid : tableRead.idOf (rowKey metricPathKey key) with
    | some id => simp
    | none =>
      by_cases hdrop : key ∈ droppedKeys limiter metricPathKey tableRead keys
      · simp [hdrop]
      · obtain ⟨id, hid'⟩ := Option.isSome_iff_exists.mp (hrecorded.created key hkey hdrop)
        simp [hdrop, hid']
  refine ⟨result, table', cache', hok, ?_, hnone, ?_, hstable, ?_, ?_⟩
  · intro key hkey
    rw [(hresult key).1, recordedId, if_pos hkey]
    cases hid : tableRead.idOf (rowKey metricPathKey key) with
    | some id => exact .inl ⟨id, rfl, hrecorded.kept key hkey id hid⟩
    | none =>
      by_cases hdrop : key ∈ droppedKeys limiter metricPathKey tableRead keys
      · exact .inr (if_pos hdrop)
      · obtain ⟨id, hid'⟩ := Option.isSome_iff_exists.mp (hrecorded.created key hkey hdrop)
        exact .inl ⟨id, by simp only [if_neg hdrop, hid', Option.map_some], hid'⟩
  · intro useCaseId orgId hquotas
    refine length_accepted_le limiter metricPathKey tableRead keys hquotas
      (keys.nodup_asTuples.filter _) fun key hkey ↦ ?_
    obtain ⟨hmem, hkey⟩ := mem_filter.mp hkey
    obtain ⟨husecase, horg, habsent, hne⟩ := of_decide_eq_true hkey
    exact ⟨husecase, horg, hmem, habsent, fun hdrop ↦ hne ((hnone key hmem).mpr ⟨habsent, hdrop⟩)⟩
  · intro key hne
    by_contra hkey
    exact hne (by rw [(hresult key).1, recordedId, if_neg hkey])
  · intro key
    rw [(hresult key).2, (hresult key).1]

end Caching

/-! ### A run with a race -/

/-- Four strings of organisation 1. -/
def racingKeys : UseCaseKeyCollection where
  mapping := [((.spans, 1), [['a'], ['b'], ['c'], ['d']])]
  nodup_orgs := by decide
  nodup_strings := by decide

/-- The first two are in the table. -/
def racingTable : IndexerTable where
  rows := [((some .spans, 1, ['a']), 1), ((some .spans, 1, ['b']), 2)]
  nextId := 3
  nodup_keys := by decide
  nodup_ids := by decide
  nextId_pos := by decide
  id_bounds := by decide

/-- Of those absent, one is granted. -/
def grantOne : WritesLimiter where
  hasQuotas _ := true
  grants _ _ := ⟨1, false⟩
  popOrder := dedupOrder

/-- Another indexer inserts both of them, one before each statement that writes or reads again. -/
def racingIndexers : OtherIndexers where
  beforeRead := []
  beforeCreate := [(some .spans, 1, ['d'])]
  beforeReread := [(some .spans, 1, ['c'])]
  deadlocks := 0

/-- The flags of the cache, with a hash function that keeps everything apart. -/
def plainCache : CacheOptions (OrgId × Str) where
  md5 := id
  readNewCacheNamespace := false
  writeNewCacheNamespace := false
  now := 0

/-- The first string is in the cache. -/
def racingCache : StringIndexerCache (OrgId × Str) where
  entries := [((.spans, 1, ['a']), 1)]
  namespacedEntries := []

/-- A hit, a read, an accepted key and a dropped one, with races on both. -/
theorem bulkRecord_complete_racing :
    ∃ result table' cache', bulkRecord plainCache grantOne 2 racingIndexers racingCache
        (fun _ ↦ racingTable) racingKeys =
          .ok (result, Function.update (fun _ ↦ racingTable) .performance table', cache') ∧
      RecordsCompletely grantOne .performance racingKeys racingTable
        (racingTable.insertAll racingIndexers.beforeRead) table' result := by
  have hcache : ∀ key ∈ racingKeys.asTuples, ∀ id ∈ racingCache.get plainCache key,
      racingTable.idOf (rowKey .performance key) = some id := by decide
  exact bulkRecord_complete (by decide) hcache (by decide)

/-! ### The result, for the consumer -/

/-- `get_mapped_results` and `get_fetch_metadata`. -/
def UseCaseKeyResults.toRecordResult (self : UseCaseKeyResults) : RecordResult where
  mapping useCaseId := some fun
    | .int orgId => some fun string ↦ getItem self.results (useCaseId, orgId, string)
    | _ => none
  bulkRecordMeta useCaseId := some fun
    | .int orgId => some fun string ↦ getItem self.fetchMeta (useCaseId, orgId, string)
    | _ => none

end Sentry.SentryMetrics
