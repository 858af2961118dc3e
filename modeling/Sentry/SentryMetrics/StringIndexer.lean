import Sentry.SentryMetrics.Reconstruct
import Mathlib.Algebra.GroupWithZero.Nat

/-!
# The string indexer

`sentry_metrics/indexer/cache.py`, `postgres/postgres_v2.py`, `limiters/writes.py` and `base.py`.
`CachingIndexer.bulk_record` asks the cache; the keys that are left go to `PGStringIndexerV2`, which
reads the table, has the writes limiter decide on the absent keys, inserts those that are accepted,
and reads them back. Other indexers insert rows before each of these statements; no one removes or
changes a row. A key `use_case:org:string` stays a triple. Metrics and logging are left out.
-/

namespace Sentry.SentryMetrics

open Library List

abbrev OrgId := ℤ

abbrev IndexerKey := UseCaseID × OrgId × Str

/-- `UseCaseKey`, the metric path. -/
inductive UseCaseKey
  | releaseHealth
  | performance
  deriving DecidableEq

def metricPathMapping : UseCaseID → UseCaseKey
  | .sessions => .releaseHealth
  | _ => .performance

/-- `UseCaseKeyCollection`: a set of strings for each organisation of a use case. -/
structure UseCaseKeyCollection where
  mapping : List ((UseCaseID × OrgId) × List Str)
  nodup_orgs : (mapping.map Prod.fst).Nodup
  nodup_strings : ∀ entry ∈ mapping, entry.2.Nodup

namespace UseCaseKeyCollection

def asTuples (keys : UseCaseKeyCollection) : List IndexerKey :=
  keys.mapping.flatMap fun entry ↦ entry.2.map fun string ↦ (entry.1.1, entry.1.2, string)

def size (keys : UseCaseKeyCollection) : ℕ := (keys.mapping.map fun entry ↦ entry.2.length).sum

def filterStrings (keys : UseCaseKeyCollection) (p : IndexerKey → Bool) : UseCaseKeyCollection where
  mapping := (keys.mapping.map fun entry ↦
    (entry.1, entry.2.filter fun string ↦ p (entry.1.1, entry.1.2, string))).filter
      fun entry ↦ !entry.2.isEmpty
  nodup_orgs := by
    refine List.Nodup.sublist (filter_sublist.map Prod.fst) ?_
    rw [map_map]
    exact keys.nodup_orgs
  nodup_strings := by
    intro entry hentry
    obtain ⟨original, horiginal, rfl⟩ := mem_map.mp (mem_of_mem_filter hentry)
    exact (keys.nodup_strings original horiginal).filter _

end UseCaseKeyCollection

/-- `UseCaseKeyResults`: ids and metadata by key. -/
structure UseCaseKeyResults where
  results : List (IndexerKey × Option ℤ)
  fetchMeta : List (IndexerKey × Metadata)
  nodup_results : (results.map Prod.fst).Nodup
  nodup_fetchMeta : (fetchMeta.map Prod.fst).Nodup

namespace UseCaseKeyResults

/-- `UseCaseKeyResults()`. -/
def empty : UseCaseKeyResults := ⟨[], [], nodup_nil, nodup_nil⟩

/-- `add_use_case_key_results`, with a fetch type, which every caller gives, and `fetch_type_ext`
for each result. -/
def addUseCaseKeyResults (self : UseCaseKeyResults) (fetchType : FetchType)
    (added : List (IndexerKey × Option ℤ × Option Bool)) : UseCaseKeyResults where
  results := updateItems self.results (added.map fun result ↦ (result.1, result.2.1))
  fetchMeta := updateItems self.fetchMeta
    (added.map fun result ↦ (result.1, ⟨result.2.1, fetchType, result.2.2⟩))
  nodup_results := nodup_keys_updateItems self.nodup_results _
  nodup_fetchMeta := nodup_keys_updateItems self.nodup_fetchMeta _

/-- `get_unmapped_use_case_keys`: the keys without an id. An id of zero counts as none. -/
def getUnmappedUseCaseKeys (self : UseCaseKeyResults) (keys : UseCaseKeyCollection) :
    UseCaseKeyCollection :=
  keys.filterStrings fun key ↦
    match getItem self.results key with
    | some (some id) => id = 0
    | _ => true

def getMappedStringsToInts (self : UseCaseKeyResults) : List (IndexerKey × ℤ) :=
  self.results.filterMap fun item ↦ item.2.map fun id ↦ (item.1, id)

/-- `merge`: of the ids those of `self` stay, of the metadata those of `other`. -/
def merge (self other : UseCaseKeyResults) : UseCaseKeyResults where
  results := updateItems other.results self.results
  fetchMeta := updateItems self.fetchMeta other.fetchMeta
  nodup_results := nodup_keys_updateItems other.nodup_results _
  nodup_fetchMeta := nodup_keys_updateItems self.nodup_fetchMeta _

end UseCaseKeyResults

abbrev RowKey := Option UseCaseID × OrgId × Str

/-- A table of the indexer; its ids are those of a sequence, which starts at 1. -/
structure IndexerTable where
  rows : List (RowKey × ℤ)
  nextId : ℤ
  nodup_keys : (rows.map Prod.fst).Nodup
  nodup_ids : (rows.map Prod.snd).Nodup
  nextId_pos : 0 < nextId
  id_bounds : ∀ row ∈ rows, 0 < row.2 ∧ row.2 < nextId

namespace IndexerTable

def idOf (table : IndexerTable) (key : RowKey) : Option ℤ := getItem table.rows key

/-- `INSERT ... ON CONFLICT DO NOTHING`. The sequence advances in any case. -/
def insert (table : IndexerTable) (key : RowKey) : IndexerTable :=
  if h : key ∈ table.rows.map Prod.fst then
    { table with
      nextId := table.nextId + 1
      nextId_pos := by have := table.nextId_pos; omega
      id_bounds := fun row hrow ↦ by have := table.id_bounds row hrow; omega }
  else
    { rows := table.rows ++ [(key, table.nextId)]
      nextId := table.nextId + 1
      nodup_keys := by
        rw [map_append]
        refine nodup_append.mpr ⟨table.nodup_keys, nodup_singleton _, ?_⟩
        intro other hother new hnew heq
        obtain rfl := mem_singleton.mp hnew
        exact h (heq ▸ hother)
      nodup_ids := by
        rw [map_append]
        refine nodup_append.mpr ⟨table.nodup_ids, nodup_singleton _, ?_⟩
        intro id hid new hnew heq
        obtain rfl := mem_singleton.mp hnew
        obtain ⟨row, hrow, rfl⟩ := mem_map.mp hid
        have hbounds := (table.id_bounds row hrow).2
        simp only at heq
        omega
      nextId_pos := by have := table.nextId_pos; omega
      id_bounds := by
        intro row hrow
        rcases mem_append.mp hrow with hrow | hrow
        · have := table.id_bounds row hrow
          omega
        · obtain rfl := mem_singleton.mp hrow
          have := table.nextId_pos
          omega }

/-- Rows inserted one after the other. -/
def insertAll (table : IndexerTable) (keys : List RowKey) : IndexerTable :=
  keys.foldl insert table

end IndexerTable

/-- The row of a key: only the table of the performance path has the column `use_case_id`. -/
def rowKey (metricPathKey : UseCaseKey) (key : IndexerKey) : RowKey :=
  match metricPathKey with
  | .performance => (some key.1, key.2.1, key.2.2)
  | .releaseHealth => (none, key.2.1, key.2.2)

def keyOfRow (metricPathKey : UseCaseKey) (row : RowKey) : IndexerKey :=
  match metricPathKey with
  | .performance => (row.1.getD .sessions, row.2.1, row.2.2)
  | .releaseHealth => (.sessions, row.2.1, row.2.2)

/-- `GrantedQuota`; `isGlobal` tells whether a quota with a prefix of its own was reached. -/
structure GrantedQuota where
  granted : ℕ
  isGlobal : Bool

/-- The writes limiter: the use cases that have quotas, what is granted to the organisations that
ask for it, and the order in which `set.pop` takes the strings. -/
structure WritesLimiter where
  hasQuotas : UseCaseID → Bool
  grants : UseCaseID → OrgId → GrantedQuota
  popOrder : SetOrder

def popStrings (granted : ℕ) : List Str → List Str × List Str
  | [] => ([], [])
  | string :: rest =>
    if granted < (string :: rest).length then
      (string :: (popStrings granted rest).1, (popStrings granted rest).2)
    else ([], string :: rest)

def WritesLimiter.limitStrings (limiter : WritesLimiter) (useCaseId : UseCaseID) (orgId : OrgId)
    (strings : List Str) : List Str × List Str :=
  if limiter.hasQuotas useCaseId then
    let granted := (limiter.grants useCaseId orgId).granted
    if strings.length ≤ granted then ([], strings)
    else popStrings granted (limiter.popOrder.iterate strings)
  else ([], strings)

theorem popStrings_append (granted : ℕ) (strings : List Str) :
    (popStrings granted strings).1 ++ (popStrings granted strings).2 = strings := by
  induction strings with
  | nil => rfl
  | cons string rest ih =>
    unfold popStrings
    split
    · rw [cons_append, ih]
    · rfl

theorem length_popStrings_le (granted : ℕ) (strings : List Str) :
    (popStrings granted strings).2.length ≤ granted := by
  induction strings with
  | nil => exact Nat.zero_le granted
  | cons string rest ih =>
    unfold popStrings
    split
    · exact ih
    · next h => exact not_lt.mp h

theorem WritesLimiter.mem_limitStrings (limiter : WritesLimiter) (useCaseId : UseCaseID)
    (orgId : OrgId) (strings : List Str) (string : Str) :
    string ∈ (limiter.limitStrings useCaseId orgId strings).1 ∨
      string ∈ (limiter.limitStrings useCaseId orgId strings).2 ↔ string ∈ strings := by
  unfold WritesLimiter.limitStrings
  split
  · dsimp only
    split
    · simp
    · rw [← mem_append, popStrings_append, limiter.popOrder.mem_iterate]
  · simp

theorem WritesLimiter.nodup_limitStrings (limiter : WritesLimiter) (useCaseId : UseCaseID)
    (orgId : OrgId) {strings : List Str} (h : strings.Nodup) :
    ((limiter.limitStrings useCaseId orgId strings).1 ++
      (limiter.limitStrings useCaseId orgId strings).2).Nodup := by
  unfold WritesLimiter.limitStrings
  split
  · dsimp only
    split
    · exact h
    · rw [popStrings_append]
      exact limiter.popOrder.nodup_iterate strings
  · exact h

theorem WritesLimiter.length_limitStrings_le (limiter : WritesLimiter) {useCaseId : UseCaseID}
    (h : limiter.hasQuotas useCaseId) (orgId : OrgId) (strings : List Str) :
    (limiter.limitStrings useCaseId orgId strings).2.length ≤
      (limiter.grants useCaseId orgId).granted := by
  unfold WritesLimiter.limitStrings
  rw [if_pos h]
  dsimp only
  split
  · next hle => exact hle
  · exact length_popStrings_le _ _

/-- `RateLimitState`: the keys accepted, and the keys dropped with `is_global`. -/
structure RateLimitState where
  acceptedKeys : UseCaseKeyCollection
  droppedStrings : List (IndexerKey × Bool)

def WritesLimiter.checkWriteLimits (limiter : WritesLimiter) (keys : UseCaseKeyCollection) :
    RateLimitState where
  acceptedKeys :=
    { mapping := keys.mapping.map fun entry ↦
        (entry.1, (limiter.limitStrings entry.1.1 entry.1.2 entry.2).2)
      nodup_orgs := by
        rw [map_map]
        exact keys.nodup_orgs
      nodup_strings := by
        intro entry hentry
        obtain ⟨original, horiginal, rfl⟩ := mem_map.mp hentry
        exact (nodup_append.mp
          (limiter.nodup_limitStrings _ _ (keys.nodup_strings original horiginal))).2.1 }
  droppedStrings := keys.mapping.flatMap fun entry ↦
    (limiter.limitStrings entry.1.1 entry.1.2 entry.2).1.map fun string ↦
      ((entry.1.1, entry.1.2, string), (limiter.grants entry.1.1 entry.1.2).isGlobal)

/-- The exceptions that can leave `bulk_record`. -/
inductive IndexerError
  | valueError
  | stopIteration
  | assertionError
  | operationalError
  deriving DecidableEq

def getMetricPathKey (keys : UseCaseKeyCollection) : Except IndexerError UseCaseKey :=
  match keys.mapping.map fun entry ↦ metricPathMapping entry.1.1 with
  | [] => .error .stopIteration
  | metricPathKey :: rest =>
    if rest.all (· = metricPathKey) then .ok metricPathKey else .error .valueError

/-- What the other indexers do meanwhile: the rows they insert before each statement, and how often
the insertion of this one runs into a deadlock with theirs. -/
structure OtherIndexers where
  beforeRead : List RowKey
  beforeCreate : List RowKey
  beforeReread : List RowKey
  deadlocks : ℕ

/-- `_get_db_records`: the rows of the keys. -/
def getDbRecords (metricPathKey : UseCaseKey) (table : IndexerTable) (keys : UseCaseKeyCollection) :
    List (RowKey × ℤ) :=
  table.rows.filter fun row ↦ row.1 ∈ keys.asTuples.map (rowKey metricPathKey)

def rowResults (metricPathKey : UseCaseKey) (rows : List (RowKey × ℤ)) :
    List (IndexerKey × Option ℤ × Option Bool) :=
  rows.map fun row ↦ (keyOfRow metricPathKey row.1, some row.2, none)

/-- `_bulk_create_with_retry` with `SENTRY_POSTGRES_INDEXER_RETRY_COUNT`, after some retries and
before some more deadlocks. -/
def bulkCreateWithRetry (maxRetryCount : ℕ) (table : IndexerTable) (newRecords : List RowKey) :
    ℕ → ℕ → Except IndexerError IndexerTable
  | retryCount, deadlocks =>
    if retryCount + 1 < maxRetryCount then
      match deadlocks with
      | 0 => .ok (table.insertAll newRecords)
      | deadlocks + 1 => bulkCreateWithRetry maxRetryCount table newRecords
        (retryCount + 1) deadlocks
    else if retryCount = 0 then .error .assertionError
    else .error .operationalError

/-- `PGStringIndexerV2.bulk_record`: the results, and the tables afterwards. -/
def pgBulkRecord (limiter : WritesLimiter) (maxRetryCount : ℕ) (others : OtherIndexers)
    (tables : UseCaseKey → IndexerTable) (strings : UseCaseKeyCollection) :
    Except IndexerError (UseCaseKeyResults × (UseCaseKey → IndexerTable)) :=
  match getMetricPathKey strings with
  | .error e => .error e
  | .ok metricPathKey =>
    let tableRead := (tables metricPathKey).insertAll others.beforeRead
    let dbReadKeyResults := UseCaseKeyResults.empty.addUseCaseKeyResults .dbRead
      (rowResults metricPathKey (getDbRecords metricPathKey tableRead strings))
    let dbWriteKeys := dbReadKeyResults.getUnmappedUseCaseKeys strings
    if dbWriteKeys.size = 0 then
      .ok (dbReadKeyResults, Function.update tables metricPathKey tableRead)
    else
      let writesLimiterState := limiter.checkWriteLimits dbWriteKeys
      let rateLimitedKeyResults := UseCaseKeyResults.empty.addUseCaseKeyResults .rateLimited
        (writesLimiterState.droppedStrings.map fun dropped ↦ (dropped.1, none, some dropped.2))
      if writesLimiterState.acceptedKeys.size = 0 then
        .ok (dbReadKeyResults.merge rateLimitedKeyResults,
          Function.update tables metricPathKey tableRead)
      else
        match bulkCreateWithRetry maxRetryCount (tableRead.insertAll others.beforeCreate)
            (writesLimiterState.acceptedKeys.asTuples.map (rowKey metricPathKey)) 0
            others.deadlocks with
        | .error e => .error e
        | .ok tableCreated =>
          let tableReread := tableCreated.insertAll others.beforeReread
          let dbWriteKeyResults := UseCaseKeyResults.empty.addUseCaseKeyResults .firstSeen
            (rowResults metricPathKey
              (getDbRecords metricPathKey tableReread writesLimiterState.acceptedKeys))
          .ok ((dbReadKeyResults.merge dbWriteKeyResults).merge rateLimitedKeyResults,
            Function.update tables metricPathKey tableReread)

/-- `StringIndexerCache`: under the use case and the hash of `org:string`, the id, and in the new
schema the id with the time at which it was written. -/
structure StringIndexerCache (Hash : Type) where
  entries : List ((UseCaseID × Hash) × ℤ)
  namespacedEntries : List ((UseCaseID × Hash) × ℤ × ℤ)

/-- The flags of the cache, the hash function, and the time. -/
structure CacheOptions (Hash : Type) where
  md5 : OrgId × Str → Hash
  readNewCacheNamespace : Bool
  writeNewCacheNamespace : Bool
  now : ℤ

namespace StringIndexerCache

variable {Hash : Type} [DecidableEq Hash]

def makeCacheKey (options : CacheOptions Hash) (key : IndexerKey) : UseCaseID × Hash :=
  (key.1, options.md5 key.2)

/-- `get_many`, for one key. In the new schema an entry is valid for three hours. -/
def get (options : CacheOptions Hash) (cache : StringIndexerCache Hash) (key : IndexerKey) :
    Option ℤ :=
  if options.readNewCacheNamespace then
    match getItem cache.namespacedEntries (makeCacheKey options key) with
    | none => none
    | some (id, timestamp) => if options.now - 3 * 60 * 60 ≤ timestamp then some id else none
  else getItem cache.entries (makeCacheKey options key)

def setMany (options : CacheOptions Hash) (cache : StringIndexerCache Hash)
    (keyValues : List (IndexerKey × ℤ)) : StringIndexerCache Hash where
  entries := updateItems cache.entries
    (keyValues.map fun item ↦ (makeCacheKey options item.1, item.2))
  namespacedEntries :=
    if options.writeNewCacheNamespace then
      updateItems cache.namespacedEntries
        (keyValues.map fun item ↦ (makeCacheKey options item.1, item.2, options.now))
    else cache.namespacedEntries

end StringIndexerCache

/-- `CachingIndexer.bulk_record` over `PGStringIndexerV2`: the results, and the tables and the cache
afterwards. -/
def bulkRecord {Hash : Type} [DecidableEq Hash] (options : CacheOptions Hash)
    (limiter : WritesLimiter) (maxRetryCount : ℕ) (others : OtherIndexers)
    (cache : StringIndexerCache Hash) (tables : UseCaseKey → IndexerTable)
    (strings : UseCaseKeyCollection) :
    Except IndexerError
      (UseCaseKeyResults × (UseCaseKey → IndexerTable) × StringIndexerCache Hash) :=
  let cacheKeyResults := UseCaseKeyResults.empty.addUseCaseKeyResults .cacheHit
    (strings.asTuples.filterMap fun key ↦ (cache.get options key).map fun id ↦ (key, some id, none))
  let dbRecordKeys := cacheKeyResults.getUnmappedUseCaseKeys strings
  if dbRecordKeys.size = 0 then .ok (cacheKeyResults, tables, cache)
  else
    match pgBulkRecord limiter maxRetryCount others tables dbRecordKeys with
    | .error e => .error e
    | .ok (dbRecordKeyResults, tables') =>
      .ok (cacheKeyResults.merge dbRecordKeyResults, tables',
        cache.setMany options dbRecordKeyResults.getMappedStringsToInts)

end Sentry.SentryMetrics
