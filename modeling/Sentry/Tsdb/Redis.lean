import Sentry.Library.KeyedSums

/-!
# Counters in Redis

The counters of `tsdb/redis.py`, with the series of `tsdb/base.py`. A field of a hash is a `Cell`;
its hash key has the model, the epoch and a virtual node, but not the rollup. `incr_multi` issues
one HINCRBY for each field; `merge`, for each bucket, source and environment, an HGET and then an
HDEL, and an HINCRBY for each total. They run concurrently, one command at a time (`step`).

Times are in seconds. The digest of a text key and its checksum are parameters. No key expires here,
and there is one cluster, which is durable.
-/

namespace Sentry.Tsdb

open Library

/-- A string as its characters. -/
abbrev Str := List Char

/-- `TSDBModel` -/
inductive TSDBModel
  | internal
  | project
  | group
  | release
  | groupGeneric
  | projectTotalReceived
  | projectTotalRejected
  | projectTotalBlacklisted
  | projectTotalForwarded
  | organizationTotalReceived
  | organizationTotalRejected
  | organizationTotalBlacklisted
  | usersAffectedByGroup
  | usersAffectedByProject
  | usersAffectedByGenericGroup
  | frequentIssuesByProject
  | frequentReleasesByGroup
  | frequentEnvironmentsByGroup
  | keyTotalReceived
  | keyTotalRejected
  | keyTotalBlacklisted
  | projectTotalReceivedIpAddress
  | projectTotalReceivedReleaseVersion
  | projectTotalReceivedErrorMessage
  | projectTotalReceivedBrowserExtensions
  | projectTotalReceivedLegacyBrowsers
  | projectTotalReceivedLocalhost
  | projectTotalReceivedWebCrawlers
  | projectTotalReceivedInvalidCsp
  | projectTotalReceivedCors
  | projectTotalReceivedDiscarded
  | projectTotalHealthcheck
  | servicehookFired
  | sentryAppViewed
  | sentryAppComponentInteracted
  deriving DecidableEq

/-- `models_with_environment_support` -/
def modelsWithEnvironmentSupport : List TSDBModel :=
  [.project, .group, .release, .usersAffectedByGroup, .usersAffectedByProject]

/-- `validate_arguments`, false where it raises. -/
def validateArguments (models : List TSDBModel) (environmentIds : List (Option ℕ)) : Bool :=
  if environmentIds.any (· ≠ none) then models.all (· ∈ modelsWithEnvironmentSupport) else true

/-- `TSDBKey` -/
inductive TSDBKey
  | int (id : ℤ)
  | text (value : Str)
  deriving DecidableEq

/-- What `get_model_key` gives. -/
inductive ModelKey
  | int (id : ℤ)
  | hexdigest (digest : Str)
  deriving DecidableEq

/-- A hash key, `<prefix><model>:<epoch>:<vnode>`, and a field of the hash, `<key>?e=<environment>`.
-/
structure Cell where
  model : TSDBModel
  epoch : ℕ
  vnode : ℤ
  key : ModelKey
  environmentId : Option ℕ
  deriving DecidableEq

/-- What is counted: a key and an environment, in a bucket of a rollup. -/
structure Counter where
  model : TSDBModel
  rollup : ℕ
  epoch : ℕ
  key : TSDBKey
  environmentId : Option ℕ
  deriving DecidableEq

/-- The settings of `RedisTSDB`; a rollup has its number of samples. -/
structure RedisTSDB where
  rollups : List (ℕ × ℕ)
  legacyRollups : List (ℕ × ℕ)
  vnodes : ℕ
  md5 : Str → Str
  crc32 : Str → ℤ

namespace RedisTSDB

variable (tsdb : RedisTSDB)

/-- `get_model_key` -/
def getModelKey : TSDBKey → ModelKey
  | .int id => .int id
  | .text value => .hexdigest (tsdb.md5 value)

def vnode : ModelKey → ℤ
  | .int id => id % tsdb.vnodes
  | .hexdigest digest => tsdb.crc32 digest % tsdb.vnodes

def cell (counter : Counter) : Cell where
  model := counter.model
  epoch := counter.epoch
  vnode := tsdb.vnode (tsdb.getModelKey counter.key)
  key := tsdb.getModelKey counter.key
  environmentId := counter.environmentId

/-- `normalize_to_rollup` -/
def normalizeToRollup (timestamp rollup : ℕ) : ℕ := timestamp / rollup

/-- `make_counter_key` -/
def makeCounterKey (model : TSDBModel) (rollup timestamp : ℕ) (key : TSDBKey)
    (environmentId : Option ℕ) : Cell :=
  tsdb.cell ⟨model, rollup, normalizeToRollup timestamp rollup, key, environmentId⟩

/-- `normalize_to_epoch` -/
def normalizeToEpoch (timestamp rollup : ℕ) : ℕ := timestamp - timestamp % rollup

/-- The series of `get_optimal_rollup_series`, for a rollup. -/
def getRollupSeries (start stop rollup : ℕ) : List ℕ :=
  let samples := if start ≤ stop then (stop - start) / rollup + 1 else 0
  ((List.range samples).map fun i ↦ normalizeToEpoch (stop - i * rollup) rollup).reverse

/-- `get_earliest_timestamp` -/
def getEarliestTimestamp (rollup samples timestamp : ℕ) : ℕ :=
  let samples := (getItem tsdb.legacyRollups rollup).getD samples
  normalizeToEpoch (timestamp - rollup * (samples - 1)) rollup

/-- `get_active_series`; for each rollup, the argument `timestamp` or else the clock, and the clock
again for the end. -/
def getActiveSeries (timestamp now : ℕ → ℕ) : List (ℕ × List ℕ) :=
  tsdb.rollups.map fun (rollup, samples) ↦
    (rollup, getRollupSeries (tsdb.getEarliestTimestamp rollup samples (timestamp rollup))
      (now rollup) rollup)

def hincrby (redis : Cell → Option ℤ) (cell : Cell) (amount : ℤ) : Cell → Option ℤ :=
  Function.update redis cell (some (count redis cell + amount))

def hdel (redis : Cell → Option ℤ) (cell : Cell) : Cell → Option ℤ :=
  Function.update redis cell none

/-- What `get_range` reads of a counter, `int(hget(..) or 0)`. -/
def read (redis : Cell → Option ℤ) (counter : Counter) : ℤ := count redis (tsdb.cell counter)

/-- `get_range`, for a key and a rollup. -/
def getRange (redis : Cell → Option ℤ) (model : TSDBModel) (key : TSDBKey)
    (start stop rollup : ℕ) (environmentId : Option ℕ) : List (ℕ × ℤ) :=
  (getRollupSeries start stop rollup).map fun timestamp ↦
    (timestamp, tsdb.read redis
      ⟨model, rollup, normalizeToRollup timestamp rollup, key, environmentId⟩)

/-- An item of `incr_multi`, with its options if it has them. -/
structure Item where
  model : TSDBModel
  key : TSDBKey
  timestamp : Option ℕ
  count : Option ℤ

/-- The arguments of `incr_multi`; its timestamp is the clock where it has none. -/
structure IncrMulti where
  items : List Item
  timestamp : ℕ
  count : ℤ
  environmentId : Option ℕ

/-- What a call of `incr_multi` counts, in the order of its loops. -/
def increments (call : IncrMulti) : List (Counter × ℤ) :=
  if validateArguments (call.items.map Item.model) [call.environmentId] then
    tsdb.rollups.flatMap fun (rollup, _) ↦ call.items.flatMap fun item ↦
      [none, call.environmentId].dedup.map fun environmentId ↦
        let epoch := normalizeToRollup (item.timestamp.getD call.timestamp) rollup
        (⟨item.model, rollup, epoch, item.key, environmentId⟩, item.count.getD call.count)
  else []

/-- The HINCRBY commands of `incr_multi`, those of `key_operations`. -/
def incrMulti (call : IncrMulti) : List (Cell × ℤ) :=
  sumByKey ((tsdb.increments call).map fun increment ↦ (tsdb.cell increment.1, increment.2))

abbrev Slot := ℕ × ℕ × Option ℕ

/-- The arguments of `merge`, with the clock as it is read for each rollup. -/
structure Merge where
  model : TSDBModel
  destination : ℤ
  sources : List ℤ
  timestamp : ℕ → ℕ
  now : ℕ → ℕ
  environmentIds : List ℕ

def Merge.ids (merge : Merge) : List (Option ℕ) := none :: merge.environmentIds.dedup.map some

def sourceCells (merge : Merge) : List (Slot × Cell) :=
  if validateArguments [merge.model] merge.ids then
    (tsdb.getActiveSeries merge.timestamp merge.now).flatMap fun (rollup, series) ↦
      series.flatMap fun timestamp ↦ merge.sources.flatMap fun source ↦
        merge.ids.map fun environmentId ↦ ((rollup, timestamp, environmentId),
          tsdb.makeCounterKey merge.model rollup timestamp (.int source) environmentId)
  else []

def destinationCell (merge : Merge) : Slot → Cell
  | (rollup, timestamp, environmentId) =>
    tsdb.makeCounterKey merge.model rollup timestamp (.int merge.destination) environmentId

abbrev Data := List (Slot × List (Option ℤ))

/-- `sum(int(p.value) for p in promises if p.value)` -/
def total (promises : List (Option ℤ)) : ℤ := (promises.map fun promise ↦ promise.getD 0).sum

/-- The HINCRBY commands of `merge`; there is none for a total of zero. -/
def totals (merge : Merge) (data : Data) : List (Cell × ℤ) :=
  (data.filter fun item ↦ total item.2 ≠ 0).map fun item ↦
    (tsdb.destinationCell merge item.1, total item.2)

/-- Where a merge is: before an HGET, between it and the HDEL, or adding the totals. -/
inductive MergeState
  | reading (todo : List (Slot × Cell)) (data : Data)
  | deleting (cell : Cell) (todo : List (Slot × Cell)) (data : Data)
  | adding (todo : List (Cell × ℤ))
  deriving DecidableEq

def nextSource (merge : Merge) (todo : List (Slot × Cell)) (data : Data) : MergeState :=
  if todo = [] then .adding (tsdb.totals merge data) else .reading todo data

/-- The fields in Redis, the commands that each call of `incr_multi` has left, and the merge. -/
structure State where
  redis : Cell → Option ℤ
  calls : List (List (Cell × ℤ))
  merge : MergeState

/-- Who issues the next command. -/
inductive Event
  | call (i : ℕ)
  | merge
  deriving DecidableEq

def State.nextCommand (s : State) (i : ℕ) : Option (Cell × ℤ) := (s.calls.getD i []).head?

def mergeStep (merge : Merge) (s : State) : State :=
  match s.merge with
  | .reading [] _ => s
  | .reading ((slot, cell) :: todo) data =>
    let promises := (getItem data slot).getD [] ++ [s.redis cell]
    { s with merge := .deleting cell todo (setItem slot promises data) }
  | .deleting cell todo data =>
    { s with
      redis := hdel s.redis cell
      merge := tsdb.nextSource merge todo data }
  | .adding [] => s
  | .adding ((cell, amount) :: todo) =>
    { s with
      redis := hincrby s.redis cell amount
      merge := .adding todo }

/-- A command of a call or of the merge. -/
def step (merge : Merge) (s : State) : Event → State
  | .call i =>
    match s.nextCommand i with
    | none => s
    | some (cell, amount) =>
      { s with
        redis := hincrby s.redis cell amount
        calls := s.calls.modify i List.tail }
  | .merge => tsdb.mergeStep merge s

/-- The state before the calls and the merge. -/
def start (merge : Merge) (calls : List IncrMulti) (redis : Cell → Option ℤ) : State where
  redis := redis
  calls := calls.map tsdb.incrMulti
  merge := tsdb.nextSource merge (tsdb.sourceCells merge) []

/-- The state after some commands. -/
def run (merge : Merge) (s : State) (events : List Event) : State :=
  events.foldl (tsdb.step merge) s

/-- The calls and the merge have no command left. -/
def State.Finished (s : State) : Prop :=
  (∀ commands ∈ s.calls, commands = []) ∧ s.merge = .adding []

end RedisTSDB

end Sentry.Tsdb
