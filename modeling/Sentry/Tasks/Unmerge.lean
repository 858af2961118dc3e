import Sentry.Library.KeyedFold
import Mathlib.Data.Int.Notation
import Mathlib.Data.Rat.Init

/-!
# The unmerge task

`unmerge` of `tasks/unmerge.py`, over a fixed list of events of the source group. A task folds the
next batch of events into the attributes of the source and of the destinations, and then into the
`GroupEnvironment` and `GroupRelease` rows. The destination of an unmerge key is `none` until it is
created. What a task does for the user reports, the attachments, the time series and the similarity
index is left out; the event itself is recorded as repaired.
-/

namespace Sentry.Tasks

open Library

/-- A string as its characters. -/
abbrev Str := List Char

/-- An event, as the task reads it; `culprit` is what `_generate_culprit` gives for it. An id has a
fixed number of hexadecimal digits and is compared as the number they write. -/
structure Event where
  timestamp : ℤ
  eventId : ℕ
  environment : Option Str
  release : Option Str
  platform : Option Str
  logger : Option Str
  level : Option Str
  searchMessage : Str
  culprit : Str
  type : Str
  metadata : List (Str × Str)
  received : Option ℚ

/-- `get_environment_name` -/
def getEnvironmentName (event : Event) : Str := event.environment.getD []

/-- The tag `sentry:release`; an empty one is read as none. -/
def Event.releaseTag (event : Event) : Option Str := event.release.filter fun tag ↦ tag ≠ []

/-- `data` of a group. -/
structure GroupData where
  lastReceived : ℚ
  type : Str
  metadata : List (Str × Str)

/-- The attributes of a group; those that are `Option` may be missing while they are collected. -/
structure Group where
  culprit : Str
  data : GroupData
  lastSeen : ℤ
  level : ℕ
  message : Str
  timesSeen : ℕ
  status : ℕ
  substatus : Option ℕ
  platform : Option Str
  logger : Option Str
  firstSeen : Option ℤ
  activeAt : Option ℤ
  firstRelease : Option Str
  score : Option ℚ

/-- `LOG_LEVELS_MAP.get(level, logging.ERROR)` -/
def logLevel : Option Str → ℕ
  | none => 40
  | some level =>
    (getItem [("sample".toList, 0), ("debug".toList, 10), ("info".toList, 20),
      ("warning".toList, 30), ("error".toList, 40), ("fatal".toList, 50)] level).getD 40

/-- `initial_fields` -/
def initialFields (event : Event) (group : Group) : Group where
  culprit := event.culprit
  data :=
    { lastReceived := (event.received.filter fun received ↦ received ≠ 0).getD event.timestamp
      type := event.type
      metadata := event.metadata }
  lastSeen := event.timestamp
  level := logLevel event.level
  message := event.searchMessage
  timesSeen := 0
  status := group.status
  substatus := group.substatus
  platform := none
  logger := none
  firstSeen := none
  activeAt := none
  firstRelease := none
  score := none

section Task

variable (calculateScore : ℕ → ℤ → ℚ)

/-- `backfill_fields` -/
def backfillFields (data : Group) (event : Event) : Group :=
  { data with
    platform := event.platform
    logger := some ((event.logger.filter fun logger ↦ logger ≠ []).getD [])
    firstSeen := some event.timestamp
    activeAt := some event.timestamp
    firstRelease := event.releaseTag.or data.firstRelease
    timesSeen := data.timesSeen + 1
    score := some (calculateScore (data.timesSeen + 1) data.lastSeen) }

/-- `get_group_creation_attributes`, of the latest event and the others. -/
def getGroupCreationAttributes (group : Group) (latestEvent : Event) (events : List Event) :
    Group :=
  (latestEvent :: events).foldl (backfillFields calculateScore) (initialFields latestEvent group)

/-- `get_group_backfill_attributes`; the other attributes are those of the group. -/
def getGroupBackfillAttributes (group : Group) (events : List Event) : Group :=
  events.foldl (backfillFields calculateScore) group

/-- The conditions of `celery_run_batch_query` on an event, for the event the last batch ended with.
-/
def isAfter (state : Option (ℤ × ℕ)) (event : Event) : Bool :=
  match state with
  | none => true
  | some (timestamp, eventId) =>
    event.timestamp ≤ timestamp && (event.timestamp < timestamp || event.eventId < eventId)

/-- `celery_run_batch_query` -/
def celeryRunBatchQuery (events : List Event) (batchSize : ℕ) (state : Option (ℤ × ℕ)) :
    Option (ℤ × ℕ) × List Event :=
  let events := (events.filter (isAfter state)).take batchSize
  (events.getLast?.map fun event ↦ (event.timestamp, event.eventId), events)

abbrev Owner := Option Str

/-- `GroupEnvironment` rows, each with its first release. -/
abbrev GroupEnvironments := Owner × Str → Option (Option Str)

/-- `GroupRelease` rows by group, environment and release, each with its first and last seen. -/
abbrev GroupReleases := Owner × Str × Str → Option (ℤ × ℤ)

variable (getUnmergeKey : Event → Option Str)

def environmentKey (event : Event) : Owner × Str := (getUnmergeKey event, getEnvironmentName event)

def releaseKey (event : Event) : Option (Owner × Str × Str) :=
  event.releaseTag.map fun release ↦ (getUnmergeKey event, getEnvironmentName event, release)

/-- `collect_group_environment_data` -/
def collectGroupEnvironmentData (events : List Event) : List ((Owner × Str) × Option Str) :=
  foldByKey (fun event ↦ some (environmentKey getUnmergeKey event))
    (fun _ event ↦ event.releaseTag) [] events

/-- `repair_group_environment_data`: a row is created or updated, and keeps its first release where
there is none. -/
def repairGroupEnvironmentData (rows : GroupEnvironments) (events : List Event) :
    GroupEnvironments :=
  writeItems (fun row firstRelease ↦ firstRelease.or (row.getD none)) rows
    (collectGroupEnvironmentData getUnmergeKey events)

/-- The first and last seen of a `GroupRelease`, with an event before. -/
def seenWith (seen : Option (ℤ × ℤ)) (event : Event) : ℤ × ℤ :=
  match seen with
  | none => (event.timestamp, event.timestamp)
  | some (_, lastSeen) => (event.timestamp, lastSeen)

/-- `collect_release_data` -/
def collectReleaseData (events : List Event) : List ((Owner × Str × Str) × (ℤ × ℤ)) :=
  foldByKey (releaseKey getUnmergeKey) seenWith [] events

def writeSeen (row : Option (ℤ × ℤ)) (seen : ℤ × ℤ) : ℤ × ℤ :=
  match row with
  | none => seen
  | some (_, lastSeen) => (seen.1, lastSeen)

/-- `repair_group_release_data` -/
def repairGroupReleaseData (rows : GroupReleases) (events : List Event) : GroupReleases :=
  writeItems writeSeen rows (collectReleaseData getUnmergeKey events)

/-- What the tasks have written, and what a task passes to the next one. -/
structure State where
  lastEvent : Option (ℤ × ℕ)
  sourceFieldsReset : Bool
  source : Group
  destinations : Str → Option Group
  groupEnvironments : GroupEnvironments
  groupReleases : GroupReleases
  repaired : List Event

/-- The state of the first task, after `truncate_denormalizations`. -/
def initialState (source : Group) : State where
  lastEvent := none
  sourceFieldsReset := false
  source := source
  destinations := fun _ ↦ none
  groupEnvironments := fun _ ↦ none
  groupReleases := fun _ ↦ none
  repaired := []

/-- `destination_events`, by their unmerge key. -/
def destinationEvents (events : List Event) : List (Str × List Event) :=
  foldByKey getUnmergeKey (fun others event ↦ others.getD [] ++ [event]) [] events

def updateSource (sourceFieldsReset : Bool) (source : Group) (sourceEvents : List Event) :
    Bool × Group :=
  match sourceEvents with
  | [] => (sourceFieldsReset, source)
  | latestEvent :: events =>
    if sourceFieldsReset then
      (true, getGroupBackfillAttributes calculateScore source (latestEvent :: events))
    else (true, getGroupCreationAttributes calculateScore source latestEvent events)

/-- `migrate_events`: the destination is created, or updated. There is always an event. -/
def migrateEvents (source : Group) (destination : Option Group) (events : List Event) : Group :=
  match destination, events with
  | some destination, _ => getGroupBackfillAttributes calculateScore destination events
  | none, [] => source
  | none, latestEvent :: events =>
    getGroupCreationAttributes calculateScore source latestEvent events

/-- `unmerge`, `none` when there are no more events. -/
def unmerge (events : List Event) (batchSize : ℕ) (state : State) : Option State :=
  let (lastEvent, batch) := celeryRunBatchQuery events batchSize state.lastEvent
  if batch = [] then none
  else
    let (sourceFieldsReset, source) := updateSource calculateScore state.sourceFieldsReset
      state.source (batch.filter fun event ↦ getUnmergeKey event = none)
    some
      { lastEvent := lastEvent
        sourceFieldsReset := sourceFieldsReset
        source := source
        destinations := writeItems (migrateEvents calculateScore source) state.destinations
          (destinationEvents getUnmergeKey batch)
        groupEnvironments := repairGroupEnvironmentData getUnmergeKey state.groupEnvironments batch
        groupReleases := repairGroupReleaseData getUnmergeKey state.groupReleases batch
        repaired := state.repaired ++ batch }

/-- The chain of tasks, `none` when it does not end within a number of tasks. -/
def runTasks (events : List Event) (batchSize : ℕ) : ℕ → State → Option State
  | 0, _ => none
  | fuel + 1, state =>
    match unmerge calculateScore getUnmergeKey events batchSize state with
    | none => some state
    | some next => runTasks events batchSize fuel next

end Task

end Sentry.Tasks
