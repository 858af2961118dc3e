import Sentry.Library.Paging
import Sentry.Tasks.Unmerge

/-!
# Unmerging in batches

The state after some batches, as a function of the batches (`stateAfter`). All of it but the first
releases of the `GroupEnvironment` rows is a function of their events alone.
-/

namespace Sentry.Tasks

open Library List Option

def Event.Precedes (event other : Event) : Prop :=
  other.timestamp < event.timestamp ∨
    other.timestamp = event.timestamp ∧ other.eventId < event.eventId

/-- What the next query continues after. -/
def Event.cursor (event : Event) : ℤ × ℕ := (event.timestamp, event.eventId)

theorem isAfter_cursor_iff (event other : Event) :
    isAfter (some event.cursor) other = true ↔ event.Precedes other := by
  dsimp only [isAfter, Event.cursor]
  rw [Bool.and_eq_true, Bool.or_eq_true, decide_eq_true_eq, decide_eq_true_eq, decide_eq_true_eq,
    Event.Precedes]
  omega

theorem Event.Precedes.asymm {event other : Event} (h : event.Precedes other) :
    ¬ other.Precedes event := by
  unfold Event.Precedes at h ⊢
  omega

theorem Event.not_precedes_self (event : Event) : ¬ event.Precedes event := fun h ↦ h.asymm h

theorem filter_isAfter {before rest : List Event} (h : (before ++ rest).Pairwise Event.Precedes) :
    (before ++ rest).filter (isAfter (before.getLast?.map Event.cursor)) = rest := by
  induction before using reverseRecOn with
  | nil => exact filter_eq_self.mpr fun event _ ↦ rfl
  | append_singleton others last _ =>
    obtain ⟨hbefore, -, hrest⟩ := pairwise_append.mp h
    obtain ⟨-, -, hlast⟩ := pairwise_append.mp hbefore
    rw [getLast?_concat, map_some, filter_append, filter_append]
    have hothers : others.filter (isAfter (some last.cursor)) = [] := by
      refine filter_eq_nil_iff.mpr fun event hevent hafter ↦ ?_
      exact (hlast event hevent last (mem_singleton_self last)).asymm
        ((isAfter_cursor_iff last event).mp hafter)
    have hself : [last].filter (isAfter (some last.cursor)) = [] := by
      refine filter_eq_nil_iff.mpr fun event hevent hafter ↦ ?_
      rw [mem_singleton.mp hevent] at hafter
      exact last.not_precedes_self ((isAfter_cursor_iff last last).mp hafter)
    have hafter : rest.filter (isAfter (some last.cursor)) = rest := by
      refine filter_eq_self.mpr fun event hevent ↦ (isAfter_cursor_iff last event).mpr ?_
      exact hrest last (mem_append_right _ (mem_singleton_self last)) event hevent
    rw [hothers, hself, hafter, nil_append, nil_append]

section Attributes

variable (calculateScore : ℕ → ℤ → ℚ)

def receive (source : Group) (group : Option Group) (event : Event) : Group :=
  backfillFields calculateScore (group.getD (initialFields event source)) event

def groupOf (source : Group) (events : List Event) : Option Group :=
  foldValue (receive calculateScore source) none events

theorem some_getGroupBackfillAttributes (source group : Group) (events : List Event) :
    some (getGroupBackfillAttributes calculateScore group events) =
      foldValue (receive calculateScore source) (some group) events := by
  induction events generalizing group with
  | nil => rfl
  | cons event events ih => exact ih (backfillFields calculateScore group event)

theorem some_getGroupCreationAttributes (source : Group) (latestEvent : Event)
    (events : List Event) :
    some (getGroupCreationAttributes calculateScore source latestEvent events) =
      groupOf calculateScore source (latestEvent :: events) :=
  some_getGroupBackfillAttributes calculateScore source
    (backfillFields calculateScore (initialFields latestEvent source) latestEvent) events

theorem initialFields_congr {source other : Group} (hstatus : source.status = other.status)
    (hsubstatus : source.substatus = other.substatus) (event : Event) :
    initialFields event source = initialFields event other := by
  unfold initialFields
  rw [hstatus, hsubstatus]

theorem groupOf_concat (source : Group) (events : List Event) (event : Event) :
    groupOf calculateScore source (events ++ [event]) =
      some (receive calculateScore source (groupOf calculateScore source events) event) :=
  foldValue_concat _ _ _ _

theorem status_groupOf {source group : Group} {events : List Event}
    (h : groupOf calculateScore source events = some group) :
    group.status = source.status ∧ group.substatus = source.substatus := by
  induction events using reverseRecOn generalizing group with
  | nil => cases h
  | append_singleton events event ih =>
    rw [groupOf_concat] at h
    rw [← Option.some.inj h]
    cases hevents : groupOf calculateScore source events with
    | none => exact ⟨rfl, rfl⟩
    | some group =>
      have hgroup := ih hevents
      exact hgroup

theorem timesSeen_groupOf {source group : Group} {events : List Event}
    (h : groupOf calculateScore source events = some group) : group.timesSeen = events.length := by
  induction events using reverseRecOn generalizing group with
  | nil => cases h
  | append_singleton events event ih =>
    rw [groupOf_concat] at h
    rw [← Option.some.inj h, length_append, length_singleton]
    cases events using reverseRecOn with
    | nil => rfl
    | append_singleton events last =>
      have hbefore := ih (groupOf_concat calculateScore source events last)
      rw [groupOf_concat]
      exact congrArg (· + 1) hbefore

end Attributes

section Batches

variable (calculateScore : ℕ → ℤ → ℚ) (getUnmergeKey : Event → Option Str)

def earliest (pair : Owner × Str) (events : List Event) : Option Event :=
  (events.filter fun event ↦ environmentKey getUnmergeKey event = pair).getLast?

/-- The `GroupEnvironment` row after one more batch. -/
def environmentRow (pair : Owner × Str) (row : Option (Option Str)) (batch : List Event) :
    Option (Option Str) :=
  match earliest getUnmergeKey pair batch with
  | none => row
  | some event => some (event.releaseTag.or (row.getD none))

/-- The `GroupEnvironment` rows after some batches. -/
def environmentRows (batches : List (List Event)) : GroupEnvironments := fun pair ↦
  batches.foldl (environmentRow getUnmergeKey pair) none

def eventsOf (owner : Owner) (events : List Event) : List Event :=
  events.filter fun event ↦ getUnmergeKey event = owner

def stateAfter (source : Group) (batches : List (List Event)) : State where
  lastEvent := batches.flatten.getLast?.map Event.cursor
  sourceFieldsReset := eventsOf getUnmergeKey none batches.flatten ≠ []
  source :=
    (groupOf calculateScore source (eventsOf getUnmergeKey none batches.flatten)).getD source
  destinations key :=
    groupOf calculateScore source (eventsOf getUnmergeKey (some key) batches.flatten)
  groupEnvironments := environmentRows getUnmergeKey batches
  groupReleases key := foldValue seenWith none
    (batches.flatten.filter fun event ↦ releaseKey getUnmergeKey event = some key)
  repaired := batches.flatten

theorem eventsOf_append (owner : Owner) (events others : List Event) :
    eventsOf getUnmergeKey owner (events ++ others) =
      eventsOf getUnmergeKey owner events ++ eventsOf getUnmergeKey owner others :=
  filter_append events others

theorem repairGroupEnvironmentData_apply (rows : GroupEnvironments) (batch : List Event)
    (pair : Owner × Str) :
    repairGroupEnvironmentData getUnmergeKey rows batch pair =
      environmentRow getUnmergeKey pair (rows pair) batch := by
  unfold repairGroupEnvironmentData collectGroupEnvironmentData
  rw [writeItems_foldByKey, foldValue_last, or_none, environmentRow, earliest]
  simp only [Option.some.injEq]
  cases (batch.filter fun event ↦ environmentKey getUnmergeKey event = pair).getLast? <;> rfl

theorem foldValue_seenWith (row : Option (ℤ × ℤ)) (events : List Event) :
    (foldValue seenWith none events).elim row (fun seen ↦ some (writeSeen row seen)) =
      foldValue seenWith row events := by
  induction events using reverseRecOn with
  | nil => rfl
  | append_singleton events event ih =>
    rw [foldValue_concat, foldValue_concat, ← ih]
    cases foldValue seenWith none events <;> cases row <;> rfl

theorem repairGroupReleaseData_apply (rows : GroupReleases) (batch : List Event)
    (key : Owner × Str × Str) :
    repairGroupReleaseData getUnmergeKey rows batch key =
      foldValue seenWith (rows key)
        (batch.filter fun event ↦ releaseKey getUnmergeKey event = some key) := by
  unfold repairGroupReleaseData collectReleaseData
  rw [writeItems_foldByKey]
  exact foldValue_seenWith (rows key) _

theorem updateSource_eq (source : Group) (before batch : List Event) :
    updateSource calculateScore (before ≠ []) ((groupOf calculateScore source before).getD source)
        batch =
      (decide (before ++ batch ≠ []),
        (groupOf calculateScore source (before ++ batch)).getD source) := by
  cases batch with
  | nil => simp only [updateSource, append_nil]
  | cons latestEvent events =>
    have hboth : before ++ latestEvent :: events ≠ [] := by simp
    rw [updateSource, decide_eq_true hboth]
    cases before using reverseRecOn with
    | nil =>
      rw [nil_append, ← some_getGroupCreationAttributes]
      rfl
    | append_singleton others event =>
      have hbefore : others ++ [event] ≠ [] := by simp
      have happend : groupOf calculateScore source (others ++ [event] ++ latestEvent :: events) =
          foldValue (receive calculateScore source)
            (some (receive calculateScore source (groupOf calculateScore source others) event))
            (latestEvent :: events) := by
        rw [groupOf, foldValue_append, foldValue_concat]
        rfl
      rw [decide_eq_true hbefore, if_pos rfl, groupOf_concat, happend,
        ← some_getGroupBackfillAttributes]
      rfl

theorem destinations_eq {source other : Group} (hstatus : other.status = source.status)
    (hsubstatus : other.substatus = source.substatus) (before : Str → List Event)
    (batch : List Event) (key : Str) :
    writeItems (migrateEvents calculateScore other)
        (fun key ↦ groupOf calculateScore source (before key))
        (destinationEvents getUnmergeKey batch) key =
      groupOf calculateScore source (before key ++ eventsOf getUnmergeKey (some key) batch) := by
  have hreceive : receive calculateScore other = receive calculateScore source := by
    funext group event
    rw [receive, receive, initialFields_congr hstatus hsubstatus]
  unfold destinationEvents
  rw [writeItems_foldByKey, foldValue_collect, ← eventsOf]
  cases eventsOf getUnmergeKey (some key) batch with
  | nil => rw [if_pos rfl, append_nil, elim_none]
  | cons latestEvent events =>
    rw [if_neg (cons_ne_nil _ _), elim_some, groupOf, groupOf, foldValue_append]
    cases foldValue (receive calculateScore source) none (before key) with
    | none =>
      rw [migrateEvents, some_getGroupCreationAttributes, groupOf, hreceive]
    | some destination =>
      rw [migrateEvents, some_getGroupBackfillAttributes calculateScore source]

theorem stateAfter_nil (source : Group) :
    stateAfter calculateScore getUnmergeKey source [] = initialState source := by
  have hrows : environmentRows getUnmergeKey [] = fun _ ↦ none := rfl
  unfold stateAfter initialState
  simp [eventsOf, groupOf, hrows]

theorem stateAfter_concat (source : Group) (batches : List (List Event)) {batch : List Event}
    (hbatch : batch ≠ []) :
    let before := stateAfter calculateScore getUnmergeKey source batches
    let updated := updateSource calculateScore before.sourceFieldsReset before.source
      (batch.filter fun event ↦ getUnmergeKey event = none)
    stateAfter calculateScore getUnmergeKey source (batches ++ [batch]) =
      { lastEvent := batch.getLast?.map Event.cursor
        sourceFieldsReset := updated.1
        source := updated.2
        destinations := writeItems (migrateEvents calculateScore updated.2) before.destinations
          (destinationEvents getUnmergeKey batch)
        groupEnvironments := repairGroupEnvironmentData getUnmergeKey before.groupEnvironments batch
        groupReleases := repairGroupReleaseData getUnmergeKey before.groupReleases batch
        repaired := before.repaired ++ batch } := by
  intro before updated
  have hflatten : (batches ++ [batch]).flatten = batches.flatten ++ batch := by simp
  have hupdated : updated =
      (decide (eventsOf getUnmergeKey none (batches.flatten ++ batch) ≠ []),
        (groupOf calculateScore source
          (eventsOf getUnmergeKey none (batches.flatten ++ batch))).getD source) := by
    rw [eventsOf_append]
    exact updateSource_eq calculateScore source _ _
  have hstatus : updated.2.status = source.status ∧ updated.2.substatus = source.substatus := by
    rw [hupdated]
    cases hgroup : groupOf calculateScore source
        (eventsOf getUnmergeKey none (batches.flatten ++ batch)) with
    | none => exact ⟨rfl, rfl⟩
    | some group => exact status_groupOf calculateScore hgroup
  unfold stateAfter
  rw [hflatten, State.mk.injEq]
  refine ⟨?_, ?_, ?_, ?_, ?_, ?_, rfl⟩
  · cases batch using reverseRecOn with
    | nil => exact absurd rfl hbatch
    | append_singleton events event =>
      rw [← append_assoc, getLast?_concat, getLast?_concat]
  · rw [hupdated]
  · rw [hupdated]
  · funext key
    rw [eventsOf_append]
    exact (destinations_eq calculateScore getUnmergeKey hstatus.1 hstatus.2
      (fun key ↦ eventsOf getUnmergeKey (some key) batches.flatten) batch key).symm
  · funext pair
    rw [repairGroupEnvironmentData_apply]
    exact foldl_concat ..
  · funext key
    rw [repairGroupReleaseData_apply, filter_append, foldValue_append]
    rfl

theorem unmerge_stateAfter (source : Group) {batches : List (List Event)} {rest : List Event}
    (hsorted : (batches.flatten ++ rest).Pairwise Event.Precedes) (batchSize : ℕ) :
    unmerge calculateScore getUnmergeKey (batches.flatten ++ rest) batchSize
        (stateAfter calculateScore getUnmergeKey source batches) =
      if rest.take batchSize = [] then none
      else some (stateAfter calculateScore getUnmergeKey source
        (batches ++ [rest.take batchSize])) := by
  have hquery : celeryRunBatchQuery (batches.flatten ++ rest) batchSize
      (batches.flatten.getLast?.map Event.cursor) =
      ((rest.take batchSize).getLast?.map Event.cursor, rest.take batchSize) := by
    rw [celeryRunBatchQuery, filter_isAfter hsorted]
    rfl
  unfold unmerge
  rw [show (stateAfter calculateScore getUnmergeKey source batches).lastEvent =
    batches.flatten.getLast?.map Event.cursor from rfl, hquery]
  dsimp only
  by_cases hbatch : rest.take batchSize = []
  · rw [if_pos hbatch, if_pos hbatch]
  · rw [if_neg hbatch, if_neg hbatch,
      stateAfter_concat calculateScore getUnmergeKey source batches hbatch]

theorem runTasks_stateAfter (source : Group) {batchSize : ℕ} (hsize : 0 < batchSize) {fuel : ℕ}
    {batches : List (List Event)} {rest : List Event}
    (hsorted : (batches.flatten ++ rest).Pairwise Event.Precedes) (hfuel : rest.length < fuel) :
    runTasks calculateScore getUnmergeKey (batches.flatten ++ rest) batchSize fuel
        (stateAfter calculateScore getUnmergeKey source batches) =
      some (stateAfter calculateScore getUnmergeKey source (batches ++ pages batchSize rest)) := by
  induction fuel generalizing batches rest with
  | zero => exact absurd hfuel (Nat.not_lt_zero _)
  | succ fuel ih =>
    rw [runTasks, unmerge_stateAfter calculateScore getUnmergeKey source hsorted]
    by_cases hrest : rest = []
    · subst hrest
      rw [take_nil, if_pos rfl, pages_nil, append_nil batches]
    · have hpos : 0 < rest.length := length_pos_of_ne_nil hrest
      have htake : rest.take batchSize ≠ [] := by
        rw [Ne, take_eq_nil_iff, not_or]
        exact ⟨hsize.ne', hrest⟩
      have hevents : batches.flatten ++ rest =
          (batches ++ [rest.take batchSize]).flatten ++ rest.drop batchSize := by
        simp
      rw [if_neg htake, hevents, pages_of_ne_nil hsize hrest]
      dsimp only
      rw [hevents] at hsorted
      rw [ih hsorted (by rw [length_drop]; omega), append_assoc]
      rfl

end Batches

end Sentry.Tasks
