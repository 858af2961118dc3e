import Sentry.Tasks.UnmergeBatches

/-!
# The batch size of an unmerge

Every chain of tasks goes through the events once and ends (`outcome_eq`). What it has written is
the same for every batch size, but for the first releases of the `GroupEnvironment` rows: within a
batch the earliest event decides, also when it has no release. The batch size does not matter
exactly when this comes to the same (`EarliestDecides`).
-/

namespace Sentry.Tasks

open Library List Option

/-- The events of the source group, in the descending order of the query. -/
structure EventLog where
  events : List Event
  sorted : events.Pairwise Event.Precedes

section Outcome

variable (calculateScore : ℕ → ℤ → ℚ) (getUnmergeKey : Event → Option Str) (source : Group)

def outcome (log : EventLog) (batchSize : ℕ) : Option State :=
  runTasks calculateScore getUnmergeKey log.events batchSize (log.events.length + 1)
    (initialState source)

def CountsEvents (events : List Event) (state : State) : Prop :=
  (eventsOf getUnmergeKey none events ≠ [] →
    state.source.timesSeen = (eventsOf getUnmergeKey none events).length) ∧
  ∀ key, eventsOf getUnmergeKey (some key) events ≠ [] →
    ∃ group ∈ state.destinations key,
      group.timesSeen = (eventsOf getUnmergeKey (some key) events).length

/-- The chain of tasks with a batch size visits every event once, and ends as a single batch with
all of them. -/
def BatchSizeIrrelevant (log : EventLog) (batchSize : ℕ) : Prop :=
  ∃ state, outcome calculateScore getUnmergeKey source log batchSize = some state ∧
    state.repaired = log.events ∧ CountsEvents getUnmergeKey log.events state ∧
    ∀ whole, 0 < whole → log.events.length ≤ whole →
      outcome calculateScore getUnmergeKey source log whole = some state

/-- Where the earliest event with a group and environment has no release, the earliest one in a
batch has none either. -/
def EarliestDecides (events : List Event) (batchSize : ℕ) : Prop :=
  ∀ pair, ∀ event ∈ earliest getUnmergeKey pair events, event.releaseTag = none →
    ∀ batch ∈ pages batchSize events, ∀ other ∈ earliest getUnmergeKey pair batch,
      other.releaseTag = none

theorem outcome_eq (log : EventLog) {batchSize : ℕ} (hsize : 0 < batchSize) :
    outcome calculateScore getUnmergeKey source log batchSize =
      some (stateAfter calculateScore getUnmergeKey source (pages batchSize log.events)) := by
  have hsorted : (([] : List (List Event)).flatten ++ log.events).Pairwise Event.Precedes :=
    log.sorted
  have hrun := runTasks_stateAfter calculateScore getUnmergeKey source hsize hsorted
    (Nat.lt_succ_self log.events.length)
  rwa [stateAfter_nil] at hrun

theorem countsEvents_stateAfter (batches : List (List Event)) :
    CountsEvents getUnmergeKey batches.flatten
      (stateAfter calculateScore getUnmergeKey source batches) := by
  have hreceived {events : List Event} (hevents : events ≠ []) :
      ∃ group, groupOf calculateScore source events = some group ∧
        group.timesSeen = events.length := by
    cases events using reverseRecOn with
    | nil => exact absurd rfl hevents
    | append_singleton events event =>
      have hgroup := groupOf_concat calculateScore source events event
      exact ⟨_, hgroup, timesSeen_groupOf calculateScore hgroup⟩
  constructor
  · intro hevents
    obtain ⟨group, hgroup, hseen⟩ := hreceived hevents
    show ((groupOf calculateScore source _).getD source).timesSeen = _
    rw [hgroup, getD_some, hseen]
  · intro key hevents
    exact hreceived hevents

end Outcome

section FirstRelease

variable (getUnmergeKey : Event → Option Str) (pair : Owner × Str)

def batchReleases (batches : List (List Event)) : List Str :=
  batches.filterMap fun batch ↦ (earliest getUnmergeKey pair batch).bind Event.releaseTag

theorem earliest_append (events others : List Event) :
    earliest getUnmergeKey pair (events ++ others) =
      (earliest getUnmergeKey pair others).or (earliest getUnmergeKey pair events) := by
  unfold earliest
  rw [filter_append, getLast?_append]

theorem batchReleases_concat (batches : List (List Event)) (batch : List Event) :
    (batchReleases getUnmergeKey pair (batches ++ [batch])).getLast? =
      ((earliest getUnmergeKey pair batch).bind Event.releaseTag).or
        (batchReleases getUnmergeKey pair batches).getLast? := by
  unfold batchReleases
  cases h : (earliest getUnmergeKey pair batch).bind Event.releaseTag <;> simp [h]

theorem batchReleases_eq_nil_iff (batches : List (List Event)) :
    batchReleases getUnmergeKey pair batches = [] ↔
      ∀ batch ∈ batches, ∀ event ∈ earliest getUnmergeKey pair batch, event.releaseTag = none := by
  rw [batchReleases, filterMap_eq_nil_iff]
  refine forall₂_congr fun batch _ ↦ ?_
  cases earliest getUnmergeKey pair batch <;> simp

theorem batchReleases_of_earliest_eq_none {batches : List (List Event)}
    (h : earliest getUnmergeKey pair batches.flatten = none) :
    batchReleases getUnmergeKey pair batches = [] := by
  refine (batchReleases_eq_nil_iff getUnmergeKey pair batches).mpr ?_
  intro batch hbatch event hevent
  have hin : event ∈
      batches.flatten.filter fun event ↦ environmentKey getUnmergeKey event = pair := by
    obtain ⟨hin, hpair⟩ := mem_filter.mp (mem_of_getLast? hevent)
    exact mem_filter.mpr ⟨mem_flatten_of_mem hbatch hin, hpair⟩
  rw [getLast?_eq_none_iff.mp h] at hin
  cases hin

theorem environmentRows_apply (batches : List (List Event)) :
    environmentRows getUnmergeKey batches pair =
      (earliest getUnmergeKey pair batches.flatten).map fun _ ↦
        (batchReleases getUnmergeKey pair batches).getLast? := by
  induction batches using reverseRecOn with
  | nil => rfl
  | append_singleton batches batch ih =>
    have hrow : environmentRows getUnmergeKey (batches ++ [batch]) pair =
        environmentRow getUnmergeKey pair (environmentRows getUnmergeKey batches pair) batch :=
      foldl_concat ..
    rw [hrow, ih, batchReleases_concat, flatten_append, flatten_singleton,
      earliest_append, environmentRow]
    cases hbatch : earliest getUnmergeKey pair batch with
    | none => rfl
    | some event =>
      cases hbefore : earliest getUnmergeKey pair batches.flatten with
      | none =>
        rw [batchReleases_of_earliest_eq_none getUnmergeKey pair hbefore]
        rfl
      | some other => rfl

theorem getLast?_batchReleases {batches : List (List Event)} {event : Event}
    (hevent : earliest getUnmergeKey pair batches.flatten = some event) {release : Str}
    (hrelease : event.releaseTag = some release) :
    (batchReleases getUnmergeKey pair batches).getLast? = some release := by
  induction batches using reverseRecOn with
  | nil => cases hevent
  | append_singleton batches batch ih =>
    rw [flatten_append, flatten_singleton, earliest_append] at hevent
    rw [batchReleases_concat]
    cases hbatch : earliest getUnmergeKey pair batch with
    | none =>
      rw [hbatch, none_or] at hevent
      rw [bind_none, none_or, ih hevent]
    | some other =>
      rw [hbatch, some_or, Option.some.injEq] at hevent
      rw [hevent, bind_some, hrelease, some_or]

theorem environmentRows_eq_iff (batches : List (List Event)) :
    environmentRows getUnmergeKey batches pair =
        (earliest getUnmergeKey pair batches.flatten).map Event.releaseTag ↔
      ∀ event ∈ earliest getUnmergeKey pair batches.flatten, event.releaseTag = none →
        ∀ batch ∈ batches, ∀ other ∈ earliest getUnmergeKey pair batch,
          other.releaseTag = none := by
  rw [environmentRows_apply, ← batchReleases_eq_nil_iff]
  cases hevent : earliest getUnmergeKey pair batches.flatten with
  | none => simp
  | some event =>
    simp only [map_some, Option.some.injEq, mem_some_iff, forall_eq']
    cases hrelease : event.releaseTag with
    | none => simp [getLast?_eq_none_iff]
    | some release => simp [getLast?_batchReleases getUnmergeKey pair hevent hrelease]

end FirstRelease

section Main

variable (calculateScore : ℕ → ℤ → ℚ) (getUnmergeKey : Event → Option Str) (source : Group)

theorem environmentRows_whole {events : List Event} {whole : ℕ} (hpos : 0 < whole)
    (hwhole : events.length ≤ whole) (pair : Owner × Str) :
    environmentRows getUnmergeKey (pages whole events) pair =
      (earliest getUnmergeKey pair events).map Event.releaseTag := by
  by_cases hevents : events = []
  · subst hevents
    rw [pages_nil]
    rfl
  · rw [pages_of_ne_nil hpos hevents, take_of_length_le hwhole,
      drop_eq_nil_of_le hwhole, pages_nil, environmentRows_apply]
    cases hevent : earliest getUnmergeKey pair events with
    | none => simp [hevent]
    | some event => simp [hevent, batchReleases]

/-- The batch size does not matter exactly where the earliest event with a group and environment
decides. -/
theorem batchSizeIrrelevant_iff (log : EventLog) {batchSize : ℕ} (hsize : 0 < batchSize) :
    BatchSizeIrrelevant calculateScore getUnmergeKey source log batchSize ↔
      EarliestDecides getUnmergeKey log.events batchSize := by
  have hflatten {size : ℕ} (hsize : 0 < size) : (pages size log.events).flatten = log.events :=
    flatten_pages hsize log.events
  have hrows (pair : Owner × Str) :=
    environmentRows_eq_iff getUnmergeKey pair (pages batchSize log.events)
  rw [hflatten hsize] at hrows
  constructor
  · intro ⟨state, hstate, _, _, hwhole⟩ pair
    have hsingle := hwhole (log.events.length + 1) (Nat.succ_pos _) (Nat.le_succ _)
    rw [outcome_eq calculateScore getUnmergeKey source log hsize] at hstate
    rw [outcome_eq calculateScore getUnmergeKey source log (Nat.succ_pos _), ← hstate,
      Option.some.injEq] at hsingle
    have hrow := congrFun (congrArg State.groupEnvironments hsingle) pair
    refine (hrows pair).mp (hrow.symm.trans ?_)
    exact environmentRows_whole getUnmergeKey (Nat.succ_pos _) (Nat.le_succ _) pair
  · intro hdecides
    refine ⟨_, outcome_eq calculateScore getUnmergeKey source log hsize, hflatten hsize, ?_, ?_⟩
    · have hcounts := countsEvents_stateAfter calculateScore getUnmergeKey source
        (pages batchSize log.events)
      rwa [hflatten hsize] at hcounts
    · intro whole hpos hwhole
      rw [outcome_eq calculateScore getUnmergeKey source log hpos, stateAfter, stateAfter,
        hflatten hpos, hflatten hsize,
        funext fun pair ↦ (environmentRows_whole getUnmergeKey hpos hwhole pair).trans
          ((hrows pair).mpr (hdecides pair)).symm]

end Main

def productionEvent (timestamp : ℤ) (release : Option Str) : Event where
  timestamp := timestamp
  eventId := 0
  environment := some "production".toList
  release := release
  platform := some "python".toList
  logger := none
  level := none
  searchMessage := []
  culprit := []
  type := "default".toList
  metadata := []
  received := none

/-- An event with a release, and an older one without. -/
def releasedLater : EventLog where
  events := [productionEvent 2 (some "1.0".toList), productionEvent 1 none]
  sorted := by
    refine pairwise_pair.mpr (Or.inl ?_)
    show (1 : ℤ) < 2
    decide

/-- The attributes of the source before it is unmerged. -/
def someSource : Group := initialFields (productionEvent 0 none)
  ⟨[], ⟨0, [], []⟩, 0, 40, [], 0, 0, none, none, none, none, none, none, none⟩

def productionRelease (state : State) : Option (Option Str) :=
  state.groupEnvironments (none, "production".toList)

/-- In one batch the older event leaves no release, and in two batches that of the newer stays. -/
theorem releasedLater_not_batchSizeIrrelevant :
    ¬ BatchSizeIrrelevant (fun _ _ ↦ 0) (fun _ ↦ none) someSource releasedLater 1 := by
  intro ⟨state, hstate, _, _, hwhole⟩
  have hsingle := hwhole 2 (by decide) (by decide)
  have hrows : (outcome (fun _ _ ↦ 0) (fun _ ↦ none) someSource releasedLater 1).map
        productionRelease =
      (outcome (fun _ _ ↦ 0) (fun _ ↦ none) someSource releasedLater 2).map productionRelease := by
    rw [hstate, hsingle]
  revert hrows
  decide

theorem batchSizeIrrelevant_iff_releasedLater :
    BatchSizeIrrelevant (fun _ _ ↦ 0) (fun _ ↦ none) someSource releasedLater 2 ↔
      EarliestDecides (fun _ ↦ none) releasedLater.events 2 :=
  batchSizeIrrelevant_iff (fun _ _ ↦ 0) (fun _ ↦ none) someSource releasedLater (by decide)

end Sentry.Tasks
