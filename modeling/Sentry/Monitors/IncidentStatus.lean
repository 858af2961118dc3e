import Sentry.Library.Machine
import Mathlib.Data.List.Sort

/-!
# Monitor status and incidents

`mark_ok.py` and `mark_failed.py`, for one monitor environment: its row, its incidents, and the
occurrences produced for it. The status `ERROR` is a denormalization of the fact that an incident
without a resolving check-in exists (`Agree`). Every call brings the check-in rows as they are at
that time; it returns the rows it leaves behind, since an exception keeps what is saved.

`mark_ok` resolves the incident first, and a check-in that is older than the last one then leaves
the status at `ERROR`. The status and the incidents agree after every call of a run if and only if
none resolves an incident in vain (`forall_agree_iff_everyStep`).
-/

namespace Sentry.Monitors

open Library List

inductive MonitorStatus
  | active
  | disabled
  | pendingDeletion
  | deletionInProgress
  | ok
  | error
  deriving DecidableEq

inductive CheckInStatus
  | unknown
  | ok
  | error
  | inProgress
  | missed
  | timeout
  deriving DecidableEq

/-- A row of `MonitorCheckIn`. -/
structure MonitorCheckIn where
  id : ℕ
  dateAdded : ℤ
  status : CheckInStatus
  deriving DecidableEq

/-- A row of `MonitorIncident`. The incident is open while it has no resolving check-in. -/
structure MonitorIncident where
  startingCheckinId : ℕ
  startingTimestamp : ℤ
  resolvingCheckin : Option ℕ
  resolvingTimestamp : Option ℤ
  deriving DecidableEq

/-- The row of the monitor environment. -/
structure MonitorEnvironment where
  status : MonitorStatus
  lastCheckin : Option ℤ
  nextCheckin : Option ℤ
  nextCheckinLatest : Option ℤ
  deriving DecidableEq

/-- The monitor: the thresholds of its config, and the expected check-in times its schedule gives
for a reference time. -/
structure Monitor where
  recoveryThreshold : Option ℕ
  failureIssueThreshold : Option ℕ
  getNextExpectedCheckin : ℤ → ℤ
  getNextExpectedCheckinLatest : ℤ → ℤ

/-- The rows of one environment, and the check-ins an issue occurrence was produced for. -/
structure MonitorState where
  environment : MonitorEnvironment
  incidents : List MonitorIncident
  occurrences : List ℕ
  deriving DecidableEq

/-- A check-in handed over with a reference time, and the check-in rows of the environment at that
time. The check-in is one of them. -/
structure MarkCall where
  checkin : MonitorCheckIn
  ts : ℤ
  checkins : List MonitorCheckIn
  isMuted : Bool
  mem : checkin ∈ checkins

/-- What a call can raise. -/
inductive MarkError
  | multipleObjectsReturned
  | cannotUseNoneAsQueryValue
  | indexError
  deriving DecidableEq

def thresholdOrOne : Option ℕ → ℕ
  | none | some 0 => 1
  | some threshold => threshold

/-- `order_by("-date_added")`. -/
def orderByDateAddedDesc (checkins : List MonitorCheckIn) : List MonitorCheckIn :=
  checkins.insertionSort fun first second ↦ second.dateAdded ≤ first.dateAdded

namespace MonitorState

/-- The incidents without a resolving check-in. -/
def openIncidents (s : MonitorState) : List MonitorIncident :=
  s.incidents.filter fun incident ↦ incident.resolvingCheckin = none

def activeIncident (s : MonitorState) : Except MarkError (Option MonitorIncident) :=
  match s.openIncidents with
  | [] => .ok none
  | [incident] => .ok (some incident)
  | _ => .error .multipleObjectsReturned

def resolveIncident (s : MonitorState) (checkin : MonitorCheckIn) : MonitorState :=
  { s with incidents := s.incidents.map fun incident ↦
      if incident.resolvingCheckin = none then
        { incident with
          resolvingCheckin := some checkin.id, resolvingTimestamp := some checkin.dateAdded }
      else incident }

def setStatus (s : MonitorState) (status : MonitorStatus) : MonitorState :=
  { s with environment := { s.environment with status := status } }

def createIncident (s : MonitorState) (starting : MonitorCheckIn) : MonitorState :=
  { s with incidents := s.incidents ++ [⟨starting.id, starting.dateAdded, none, none⟩] }

def createOccurrences (s : MonitorState) (call : MarkCall) (previous : List MonitorCheckIn) :
    MonitorState :=
  if call.isMuted then s
  else
    { s with occurrences := s.occurrences ++
        (call.checkins.filter fun checkin ↦ checkin.id ∈ previous.map (·.id)).map (·.id) }

end MonitorState

def IncidentRecovering (monitor : Monitor) (s : MonitorState) (call : MarkCall) : Prop :=
  s.environment.status ≠ .ok ∧ call.checkin.status = .ok ∧
    (1 < thresholdOrOne monitor.recoveryThreshold →
      ∀ previous ∈ (orderByDateAddedDesc call.checkins).take
        (thresholdOrOne monitor.recoveryThreshold), previous.status = .ok)

instance (monitor : Monitor) (s : MonitorState) (call : MarkCall) :
    Decidable (IncidentRecovering monitor s call) :=
  inferInstanceAs (Decidable (_ ∧ _ ∧ (_ → _)))

/-- A check-in after the reference time has been recorded: `last_checkin > ts`. -/
def HasNewerCheckin (s : MonitorState) (ts : ℤ) : Prop :=
  ∃ last ∈ s.environment.lastCheckin, ts < last

instance (s : MonitorState) (ts : ℤ) : Decidable (HasNewerCheckin s ts) :=
  inferInstanceAs (Decidable (∃ last ∈ s.environment.lastCheckin, ts < last))

/-- The update at the end of `mark_ok`, of an environment whose last check-in is not after `ts`. -/
def updateEnvironment (monitor : Monitor) (s : MonitorState) (call : MarkCall)
    (status : Option MonitorStatus) : MonitorState :=
  if HasNewerCheckin s call.ts then s
  else
    { s with environment :=
        { status := status.getD s.environment.status
          lastCheckin := some call.checkin.dateAdded
          nextCheckin := some (monitor.getNextExpectedCheckin call.ts)
          nextCheckinLatest := some (monitor.getNextExpectedCheckinLatest call.ts) } }

def markOk (monitor : Monitor) (s : MonitorState) (call : MarkCall) :
    MonitorState × Except MarkError Unit :=
  if IncidentRecovering monitor s call then
    match s.activeIncident with
    | .error e => (s, .error e)
    | .ok none => (updateEnvironment monitor s call (some .ok), .ok ())
    -- the incident is resolved before the update that may not match
    | .ok (some _) =>
      (updateEnvironment monitor (s.resolveIncident call.checkin) call (some .ok), .ok ())
  else (updateEnvironment monitor s call none, .ok ())

/-- The check-ins that decide whether a failure opens an incident, oldest first. -/
def previousCheckins (call : MarkCall) (failureIssueThreshold : ℕ) : List MonitorCheckIn :=
  if failureIssueThreshold = 1 then [call.checkin]
  else ((orderByDateAddedDesc (call.checkins.filter fun checkin ↦
    checkin.dateAdded ≤ call.checkin.dateAdded)).take failureIssueThreshold).reverse

/-- The branch of `mark_failed_threshold` for an environment that was not failing: the status is
saved, and the incident without a resolving check-in is fetched or created. -/
def startFailing (s : MonitorState) (call : MarkCall) (failureIssueThreshold : ℕ) :
    MonitorState × Except MarkError Bool :=
  let previous := previousCheckins call failureIssueThreshold
  -- a successful check-in within the threshold: not an incident state
  if failureIssueThreshold ≠ 1 ∧ ∃ checkin ∈ previous, checkin.status = .ok then (s, .ok false)
  else
    let failing := s.setStatus .error
    match previous.head? with
    | none => (failing, .error .indexError)
    | some starting =>
      match failing.activeIncident with
      | .error e => (failing, .error e)
      | .ok (some _) => (failing.createOccurrences call previous, .ok true)
      | .ok none => ((failing.createIncident starting).createOccurrences call previous, .ok true)

def markFailedThreshold (s : MonitorState) (call : MarkCall) (failureIssueThreshold : ℕ) :
    MonitorState × Except MarkError Bool :=
  match s.environment.status with
  | .ok | .active => startFailing s call failureIssueThreshold
  | .error =>
    match s.activeIncident with
    | .error e => (s, .error e)
    | .ok (some _) => (s.createOccurrences call [call.checkin], .ok true)
    -- without an incident nothing is produced
    | .ok none => (s, .ok true)
  | _ => (s, .ok false)

/-- `mark_failed`. A synthetic missed check-in does not move the last check-in forward. -/
def markFailed (monitor : Monitor) (s : MonitorState) (call : MarkCall) :
    MonitorState × Except MarkError Bool :=
  let lastCheckin :=
    if call.checkin.status = .missed then s.environment.lastCheckin
    else some call.checkin.dateAdded
  match lastCheckin with
  -- `last_checkin__lte=None`
  | none => (s, .error .cannotUseNoneAsQueryValue)
  | some last =>
    if HasNewerCheckin s last then (s, .ok false)
    else
      markFailedThreshold
        { s with environment :=
            { s.environment with
              lastCheckin := some last
              nextCheckin := some (monitor.getNextExpectedCheckin call.ts)
              nextCheckinLatest := some (monitor.getNextExpectedCheckinLatest call.ts) } }
        call (thresholdOrOne monitor.failureIssueThreshold)

/-- A check-in is handed to one of the two functions. -/
inductive MarkEvent
  | markOk (call : MarkCall)
  | markFailed (call : MarkCall)

/-- An environment that has just been created, and the calls for it. -/
def marking (monitor : Monitor) : Machine MonitorState MarkEvent where
  init := ⟨⟨.active, none, none, none⟩, [], []⟩
  step s
    | .markOk call => (markOk monitor s call).1
    | .markFailed call => (markFailed monitor s call).1

/-- The environment has status `ERROR` exactly when it has an open incident, and never has two. -/
def Agree (s : MonitorState) : Prop :=
  (s.environment.status = .error ↔ s.openIncidents ≠ []) ∧ s.openIncidents.length ≤ 1

instance (s : MonitorState) : Decidable (Agree s) :=
  inferInstanceAs (Decidable (((_ ↔ _) : Prop) ∧ _))

/-- A call of `mark_ok` resolves an open incident although the environment has a check-in after its
reference time, so that its update does not match. -/
def ResolvesInVain (monitor : Monitor) (s : MonitorState) (call : MarkCall) : Prop :=
  IncidentRecovering monitor s call ∧ s.openIncidents ≠ [] ∧ HasNewerCheckin s call.ts

instance (monitor : Monitor) (s : MonitorState) (call : MarkCall) :
    Decidable (ResolvesInVain monitor s call) :=
  inferInstanceAs (Decidable (_ ∧ _ ∧ _))

/-- The condition on a step: a call of `mark_ok` does not resolve an incident in vain. -/
def ResolvesInTime (monitor : Monitor) (s : MonitorState) : MarkEvent → Prop
  | .markOk call => ¬ ResolvesInVain monitor s call
  | .markFailed _ => True

@[simp] theorem openIncidents_setStatus (s : MonitorState) (status : MonitorStatus) :
    (s.setStatus status).openIncidents = s.openIncidents := rfl

@[simp] theorem openIncidents_createOccurrences (s : MonitorState) (call : MarkCall)
    (previous : List MonitorCheckIn) :
    (s.createOccurrences call previous).openIncidents = s.openIncidents := by
  unfold MonitorState.createOccurrences
  split_ifs <;> rfl

@[simp] theorem environment_createOccurrences (s : MonitorState) (call : MarkCall)
    (previous : List MonitorCheckIn) :
    (s.createOccurrences call previous).environment = s.environment := by
  unfold MonitorState.createOccurrences
  split_ifs <;> rfl

@[simp] theorem openIncidents_createIncident (s : MonitorState) (starting : MonitorCheckIn) :
    (s.createIncident starting).openIncidents =
      s.openIncidents ++ [⟨starting.id, starting.dateAdded, none, none⟩] := by
  simp [MonitorState.openIncidents, MonitorState.createIncident]

@[simp] theorem openIncidents_resolveIncident (s : MonitorState) (checkin : MonitorCheckIn) :
    (s.resolveIncident checkin).openIncidents = [] := by
  rw [MonitorState.openIncidents, MonitorState.resolveIncident, filter_eq_nil_iff]
  intro incident hincident
  obtain ⟨row, -, rfl⟩ := mem_map.mp hincident
  split_ifs with hopen
  · simp
  · simpa using hopen

@[simp] theorem openIncidents_updateEnvironment (monitor : Monitor) (s : MonitorState)
    (call : MarkCall) (status : Option MonitorStatus) :
    (updateEnvironment monitor s call status).openIncidents = s.openIncidents := by
  unfold updateEnvironment
  split_ifs <;> rfl

theorem status_updateEnvironment (monitor : Monitor) (s : MonitorState) (call : MarkCall)
    (status : Option MonitorStatus) : (updateEnvironment monitor s call status).environment.status =
      if HasNewerCheckin s call.ts then s.environment.status
      else status.getD s.environment.status := by
  unfold updateEnvironment
  split_ifs <;> rfl

/-- With at most one open incident, `active_incident` is that incident. -/
theorem activeIncident_eq {s : MonitorState} (h : s.openIncidents.length ≤ 1) :
    s.activeIncident = .ok s.openIncidents.head? := by
  unfold MonitorState.activeIncident
  rcases hopen : s.openIncidents with _ | ⟨incident, rest⟩
  · rfl
  · rw [hopen] at h
    have hrest : rest = [] := length_eq_zero_iff.mp (by simpa using h)
    subst hrest
    rfl

/-- From rows that agree, `mark_ok` leaves rows that agree exactly when it does not resolve an
incident in vain. -/
theorem agree_markOk_iff (monitor : Monitor) (s : MonitorState) (call : MarkCall) (h : Agree s) :
    Agree (markOk monitor s call).1 ↔ ¬ ResolvesInVain monitor s call := by
  obtain ⟨hstatus, hone⟩ := h
  unfold markOk
  by_cases hrecovering : IncidentRecovering monitor s call
  · rw [if_pos hrecovering, activeIncident_eq hone]
    rcases hopen : s.openIncidents with _ | ⟨incident, rest⟩
    · have hvain : ¬ ResolvesInVain monitor s call := fun hvain ↦ hvain.2.1 hopen
      have hnot : s.environment.status ≠ .error := fun herror ↦ hstatus.mp herror hopen
      simp only [head?_nil, Agree, openIncidents_updateEnvironment, status_updateEnvironment,
        hopen, hvain, not_false_eq_true, iff_true]
      split_ifs <;> simp [hnot]
    · have herror : s.environment.status = .error := hstatus.mpr (by simp [hopen])
      have hvain : ResolvesInVain monitor s call ↔ HasNewerCheckin s call.ts := by
        simp [ResolvesInVain, hrecovering, hopen]
      have hnewer : HasNewerCheckin (s.resolveIncident call.checkin) call.ts ↔
          HasNewerCheckin s call.ts := Iff.rfl
      have hsame : (s.resolveIncident call.checkin).environment.status = .error := herror
      simp only [head?_cons, Agree, openIncidents_updateEnvironment,
        status_updateEnvironment, openIncidents_resolveIncident, hvain, hnewer]
      split_ifs with hlate <;> simp [hlate, hsame]
  · have hvain : ¬ ResolvesInVain monitor s call := fun hvain ↦ hrecovering hvain.1
    rw [if_neg hrecovering]
    simp only [Agree, openIncidents_updateEnvironment, status_updateEnvironment, hvain,
      not_false_eq_true, iff_true]
    refine ⟨?_, hone⟩
    split_ifs <;> simpa using hstatus

theorem agree_createOccurrences_iff (s : MonitorState) (call : MarkCall)
    (previous : List MonitorCheckIn) : Agree (s.createOccurrences call previous) ↔ Agree s := by
  simp [Agree]

variable {failureIssueThreshold : ℕ}

theorem previousCheckins_ne_nil (call : MarkCall)
    (hpos : 0 < failureIssueThreshold) : previousCheckins call failureIssueThreshold ≠ [] := by
  unfold previousCheckins
  split_ifs
  · simp
  · have hmem : call.checkin ∈ orderByDateAddedDesc (call.checkins.filter fun checkin ↦
        checkin.dateAdded ≤ call.checkin.dateAdded) := by
      rw [orderByDateAddedDesc, mem_insertionSort, mem_filter]
      exact ⟨call.mem, by simp⟩
    intro hnil
    rw [reverse_eq_nil_iff, take_eq_nil_iff] at hnil
    rcases hnil with hzero | hnil
    · omega
    · rw [hnil] at hmem
      simp at hmem

theorem thresholdOrOne_pos (threshold : Option ℕ) : 0 < thresholdOrOne threshold := by
  rcases threshold with _ | _ | threshold <;> simp [thresholdOrOne]

theorem agree_startFailing {s : MonitorState} (h : Agree s) (hopen : s.openIncidents = [])
    (call : MarkCall) (hpos : 0 < failureIssueThreshold) :
    Agree (startFailing s call failureIssueThreshold).1 := by
  unfold startFailing
  dsimp only
  split_ifs with hok
  · exact h
  · obtain ⟨starting, rest, hprevious⟩ :=
      exists_cons_of_ne_nil (previousCheckins_ne_nil call hpos)
    have hnone : (s.setStatus .error).activeIncident = .ok none := by
      rw [activeIncident_eq (by rw [openIncidents_setStatus, hopen]; exact Nat.zero_le 1),
        openIncidents_setStatus, hopen]
      rfl
    simp only [hprevious, head?_cons, hnone]
    rw [agree_createOccurrences_iff, Agree, openIncidents_createIncident, openIncidents_setStatus,
      hopen]
    exact ⟨⟨fun _ ↦ by simp, fun _ ↦ rfl⟩, by simp⟩

theorem agree_markFailedThreshold {s : MonitorState} (h : Agree s) (call : MarkCall)
    (hpos : 0 < failureIssueThreshold) :
    Agree (markFailedThreshold s call failureIssueThreshold).1 := by
  have hopen (hnot : s.environment.status ≠ .error) : s.openIncidents = [] := by
    by_contra hopen
    exact hnot (h.1.mpr hopen)
  unfold markFailedThreshold
  cases hstatus : s.environment.status with
  | ok | active => exact agree_startFailing h (hopen (by rw [hstatus]; decide)) call hpos
  | error =>
    simp only [activeIncident_eq h.2]
    cases s.openIncidents.head? with
    | none => exact h
    | some incident => exact (agree_createOccurrences_iff s call _).mpr h
  | disabled | pendingDeletion | deletionInProgress => exact h

/-- From rows that agree, `mark_failed` leaves rows that agree. -/
theorem agree_markFailed (monitor : Monitor) (s : MonitorState) (call : MarkCall) (h : Agree s) :
    Agree (markFailed monitor s call).1 := by
  unfold markFailed
  dsimp only
  split
  · exact h
  · split_ifs
    · exact h
    · refine agree_markFailedThreshold ?_ call (thresholdOrOne_pos _)
      exact h

theorem agree_init (monitor : Monitor) : Agree (marking monitor).init := by
  refine ⟨⟨fun h ↦ ?_, fun h ↦ absurd rfl h⟩, Nat.zero_le 1⟩
  exact MonitorStatus.noConfusion h

theorem agree_step_iff (monitor : Monitor) (s : MonitorState) (event : MarkEvent) (h : Agree s) :
    Agree ((marking monitor).step s event) ↔ ResolvesInTime monitor s event := by
  cases event with
  | markOk call => exact agree_markOk_iff monitor s call h
  | markFailed call => exact iff_of_true (agree_markFailed monitor s call h) trivial

/-- The status and the incidents agree after every call of a run if and only if no call of the run
resolves an incident in vain. -/
theorem forall_agree_iff_everyStep (monitor : Monitor) (events : List MarkEvent) :
    (∀ first, first <+: events → Agree ((marking monitor).run first)) ↔
      (marking monitor).EveryStep (ResolvesInTime monitor) (marking monitor).init events :=
  (marking monitor).forall_prefix_iff_everyStep (agree_step_iff monitor) (agree_init monitor) events

/-- A monitor without thresholds, on a schedule of one minute. -/
def everyMinute : Monitor := ⟨none, none, fun ts ↦ ts + 60, fun ts ↦ ts + 120⟩

/-- A failure at minute 2, and after it an OK check-in of minute 1 that arrives late. -/
def lateOkRun : List MarkEvent :=
  [.markFailed ⟨⟨2, 120, .error⟩, 120, [⟨2, 120, .error⟩], false, by decide⟩,
    .markOk ⟨⟨1, 60, .ok⟩, 60, [⟨2, 120, .error⟩, ⟨1, 60, .ok⟩], false, by decide⟩]

/-- The late check-in resolves the incident, and the environment keeps the status `ERROR`. -/
theorem lateOk_run : ((marking everyMinute).run lateOkRun).environment.status = .error ∧
      ((marking everyMinute).run lateOkRun).openIncidents = [] ∧
        ¬ Agree ((marking everyMinute).run lateOkRun) := by
  decide

end Sentry.Monitors
