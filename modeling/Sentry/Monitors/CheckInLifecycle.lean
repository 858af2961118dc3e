import Sentry.Monitors.IncidentStatus
import Sentry.Monitors.Schedule

/-!
# The life of a check-in

`update_existing_check_in` of `monitor_consumer.py` and `check_timeout.py`. A check-in is updated by
the messages of its job and by timeout tasks, processed at any time later. The guard of the messages
lets one without a completion through to a timed-out check-in, and that of the task lets it through
to a completed one. The status is final in a run exactly if neither happens in it; a completion of a
timed-out check-in changes more than its duration (`final_iff`).
-/

namespace Sentry.Monitors

open Library

/-- `CheckInStatus.USER_TERMINAL_VALUES`. -/
def CheckInStatus.UserTerminal (status : CheckInStatus) : Prop := status = .ok ∨ status = .error

instance (status : CheckInStatus) : Decidable status.UserTerminal :=
  inferInstanceAs (Decidable (_ ∨ _))

/-- The columns of a check-in that are read or written. Times are in microseconds, and the duration
is in milliseconds. -/
structure StoredCheckIn extends MonitorCheckIn where
  guid : ℕ
  projectId : ℕ
  monitorId : ℕ
  monitorEnvironmentId : Option ℕ
  duration : Option ℤ
  dateUpdated : ℤ
  timeoutAt : Option ℤ
  deriving DecidableEq

/-- A message of a job, for a check-in of an environment. -/
structure CheckInMessage where
  projectId : ℕ
  monitorId : ℕ
  monitorEnvironmentId : ℕ
  startTime : ℤ
  status : CheckInStatus
  duration : Option ℤ
  deriving DecidableEq

inductive ProcessingError
  | checkinGuidProjectMismatch (guid : ℕ)
  | checkinFinished
  | checkinInvalidDuration (duration : ℤ)
  deriving DecidableEq

/-- `BoundedPositiveIntegerField.MAX_VALUE`. -/
def maxDuration : ℤ := 2147483647

def validDuration (duration : ℤ) : Bool :=
  ¬ (duration ≠ 0 ∧ (duration < 0 ∨ maxDuration < duration))

/-- What messages are processed with: the maximal runtime of the validated config in minutes, and
`int(timedelta.total_seconds() * 1000)`, which is computed with floats. -/
structure CheckInConfig where
  maxRuntime : Option ℤ
  milliseconds : ℤ → ℤ

def defaultTimeout : ℤ := 30

def maxTimeout : ℤ := 40320

def getMaxRuntime (maxRuntime : Option ℤ) : ℤ :=
  min (if maxRuntime.getD 0 = 0 then defaultTimeout else maxRuntime.getD 0) maxTimeout * minute

def getNewTimeoutAt (config : CheckInConfig) (status : CheckInStatus) (dateUpdated : ℤ) :
    Option ℤ :=
  if status = .inProgress then some (clampToMinute dateUpdated + getMaxRuntime config.maxRuntime)
  else none

def updatedDuration (config : CheckInConfig) (row : StoredCheckIn) (message : CheckInMessage) : ℤ :=
  message.duration.getD |config.milliseconds (message.startTime - row.dateAdded)|

def Mismatched (row : StoredCheckIn) (message : CheckInMessage) : Prop :=
  row.projectId ≠ message.projectId ∨ row.monitorId ≠ message.monitorId ∨
    row.monitorEnvironmentId ≠ some message.monitorEnvironmentId

instance (row : StoredCheckIn) (message : CheckInMessage) : Decidable (Mismatched row message) :=
  inferInstanceAs (Decidable (_ ∨ _ ∨ _))

def UpdatedDurationOnly (row : StoredCheckIn) (message : CheckInMessage) : Prop :=
  row.status = .timeout ∧ message.status.UserTerminal

instance (row : StoredCheckIn) (message : CheckInMessage) :
    Decidable (UpdatedDurationOnly row message) :=
  inferInstanceAs (Decidable (_ ∧ _))

def AlreadyFinished (row : StoredCheckIn) (message : CheckInMessage) : Prop :=
  row.status.UserTerminal ∧ ¬ UpdatedDurationOnly row message

instance (row : StoredCheckIn) (message : CheckInMessage) :
    Decidable (AlreadyFinished row message) :=
  inferInstanceAs (Decidable (_ ∧ _))

def processingErrors (config : CheckInConfig) (row : StoredCheckIn) (message : CheckInMessage) :
    List ProcessingError :=
  (if Mismatched row message then [.checkinGuidProjectMismatch row.guid] else []) ++
    (if AlreadyFinished row message then [.checkinFinished] else []) ++
    if validDuration (updatedDuration config row message) then []
    else [.checkinInvalidDuration (updatedDuration config row message)]

/-- `update_existing_check_in`: the row that is left, or the errors that are raised. -/
def updateExistingCheckIn (config : CheckInConfig) (row : StoredCheckIn)
    (message : CheckInMessage) : Except (List ProcessingError) StoredCheckIn :=
  -- a heartbeat that comes after the completion is ignored
  if AlreadyFinished row message ∧ message.status = .inProgress then .ok row
  else
    match processingErrors config row message with
    | error :: errors => .error (error :: errors)
    | [] =>
      .ok { row with
        status := if UpdatedDurationOnly row message then row.status else message.status
        duration := some (updatedDuration config row message)
        timeoutAt := getNewTimeoutAt config message.status message.startTime
        dateUpdated :=
          if message.status = .inProgress then message.startTime else row.dateUpdated }

/-- The query of `dispatch_check_timeout` finds the check-in. -/
def TimedOut (row : StoredCheckIn) (ts : ℤ) : Prop :=
  row.status = .inProgress ∧ ∃ timeoutAt ∈ row.timeoutAt, timeoutAt ≤ ts

instance (row : StoredCheckIn) (ts : ℤ) : Decidable (TimedOut row ts) :=
  inferInstanceAs (Decidable (_ ∧ ∃ timeoutAt ∈ row.timeoutAt, timeoutAt ≤ ts))

/-- `mark_checkin_timeout`, as far as the check-in is concerned. -/
def markCheckinTimeout (row : StoredCheckIn) : StoredCheckIn :=
  if row.monitorEnvironmentId = none ∨ row.status = .timeout then row
  else { row with status := .timeout }

/-- A check-in, and the times of the timeout tasks that were dispatched for it and are not processed
yet. -/
structure CheckInState where
  row : StoredCheckIn
  tasks : List ℤ

/-- A message is processed; timeouts are dispatched at a time, where the limit of the query may
leave the check-in out; a task is processed. -/
inductive CheckInEvent
  | message (message : CheckInMessage)
  | dispatchCheckTimeout (ts : ℤ) (withinLimit : Bool)
  | markTimeout (ts : ℤ)

def checkInStep (config : CheckInConfig) (s : CheckInState) : CheckInEvent → CheckInState
  | .message message =>
    match updateExistingCheckIn config s.row message with
    | .ok row => { s with row := row }
    | .error _ => s
  | .dispatchCheckTimeout ts withinLimit =>
    if withinLimit ∧ TimedOut s.row ts then { s with tasks := s.tasks ++ [ts] } else s
  | .markTimeout ts =>
    if ts ∈ s.tasks then ⟨markCheckinTimeout s.row, s.tasks.erase ts⟩ else s

/-- A check-in, and what happens to it. -/
def checkInLifecycle (config : CheckInConfig) (s : CheckInState) :
    Machine CheckInState CheckInEvent :=
  ⟨s, checkInStep config⟩

/-- A status that was completed or has timed out is kept. -/
def KeepsStatus (s s' : CheckInState) : Prop :=
  s.row.status.UserTerminal ∨ s.row.status = .timeout → s'.row.status = s.row.status

/-- A completed status is kept, and all of a timed-out check-in but its duration. -/
def KeepsAllButDuration (s s' : CheckInState) : Prop :=
  (s.row.status.UserTerminal → s'.row.status = s.row.status) ∧
    (s.row.status = .timeout → s'.row = { s.row with duration := s'.row.duration })

def Accepted (config : CheckInConfig) (row : StoredCheckIn) (message : CheckInMessage) : Prop :=
  ¬ Mismatched row message ∧ validDuration (updatedDuration config row message)

def OverrulesCompletion (s : CheckInState) (ts : ℤ) : Prop :=
  ts ∈ s.tasks ∧ s.row.monitorEnvironmentId ≠ none ∧ s.row.status.UserTerminal

def Reopens (config : CheckInConfig) (s : CheckInState) (message : CheckInMessage) : Prop :=
  s.row.status = .timeout ∧ Accepted config s.row message ∧
    ¬ (message.status.UserTerminal ∨ message.status = .timeout)

def ClearsTimeout (config : CheckInConfig) (s : CheckInState) (message : CheckInMessage) : Prop :=
  s.row.status = .timeout ∧ Accepted config s.row message ∧ s.row.timeoutAt ≠ none

/-- The condition on a step for the status: no completion is overruled, and no timed-out check-in is
reopened. -/
def StatusGuarded (config : CheckInConfig) (s : CheckInState) : CheckInEvent → Prop
  | .message message => ¬ Reopens config s message
  | .dispatchCheckTimeout _ _ => True
  | .markTimeout ts => ¬ OverrulesCompletion s ts

/-- The condition on a step for the whole row: also no time of a timeout is cleared. -/
def RowGuarded (config : CheckInConfig) (s : CheckInState) : CheckInEvent → Prop
  | .message message => ¬ Reopens config s message ∧ ¬ ClearsTimeout config s message
  | .dispatchCheckTimeout _ _ => True
  | .markTimeout ts => ¬ OverrulesCompletion s ts

theorem keepsStatus_refl (s : CheckInState) : KeepsStatus s s := fun _ ↦ rfl

theorem keepsStatus_trans {s t u : CheckInState} (h : KeepsStatus s t) (h' : KeepsStatus t u) :
    KeepsStatus s u := by
  intro hs
  have ht := h hs
  exact (h' (by rwa [ht])).trans ht

theorem keepsAllButDuration_refl (s : CheckInState) : KeepsAllButDuration s s :=
  ⟨fun _ ↦ rfl, fun _ ↦ rfl⟩

theorem keepsAllButDuration_trans {s t u : CheckInState} (h : KeepsAllButDuration s t)
    (h' : KeepsAllButDuration t u) : KeepsAllButDuration s u := by
  constructor
  · intro hs
    have ht := h.1 hs
    exact (h'.1 (by rwa [ht])).trans ht
  · intro hs
    have ht := h.2 hs
    have hstatus : t.row.status = .timeout := by rw [ht]; exact hs
    rw [h'.2 hstatus, ht]

variable {config : CheckInConfig} {s : CheckInState} {row : StoredCheckIn}
  {message : CheckInMessage}

theorem updateExistingCheckIn_of_userTerminal (config : CheckInConfig) (message : CheckInMessage)
    (h : row.status.UserTerminal) :
    updateExistingCheckIn config row message = .ok row ∨
      ∃ errors, updateExistingCheckIn config row message = .error errors := by
  have hfinished : AlreadyFinished row message := by
    refine ⟨h, fun honly ↦ ?_⟩
    rcases h with hok | herror
    · exact absurd (hok.symm.trans honly.1) (by decide)
    · exact absurd (herror.symm.trans honly.1) (by decide)
  unfold updateExistingCheckIn
  by_cases hprogress : message.status = .inProgress
  · exact Or.inl (if_pos ⟨hfinished, hprogress⟩)
  · rw [if_neg fun hboth ↦ hprogress hboth.2]
    cases herrors : processingErrors config row message with
    | nil => simp [processingErrors, hfinished] at herrors
    | cons error errors => exact Or.inr ⟨error :: errors, rfl⟩

theorem processingErrors_eq_nil_iff (h : row.status = .timeout) :
    processingErrors config row message = [] ↔ Accepted config row message := by
  have hfinished : ¬ AlreadyFinished row message := by
    rintro ⟨hok | herror, -⟩
    · exact absurd (hok.symm.trans h) (by decide)
    · exact absurd (herror.symm.trans h) (by decide)
  simp [processingErrors, hfinished, Accepted]

theorem updateExistingCheckIn_of_timeout (config : CheckInConfig) (message : CheckInMessage)
    (h : row.status = .timeout) :
    (¬ Accepted config row message ∧
      ∃ errors, updateExistingCheckIn config row message = .error errors) ∨
    (Accepted config row message ∧ updateExistingCheckIn config row message = .ok { row with
      status := if message.status.UserTerminal then .timeout else message.status
      duration := some (updatedDuration config row message)
      timeoutAt := getNewTimeoutAt config message.status message.startTime
      dateUpdated :=
        if message.status = .inProgress then message.startTime else row.dateUpdated }) := by
  have hfinished : ¬ (AlreadyFinished row message ∧ message.status = .inProgress) := by
    rintro ⟨⟨hok | herror, -⟩, -⟩
    · exact absurd (hok.symm.trans h) (by decide)
    · exact absurd (herror.symm.trans h) (by decide)
  unfold updateExistingCheckIn
  rw [if_neg hfinished]
  cases herrors : processingErrors config row message with
  | cons error errors =>
    refine Or.inl ⟨fun haccepted ↦ ?_, error :: errors, rfl⟩
    rw [← processingErrors_eq_nil_iff h, herrors] at haccepted
    exact absurd haccepted (List.cons_ne_nil _ _)
  | nil =>
    refine Or.inr ⟨(processingErrors_eq_nil_iff h).mp herrors, ?_⟩
    simp [UpdatedDurationOnly, h]

theorem not_userTerminal_of_timeout (h : row.status = .timeout) : ¬ row.status.UserTerminal := by
  rw [h]
  decide

theorem keepsStatus_message_iff :
    KeepsStatus s (checkInStep config s (.message message)) ↔ ¬ Reopens config s message := by
  by_cases htimeout : s.row.status = .timeout
  · rcases updateExistingCheckIn_of_timeout config message htimeout with
      ⟨hnot, errors, herror⟩ | ⟨haccepted, hrow⟩
    · simp only [checkInStep, herror]
      exact iff_of_true (keepsStatus_refl s) fun hreopens ↦ hnot hreopens.2.1
    · simp only [checkInStep, hrow, KeepsStatus, Reopens, htimeout, haccepted, true_and, not_not,
        or_true, forall_const]
      by_cases hterminal : message.status.UserTerminal
      · simp [hterminal]
      · simp [hterminal]
  · refine iff_of_true ?_ fun hreopens ↦ htimeout hreopens.1
    by_cases hterminal : s.row.status.UserTerminal
    · rcases updateExistingCheckIn_of_userTerminal config message
        hterminal with hok | ⟨errors, herror⟩
      · simp only [checkInStep, hok]
        exact keepsStatus_refl s
      · simp only [checkInStep, herror]
        exact keepsStatus_refl s
    · exact fun hfinal ↦ absurd hfinal (not_or.mpr ⟨hterminal, htimeout⟩)

theorem keepsAllButDuration_message_iff :
    KeepsAllButDuration s (checkInStep config s (.message message)) ↔
      ¬ Reopens config s message ∧ ¬ ClearsTimeout config s message := by
  by_cases htimeout : s.row.status = .timeout
  · rcases updateExistingCheckIn_of_timeout config message htimeout with
      ⟨hnot, errors, herror⟩ | ⟨haccepted, hrow⟩
    · simp only [checkInStep, herror]
      exact iff_of_true (keepsAllButDuration_refl s)
        ⟨fun hreopens ↦ hnot hreopens.2.1, fun hclears ↦ hnot hclears.2.1⟩
    · simp only [checkInStep, hrow, KeepsAllButDuration, Reopens, ClearsTimeout, haccepted,
        htimeout, true_and, not_not, forall_const,
        show ¬ CheckInStatus.timeout.UserTerminal by decide, false_implies]
      generalize s.row = row at htimeout ⊢
      obtain ⟨⟨id, dateAdded, status⟩, guid, projectId, monitorId, environmentId, duration,
        dateUpdated, timeoutAt⟩ := row
      obtain rfl : status = .timeout := htimeout
      cases hstatus : message.status <;>
        simp [CheckInStatus.UserTerminal, getNewTimeoutAt, eq_comm]
  · have hguarded : ¬ Reopens config s message ∧ ¬ ClearsTimeout config s message :=
      ⟨fun hreopens ↦ htimeout hreopens.1, fun hclears ↦ htimeout hclears.1⟩
    have hkeeps := keepsStatus_message_iff.mpr hguarded.1
    exact iff_of_true ⟨fun hterminal ↦ hkeeps (Or.inl hterminal), fun h ↦ absurd h htimeout⟩
      hguarded

theorem markTimeout_cases (config : CheckInConfig) (s : CheckInState) (ts : ℤ) :
    (OverrulesCompletion s ts ∧ (checkInStep config s (.markTimeout ts)).row.status = .timeout) ∨
    (¬ OverrulesCompletion s ts ∧
      (s.row.status.UserTerminal ∨ s.row.status = .timeout →
        (checkInStep config s (.markTimeout ts)).row = s.row)) := by
  by_cases htask : ts ∈ s.tasks
  · have hstep : (checkInStep config s (.markTimeout ts)).row = markCheckinTimeout s.row :=
      congrArg CheckInState.row (if_pos htask)
    rw [hstep]
    unfold markCheckinTimeout
    by_cases hkept : s.row.monitorEnvironmentId = none ∨ s.row.status = .timeout
    · rw [if_pos hkept]
      refine Or.inr ⟨?_, fun _ ↦ rfl⟩
      rintro ⟨-, henvironment, hterminal⟩
      rcases hkept with hnone | htimeout
      · exact henvironment hnone
      · exact not_userTerminal_of_timeout htimeout hterminal
    · rw [if_neg hkept]
      obtain ⟨henvironment, htimeout⟩ := not_or.mp hkept
      by_cases hterminal : s.row.status.UserTerminal
      · exact Or.inl ⟨⟨htask, henvironment, hterminal⟩, rfl⟩
      · exact Or.inr ⟨fun hoverrules ↦ hterminal hoverrules.2.2,
          fun hfinal ↦ absurd hfinal (not_or.mpr ⟨hterminal, htimeout⟩)⟩
  · refine Or.inr ⟨fun hoverrules ↦ htask hoverrules.1, fun _ ↦ ?_⟩
    exact congrArg CheckInState.row (if_neg htask)

theorem dispatchCheckTimeout_row (config : CheckInConfig) (s : CheckInState) (ts : ℤ)
    (withinLimit : Bool) :
    (checkInStep config s (.dispatchCheckTimeout ts withinLimit)).row = s.row := by
  show (if _ then _ else _ : CheckInState).row = s.row
  split_ifs <;> rfl

theorem not_timeout_of_overrules {ts : ℤ} (h : OverrulesCompletion s ts) :
    s.row.status ≠ .timeout := fun htimeout ↦ not_userTerminal_of_timeout htimeout h.2.2

theorem keepsStatus_step_iff (s : CheckInState) (event : CheckInEvent) :
    KeepsStatus s (checkInStep config s event) ↔ StatusGuarded config s event := by
  cases event with
  | message message => exact keepsStatus_message_iff
  | dispatchCheckTimeout ts withinLimit =>
    exact iff_of_true
      (fun _ ↦ congrArg (fun row ↦ row.status) (dispatchCheckTimeout_row _ _ ts withinLimit))
      trivial
  | markTimeout ts =>
    rcases markTimeout_cases config s ts with ⟨hoverrules, hstatus⟩ | ⟨hnot, hkept⟩
    · refine iff_of_false (fun hkeeps ↦ ?_) fun hguarded ↦ hguarded hoverrules
      exact not_timeout_of_overrules hoverrules
        ((hkeeps (Or.inl hoverrules.2.2)).symm.trans hstatus)
    · exact iff_of_true (fun hfinal ↦ congrArg (fun row ↦ row.status) (hkept hfinal)) hnot

theorem keepsAllButDuration_step_iff (s : CheckInState) (event : CheckInEvent) :
    KeepsAllButDuration s (checkInStep config s event) ↔ RowGuarded config s event := by
  cases event with
  | message message => exact keepsAllButDuration_message_iff
  | dispatchCheckTimeout ts withinLimit =>
    have hrow := dispatchCheckTimeout_row config s ts withinLimit
    exact iff_of_true ⟨fun _ ↦ congrArg (fun row ↦ row.status) hrow, fun _ ↦ by rw [hrow]⟩ trivial
  | markTimeout ts =>
    rcases markTimeout_cases config s ts with ⟨hoverrules, hstatus⟩ | ⟨hnot, hkept⟩
    · refine iff_of_false (fun hkeeps ↦ ?_) fun hguarded ↦ hguarded hoverrules
      exact not_timeout_of_overrules hoverrules ((hkeeps.1 hoverrules.2.2).symm.trans hstatus)
    · exact iff_of_true ⟨fun hfinal ↦ congrArg (fun row ↦ row.status) (hkept (Or.inl hfinal)),
        fun hfinal ↦ by rw [hkept (Or.inr hfinal)]⟩ hnot

/-- In every run from a check-in in any state, final statuses are kept exactly if no completion is
overruled and no check-in that has timed out is reopened, and of timed-out check-ins nothing but the
duration changes exactly if moreover no time of a timeout is cleared. -/
theorem final_iff (config : CheckInConfig) (s : CheckInState) (events : List CheckInEvent) :
    ((∀ first second, first ++ second <+: events →
        KeepsStatus ((checkInLifecycle config s).run first)
          ((checkInLifecycle config s).run (first ++ second))) ↔
      (checkInLifecycle config s).EveryStep (StatusGuarded config) s events) ∧
    ((∀ first second, first ++ second <+: events →
        KeepsAllButDuration ((checkInLifecycle config s).run first)
          ((checkInLifecycle config s).run (first ++ second))) ↔
      (checkInLifecycle config s).EveryStep (RowGuarded config) s events) := by
  constructor
  · exact ((checkInLifecycle config s).forall_later_iff_everyStep keepsStatus_refl
      (fun _ _ _ ↦ keepsStatus_trans) s events).trans
      (Machine.everyStep_congr _ keepsStatus_step_iff s events)
  · exact ((checkInLifecycle config s).forall_later_iff_everyStep keepsAllButDuration_refl
      (fun _ _ _ ↦ keepsAllButDuration_trans) s events).trans
      (Machine.everyStep_congr _ keepsAllButDuration_step_iff s events)

def openCheckIn : StoredCheckIn :=
  ⟨⟨1, 0, .inProgress⟩, 1, 1, 1, some 1, none, 0, some (30 * minute)⟩

def plainConfig : CheckInConfig := ⟨none, fun microseconds ↦ microseconds / 1000⟩

def overruledEvents : List CheckInEvent :=
  [.dispatchCheckTimeout (30 * minute) true,
    .message ⟨1, 1, 1, 30 * minute, .ok, some 5⟩, .markTimeout (30 * minute)]

theorem not_final :
    ¬ ∀ (config : CheckInConfig) (s : CheckInState) (events first second : List CheckInEvent),
      first ++ second <+: events → KeepsStatus ((checkInLifecycle config s).run first)
        ((checkInLifecycle config s).run (first ++ second)) := by
  intro h
  have hoverruled := h plainConfig ⟨openCheckIn, []⟩ overruledEvents (overruledEvents.take 2)
    (overruledEvents.drop 2) (by simp)
  exact absurd (hoverruled (Or.inl (Or.inl rfl))) (by decide)

end Sentry.Monitors
