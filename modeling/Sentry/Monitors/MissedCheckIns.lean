import Sentry.Monitors.IncidentStatus
import Sentry.Monitors.Schedule

/-!
# Missed check-ins

`check_missed.py`. A call of `mark_environment_missing` with a time that the latest expected time of
the environment has passed adds a missed check-in, and `mark_failed` moves both times on. The times
of an environment that awaits a check-in (`Awaits`) are those of its schedule, so a later call with
the same time or an earlier one finds nothing to do (`missed_once`). Environments that are disabled
or being deleted are ignored.
-/

namespace Sentry.Monitors

open Library List

inductive ObjectStatus
  | active
  | disabled
  | pendingDeletion
  | deletionInProgress
  deriving DecidableEq

/-- A monitor with its config; the margin is in minutes. -/
structure ScheduledMonitor where
  status : ObjectStatus
  schedule : ScheduleConfig
  checkinMargin : Option ℕ
  recoveryThreshold : Option ℕ
  failureIssueThreshold : Option ℕ

def defaultCheckinMargin : ℕ := 1

def getCheckinMargin : Option ℕ → ℤ
  | none | some 0 => defaultCheckinMargin * minute
  | some margin => margin * minute

section

variable (calendar : Calendar)

/-- The monitor as it is read to mark check-ins. -/
def ScheduledMonitor.toMonitor (monitor : ScheduledMonitor) : Monitor where
  recoveryThreshold := monitor.recoveryThreshold
  failureIssueThreshold := monitor.failureIssueThreshold
  getNextExpectedCheckin ts := getNextSchedule calendar ts monitor.schedule
  getNextExpectedCheckinLatest ts :=
    getNextSchedule calendar ts monitor.schedule + getCheckinMargin monitor.checkinMargin

/-- What the query of the environments that are not ignored excludes. -/
def Ignored (monitor : ScheduledMonitor) (status : MonitorStatus) : Prop :=
  status ∈ [.disabled, .pendingDeletion, .deletionInProgress] ∨
    monitor.status ∈ [.disabled, .pendingDeletion, .deletionInProgress]

instance (monitor : ScheduledMonitor) (status : MonitorStatus) :
    Decidable (Ignored monitor status) :=
  inferInstanceAs (Decidable (_ ∨ _))

/-- A call, with the id of the check-in that it may create, and the other check-ins of the
environment. -/
structure MissingCall where
  ts : ℤ
  checkinId : ℕ
  checkins : List MonitorCheckIn
  isMuted : Bool

/-- The rows of an environment, and the expected times of the missed check-ins that were created. -/
structure MissingState extends MonitorState where
  missed : List ℤ

def MissingState.Due (s : MissingState) (ts : ℤ) : Prop :=
  ∃ latest ∈ s.environment.nextCheckinLatest, latest ≤ ts

instance (s : MissingState) (ts : ℤ) : Decidable (s.Due ts) :=
  inferInstanceAs (Decidable (∃ latest ∈ s.environment.nextCheckinLatest, latest ≤ ts))

def markEnvironmentMissing (monitor : ScheduledMonitor) (s : MissingState) (call : MissingCall) :
    MissingState :=
  if ¬ Ignored monitor s.environment.status ∧ s.Due call.ts then
    match s.environment.nextCheckin with
    -- the assertion fails
    | none => s
    | some expectedTime =>
      let checkin : MonitorCheckIn := ⟨call.checkinId, expectedTime, .missed⟩
      match getPrevSchedule calendar expectedTime call.ts monitor.schedule with
      -- the check-in stays although the schedule has raised
      | none => { s with missed := s.missed ++ [expectedTime] }
      | some mostRecentExpectedTs =>
        { toMonitorState :=
            (markFailed (monitor.toMonitor calendar) s.toMonitorState
              ⟨checkin, mostRecentExpectedTs, checkin :: call.checkins, call.isMuted,
                mem_cons_self⟩).1
          missed := s.missed ++ [expectedTime] }
  else s

/-- An environment, and the calls for it. -/
def checkMissed (monitor : ScheduledMonitor) (s : MonitorState) :
    Machine MissingState MissingCall where
  init := ⟨s, []⟩
  step := markEnvironmentMissing calendar monitor

end

def ActiveStatus (status : MonitorStatus) : Prop :=
  status = .active ∨ status = .ok ∨ status = .error

theorem not_ignored_iff {monitor : ScheduledMonitor} {status : MonitorStatus} :
    ¬ Ignored monitor status ↔ ActiveStatus status ∧ monitor.status = .active := by
  have hstatus : status ∉ [MonitorStatus.disabled, .pendingDeletion, .deletionInProgress] ↔
      ActiveStatus status := by
    cases status <;> simp [ActiveStatus]
  have hmonitor : monitor.status ∉ [ObjectStatus.disabled, .pendingDeletion, .deletionInProgress] ↔
      monitor.status = .active := by
    cases monitor.status <;> simp
  rw [Ignored, not_or, hstatus, hmonitor]

/-- The status is saved after the times, and it is `ERROR` if it changes. -/
theorem environment_markFailedThreshold (s : MonitorState) (call : MarkCall) (threshold : ℕ) :
    (markFailedThreshold s call threshold).1.environment = s.environment ∨
      (markFailedThreshold s call threshold).1.environment =
        { s.environment with status := .error } := by
  unfold markFailedThreshold
  cases hstatus : s.environment.status with
  | disabled | pendingDeletion | deletionInProgress => exact Or.inl rfl
  | error =>
    refine Or.inl ?_
    rcases s.activeIncident with e | _ | incident
    · rfl
    · rfl
    · exact environment_createOccurrences _ _ _
  | ok | active =>
    simp only [startFailing]
    split_ifs with hok
    · exact Or.inl rfl
    · refine Or.inr ?_
      cases (previousCheckins call threshold).head? with
      | none => rfl
      | some starting =>
        rcases (s.setStatus .error).activeIncident with e | _ | incident
        · rfl
        · exact environment_createOccurrences _ _ _
        · exact environment_createOccurrences _ _ _

/-- `mark_failed` for a missed check-in moves the times of an environment that has checked in. -/
theorem environment_markFailed_missed (monitor : Monitor) (s : MonitorState) (call : MarkCall)
    (hmissed : call.checkin.status = .missed) {last : ℤ}
    (hlast : s.environment.lastCheckin = some last) :
    ∃ status, (ActiveStatus s.environment.status → ActiveStatus status) ∧
      (markFailed monitor s call).1.environment =
        ⟨status, some last, some (monitor.getNextExpectedCheckin call.ts),
          some (monitor.getNextExpectedCheckinLatest call.ts)⟩ := by
  have hnewer : ¬ HasNewerCheckin s last := by
    rintro ⟨newer, hnewer, hlt⟩
    rw [hlast] at hnewer
    exact absurd (Option.some.inj hnewer ▸ hlt) (lt_irrefl _)
  unfold markFailed
  simp only [if_pos hmissed, hlast, if_neg hnewer]
  rcases environment_markFailedThreshold
      { s with environment :=
          { s.environment with
            lastCheckin := some last
            nextCheckin := some (monitor.getNextExpectedCheckin call.ts)
            nextCheckinLatest := some (monitor.getNextExpectedCheckinLatest call.ts) } }
      call (thresholdOrOne monitor.failureIssueThreshold) with hsame | herror
  · exact ⟨s.environment.status, id, hsame⟩
  · exact ⟨.error, fun _ ↦ Or.inr (Or.inr rfl), herror⟩

section Runs

variable {calendar : Calendar} {monitor : ScheduledMonitor}

theorem getCheckinMargin_pos (margin : Option ℕ) : 0 < getCheckinMargin margin := by
  rcases margin with _ | _ | margin
  · decide
  · decide
  · show 0 < ((margin + 1 : ℕ) : ℤ) * minute
    exact mul_pos (by omega) (by decide)

/-- An environment that has checked in, whose next time is an expected one and later than those of
the missed check-ins. -/
structure Awaits (monitor : ScheduledMonitor) (Expected : ℤ → Prop) (s : MissingState)
    (expected : ℤ) : Prop where
  lastCheckin : s.environment.lastCheckin ≠ none
  nextCheckin : s.environment.nextCheckin = some expected
  nextCheckinLatest :
    s.environment.nextCheckinLatest = some (expected + getCheckinMargin monitor.checkinMargin)
  isExpected : Expected expected
  missed_lt : ∀ time ∈ s.missed, time < expected
  pairwise : s.missed.Pairwise (· < ·)

variable {Expected : ℤ → Prop}

theorem Awaits.due_iff {s : MissingState} {expected : ℤ}
    (h : Awaits monitor Expected s expected) (ts : ℤ) :
    s.Due ts ↔ expected + getCheckinMargin monitor.checkinMargin ≤ ts := by
  simp [MissingState.Due, h.nextCheckinLatest]

theorem Awaits.step
    (hexpected : (∀ reference,
      Expected (getNextSchedule calendar reference monitor.schedule)) ∧
      ∀ expected ts, Expected expected → expected < ts →
        ∃ prev, getPrevSchedule calendar expected ts monitor.schedule = some prev ∧
          expected < getNextSchedule calendar prev monitor.schedule ∧
          ts ≤ getNextSchedule calendar prev monitor.schedule)
    {s : MissingState} {expected : ℤ} (h : Awaits monitor Expected s expected)
    (hactive : ¬ Ignored monitor s.environment.status) (call : MissingCall) :
    ∃ next, Awaits monitor Expected (markEnvironmentMissing calendar monitor s call) next ∧
      ¬ Ignored monitor (markEnvironmentMissing calendar monitor s call).environment.status ∧
      expected ≤ next ∧ call.ts < next + getCheckinMargin monitor.checkinMargin ∧
      (¬ s.Due call.ts → markEnvironmentMissing calendar monitor s call = s) := by
  unfold markEnvironmentMissing
  by_cases hdue : s.Due call.ts
  · have hlatest := (h.due_iff call.ts).mp hdue
    have hmargin := getCheckinMargin_pos monitor.checkinMargin
    obtain ⟨prev, hprev, hlater, hafter⟩ :=
      hexpected.2 expected call.ts h.isExpected (by omega)
    obtain ⟨last, hlast⟩ := Option.ne_none_iff_exists'.mp h.lastCheckin
    let checkin : MonitorCheckIn := ⟨call.checkinId, expected, .missed⟩
    obtain ⟨status, hstatus, henvironment⟩ :=
      environment_markFailed_missed (monitor.toMonitor calendar) s.toMonitorState
        ⟨checkin, prev, checkin :: call.checkins, call.isMuted, mem_cons_self⟩ rfl hlast
    rw [if_pos ⟨hactive, hdue⟩, h.nextCheckin]
    simp only [hprev]
    refine ⟨getNextSchedule calendar prev monitor.schedule, ⟨?_, ?_, ?_, ?_, ?_, ?_⟩, ?_, hlater.le,
      by omega, fun hnot ↦ absurd hdue hnot⟩
    · rw [henvironment]
      exact Option.some_ne_none last
    · rw [henvironment]
      rfl
    · rw [henvironment]
      rfl
    · exact hexpected.1 prev
    · intro time htime
      rcases mem_append.mp htime with hmissed | hnew
      · exact (h.missed_lt time hmissed).trans hlater
      · rwa [mem_singleton.mp hnew]
    · refine pairwise_append.mpr ⟨h.pairwise, pairwise_singleton _ _, ?_⟩
      intro time htime other hother
      rw [mem_singleton.mp hother]
      exact h.missed_lt time htime
    · rw [henvironment]
      rw [not_ignored_iff] at hactive ⊢
      exact ⟨hstatus hactive.1, hactive.2⟩
  · rw [if_neg fun hboth ↦ hdue hboth.2]
    refine ⟨expected, h, hactive, le_rfl, ?_, fun _ ↦ rfl⟩
    rw [h.due_iff] at hdue
    exact not_le.mp hdue

/-- A call of `mark_ok` that does not raise and finds no later check-in. -/
def MarksOk (monitor : Monitor) (s : MonitorState) (call : MarkCall) : Prop :=
  (markOk monitor s call).2 = .ok () ∧ ¬ HasNewerCheckin s call.ts

theorem MarksOk.environment_markOk {monitor : Monitor} {s : MonitorState} {call : MarkCall}
    (h : MarksOk monitor s call) : ∃ status, (markOk monitor s call).1.environment =
      ⟨status, some call.checkin.dateAdded, some (monitor.getNextExpectedCheckin call.ts),
        some (monitor.getNextExpectedCheckinLatest call.ts)⟩ := by
  obtain ⟨hok, hnewer⟩ := h
  have hupdate : ∀ (s' : MonitorState) (status : Option MonitorStatus),
      s'.environment = s.environment → ∃ status', (updateEnvironment monitor s' call
        status).environment = ⟨status', some call.checkin.dateAdded,
          some (monitor.getNextExpectedCheckin call.ts),
          some (monitor.getNextExpectedCheckinLatest call.ts)⟩ := by
    intro s' status hsame
    have hnot : ¬ HasNewerCheckin s' call.ts := by rwa [HasNewerCheckin, hsame]
    rw [updateEnvironment, if_neg hnot]
    exact ⟨_, rfl⟩
  unfold markOk at hok ⊢
  by_cases hrecovering : IncidentRecovering monitor s call
  · rw [if_pos hrecovering] at hok ⊢
    rcases hactive : s.activeIncident with e | _ | incident
    · simp [hactive] at hok
    · exact hupdate s (some .ok) rfl
    · exact hupdate (s.resolveIncident call.checkin) (some .ok) rfl
  · rw [if_neg hrecovering]
    exact hupdate s none rfl

theorem markEnvironmentMissing_of_ignored {s : MissingState}
    (h : Ignored monitor s.environment.status) (call : MissingCall) :
    markEnvironmentMissing calendar monitor s call = s :=
  if_neg fun hboth ↦ hboth.1 h

theorem Awaits.run
    (hexpected : (∀ reference,
      Expected (getNextSchedule calendar reference monitor.schedule)) ∧
      ∀ expected ts, Expected expected → expected < ts →
        ∃ prev, getPrevSchedule calendar expected ts monitor.schedule = some prev ∧
          expected < getNextSchedule calendar prev monitor.schedule ∧
          ts ≤ getNextSchedule calendar prev monitor.schedule)
    {s : MonitorState} {first : ℤ}
    (h : Awaits monitor Expected (checkMissed calendar monitor s).init first)
    (hactive : ¬ Ignored monitor s.environment.status) (calls : List MissingCall) :
    ∃ expected, Awaits monitor Expected ((checkMissed calendar monitor s).run calls) expected ∧
      ¬ Ignored monitor ((checkMissed calendar monitor s).run calls).environment.status ∧
      ∀ call ∈ calls, call.ts < expected + getCheckinMargin monitor.checkinMargin := by
  induction calls using reverseRecOn with
  | nil => exact ⟨first, h, hactive, fun call hcall ↦ absurd hcall not_mem_nil⟩
  | append_singleton calls call ih =>
    obtain ⟨expected, hawaits, hstill, hcalls⟩ := ih
    obtain ⟨next, hnext, hlater, hle, hafter, -⟩ := hawaits.step hexpected hstill call
    rw [Machine.run_concat]
    refine ⟨next, hnext, hlater, fun other hother ↦ ?_⟩
    rcases mem_append.mp hother with hearlier | hlast
    · have hbound := hcalls other hearlier
      omega
    · rwa [mem_singleton.mp hlast]

/-- After `mark_ok`, the missed check-ins are created for increasing times, a call with a time that
is not later than that of an earlier call creates none, and every call for an environment that is
not ignored leaves a latest time that is later. -/
theorem missed_once (hoccurs : Occurs calendar monitor.schedule) {s : MonitorState}
    {marking : MarkCall} (hmarking : MarksOk (monitor.toMonitor calendar) s marking)
    (calls : List MissingCall) (call : MissingCall) :
    ((checkMissed calendar monitor
        (markOk (monitor.toMonitor calendar) s marking).1).run calls).missed.Pairwise (· < ·) ∧
      ((∃ earlier ∈ calls, call.ts ≤ earlier.ts) →
        ((checkMissed calendar monitor
          (markOk (monitor.toMonitor calendar) s marking).1).run (calls ++ [call])).missed =
        ((checkMissed calendar monitor
          (markOk (monitor.toMonitor calendar) s marking).1).run calls).missed) ∧
      (¬ Ignored monitor (markOk (monitor.toMonitor calendar) s marking).1.environment.status →
        ∃ latest, ((checkMissed calendar monitor
          (markOk (monitor.toMonitor calendar) s marking).1).run
            (calls ++ [call])).environment.nextCheckinLatest = some latest ∧ call.ts < latest) := by
  generalize hmarked : (markOk (monitor.toMonitor calendar) s marking).1 = marked
  rw [Machine.run_concat]
  by_cases hignored : Ignored monitor marked.environment.status
  · have hrun : ∀ calls, (checkMissed calendar monitor marked).run calls = ⟨marked, []⟩ := by
      intro calls
      refine Machine.run_invariant (checkMissed calendar monitor marked)
        (I := fun state ↦ state = ⟨marked, []⟩) rfl ?_ calls
      rintro _ call rfl
      exact markEnvironmentMissing_of_ignored hignored call
    rw [hrun]
    refine ⟨List.Pairwise.nil, fun _ ↦ ?_, fun hnot ↦ absurd hignored hnot⟩
    exact congrArg MissingState.missed (markEnvironmentMissing_of_ignored hignored call)
  · obtain ⟨Expected, hexpected⟩ := exists_expected hoccurs
    obtain ⟨status, henvironment⟩ := hmarking.environment_markOk
    rw [hmarked] at henvironment
    have hinit : Awaits monitor Expected (checkMissed calendar monitor marked).init
        (getNextSchedule calendar marking.ts monitor.schedule) := by
      refine ⟨?_, ?_, ?_, hexpected.1 _, fun time htime ↦ absurd htime not_mem_nil,
        List.Pairwise.nil⟩
      · show marked.environment.lastCheckin ≠ none
        rw [henvironment]
        exact Option.some_ne_none _
      · exact congrArg MonitorEnvironment.nextCheckin henvironment
      · exact congrArg MonitorEnvironment.nextCheckinLatest henvironment
    obtain ⟨expected, hawaits, hstill, hcalls⟩ := hinit.run hexpected hignored calls
    obtain ⟨next, hnext, -, -, hafter, hkeeps⟩ := hawaits.step hexpected hstill call
    refine ⟨hawaits.pairwise, fun hearlier ↦ ?_, fun _ ↦ ⟨_, hnext.nextCheckinLatest, hafter⟩⟩
    obtain ⟨earlier, hmem, hle⟩ := hearlier
    have hnot : ¬ ((checkMissed calendar monitor marked).run calls).Due call.ts := by
      rw [hawaits.due_iff]
      have hbound := hcalls earlier hmem
      omega
    exact congrArg MissingState.missed (hkeeps hnot)

end Runs

def hour : ℤ := 60 * minute

/-- The times of `0 * * * *`, and those of an interval of an hour. -/
def hourlyCalendar : Calendar where
  getNext _ reference := (reference / hour + 1) * hour
  getPrev _ reference := (reference - 1) / hour * hour
  after _ _ _ reference := reference + hour
  before _ _ start reference :=
    if start < reference then some (start + (reference - start - 1) / hour * hour) else none

def hourlyMonitor : ScheduledMonitor :=
  ⟨.active, .crontab "0 * * * *", some 5, none, none⟩

theorem occurs_hourlyMonitor : Occurs hourlyCalendar hourlyMonitor.schedule := by
  refine ⟨{t | hour ∣ t}, fun t ht ↦ Dvd.dvd.trans (Dvd.intro_left 60 rfl) ht, fun reference ↦ ?_,
    fun reference _ ↦ ?_⟩
  · refine ⟨⟨Dvd.intro_left _ rfl, ?_⟩, fun t ht ↦ ?_⟩
    · simp only [hourlyCalendar, hour, minute]
      omega
    · obtain ⟨⟨count, rfl⟩, hlt⟩ := ht
      simp only [hourlyCalendar, hour, minute] at hlt ⊢
      omega
  · refine ⟨⟨Dvd.intro_left _ rfl, ?_⟩, fun t ht ↦ ?_⟩
    · simp only [hourlyCalendar, hour, minute]
      omega
    · obtain ⟨⟨count, rfl⟩, hlt⟩ := ht
      simp only [hourlyCalendar, hour, minute] at hlt ⊢
      omega

/-- An environment with a status, before its first check-in. -/
def emptyEnvironment (status : MonitorStatus) : MonitorState :=
  ⟨⟨status, none, none, none⟩, [], []⟩

/-- A check-in at the beginning of the first hour. -/
def checkInAtStart (status : CheckInStatus) : MarkCall :=
  ⟨⟨1, 0, status⟩, 0, [⟨1, 0, status⟩], false, mem_cons_self⟩

def missingCallAt (ts : ℤ) : MissingCall := ⟨ts, 2, [⟨1, 0, .ok⟩], false⟩

theorem marksOk_checkInAtStart (environmentStatus : MonitorStatus) (status : CheckInStatus) :
    MarksOk (hourlyMonitor.toMonitor hourlyCalendar) (emptyEnvironment environmentStatus)
      (checkInAtStart status) := by
  refine ⟨?_, by simp [HasNewerCheckin, emptyEnvironment]⟩
  unfold markOk
  split_ifs
  · rfl
  · rfl

theorem missed_once_hourly :
    ∃ latest, ((checkMissed hourlyCalendar hourlyMonitor
      (markOk (hourlyMonitor.toMonitor hourlyCalendar) (emptyEnvironment .active)
        (checkInAtStart .ok)).1).run
          [missingCallAt (3 * hour)]).environment.nextCheckinLatest = some latest ∧
      3 * hour < latest :=
  (missed_once occurs_hourlyMonitor (marksOk_checkInAtStart .active .ok) []
    (missingCallAt (3 * hour))).2.2 (by decide)

theorem not_missed_once :
    ¬ ∀ (calendar : Calendar) (monitor : ScheduledMonitor) (s : MonitorState) (marking : MarkCall)
      (call : MissingCall), Occurs calendar monitor.schedule →
      MarksOk (monitor.toMonitor calendar) s marking →
      ∃ latest, ((checkMissed calendar monitor (markOk (monitor.toMonitor calendar) s
        marking).1).run [call]).environment.nextCheckinLatest = some latest ∧ call.ts < latest := by
  intro h
  obtain ⟨latest, hlatest, hlt⟩ :=
    h hourlyCalendar hourlyMonitor (emptyEnvironment .pendingDeletion)
    (checkInAtStart .inProgress) (missingCallAt (3 * hour)) occurs_hourlyMonitor
    (marksOk_checkInAtStart .pendingDeletion .inProgress)
  have hsame : some latest = some (hour + 5 * minute) := hlatest.symm.trans rfl
  rw [Option.some.inj hsame] at hlt
  exact absurd hlt (by decide)

end Sentry.Monitors
