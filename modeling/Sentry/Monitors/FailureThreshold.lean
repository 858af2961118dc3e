import Sentry.Monitors.IncidentStatus

/-!
# The failure threshold

A failure opens an incident unless one of the latest check-ins, as many as the failure threshold, is
OK. The history may have fewer check-ins than that, and a check-in that is in progress or unknown is
not OK either, so an incident can be opened before as many check-ins in a row have failed
(`thresholdRespected_iff`).
-/

namespace Sentry.Monitors

open List

def CheckInStatus.Failing (status : CheckInStatus) : Prop :=
  status = .error ∨ status = .missed ∨ status = .timeout

/-- The check-in has no result. -/
def CheckInStatus.Unfinished (status : CheckInStatus) : Prop :=
  status = .inProgress ∨ status = .unknown

/-- The failure threshold of a monitor. -/
def failureThreshold (monitor : Monitor) : ℕ := thresholdOrOne monitor.failureIssueThreshold

/-- A call of `mark_failed` opens an incident. -/
def OpensIncident (monitor : Monitor) (s : MonitorState) (call : MarkCall) : Prop :=
  (markFailed monitor s call).1.incidents ≠ s.incidents

/-- The latest check-ins up to the failed one, as many as the threshold, exist and have failed. -/
def EnoughFailures (monitor : Monitor) (call : MarkCall) : Prop :=
  (previousCheckins call (failureThreshold monitor)).length = failureThreshold monitor ∧
    ∀ checkin ∈ previousCheckins call (failureThreshold monitor), checkin.status.Failing

/-- The time of the last check-in that `mark_failed` records. -/
def recordedCheckin (s : MonitorState) (call : MarkCall) : Option ℤ :=
  if call.checkin.status = .missed then s.environment.lastCheckin else some call.checkin.dateAdded

/-- The environment can start to fail: there is no newer check-in, it is not failing yet, and no
incident is open. -/
structure MayStartFailing (s : MonitorState) (call : MarkCall) : Prop where
  not_newer : ∃ last, recordedCheckin s call = some last ∧ ¬ HasNewerCheckin s last
  status : s.environment.status = .ok ∨ s.environment.status = .active
  openIncidents : s.openIncidents = []

/-- No check-in that is looked at is OK. -/
def NoneOk (monitor : Monitor) (call : MarkCall) : Prop :=
  failureThreshold monitor ≠ 1 → ∀ checkin ∈ previousCheckins call (failureThreshold monitor),
    checkin.status ≠ .ok

/-- The check-ins up to the failed one. -/
def checkinsUpTo (call : MarkCall) : List MonitorCheckIn :=
  call.checkins.filter fun checkin ↦ checkin.dateAdded ≤ call.checkin.dateAdded

section Opening

variable {s : MonitorState} {call : MarkCall} {threshold : ℕ}

@[simp] theorem incidents_createOccurrences (s : MonitorState) (call : MarkCall)
    (previous : List MonitorCheckIn) :
    (s.createOccurrences call previous).incidents = s.incidents := by
  unfold MonitorState.createOccurrences
  split_ifs <;> rfl

theorem incidents_startFailing (hpos : 0 < threshold) :
    (startFailing s call threshold).1.incidents ≠ s.incidents ↔
      s.openIncidents = [] ∧ (threshold ≠ 1 →
        ∀ checkin ∈ previousCheckins call threshold, checkin.status ≠ .ok) := by
  obtain ⟨starting, rest, hprevious⟩ :=
    exists_cons_of_ne_nil (previousCheckins_ne_nil call hpos)
  have hactive : (s.setStatus .error).activeIncident = s.activeIncident := rfl
  rw [startFailing]
  split_ifs with hok
  · obtain ⟨hthreshold, checkin, hcheckin, hstatus⟩ := hok
    exact iff_of_false (fun h ↦ h rfl) fun h ↦ h.2 hthreshold checkin hcheckin hstatus
  · have hnone : threshold ≠ 1 →
        ∀ checkin ∈ previousCheckins call threshold, checkin.status ≠ .ok :=
      fun hthreshold checkin hcheckin hstatus ↦ hok ⟨hthreshold, checkin, hcheckin, hstatus⟩
    rw [and_iff_left hnone, hprevious]
    simp only [head?_cons, hactive]
    rw [MonitorState.activeIncident]
    rcases hopen : s.openIncidents with _ | ⟨incident, _ | ⟨second, others⟩⟩
    · refine iff_of_true ?_ rfl
      simp [MonitorState.createIncident, MonitorState.setStatus]
    · refine iff_of_false (fun h ↦ h ?_) (cons_ne_nil _ _)
      simp only [incidents_createOccurrences]
      rfl
    · exact iff_of_false (fun h ↦ h rfl) (cons_ne_nil _ _)

theorem opensIncident_iff (monitor : Monitor) (s : MonitorState) (call : MarkCall) :
    OpensIncident monitor s call ↔ MayStartFailing s call ∧ NoneOk monitor call := by
  have hpos : 0 < failureThreshold monitor := thresholdOrOne_pos _
  have hrecordedEq : (if call.checkin.status = .missed then s.environment.lastCheckin
      else some call.checkin.dateAdded) = recordedCheckin s call := rfl
  rw [OpensIncident, markFailed]
  rw [hrecordedEq]
  cases hrecorded : recordedCheckin s call with
  | none =>
    refine iff_of_false (fun h ↦ h rfl) fun h ↦ ?_
    obtain ⟨last, hlast, -⟩ := h.1.not_newer
    rw [hrecorded] at hlast
    nomatch hlast
  | some last =>
    dsimp only
    split_ifs with hnewer
    · refine iff_of_false (fun h ↦ h rfl) fun h ↦ ?_
      obtain ⟨other, hother, hnot⟩ := h.1.not_newer
      rw [hrecorded] at hother
      rw [← Option.some.inj hother] at hnot
      exact hnot hnewer
    · have hmay : MayStartFailing s call ↔
          (s.environment.status = .ok ∨ s.environment.status = .active) ∧ s.openIncidents = [] :=
        ⟨fun h ↦ ⟨h.status, h.openIncidents⟩, fun h ↦ ⟨⟨last, hrecorded, hnewer⟩, h.1, h.2⟩⟩
      rw [hmay, markFailedThreshold]
      cases hstatus : s.environment.status with
      | ok =>
        rw [and_iff_right (Or.inl rfl)]
        exact incidents_startFailing hpos
      | active =>
        rw [and_iff_right (Or.inr rfl)]
        exact incidents_startFailing hpos
      | error =>
        refine iff_of_false (fun h ↦ h ?_) (by simp)
        rcases MonitorState.activeIncident _ with error | _ | incident
        · rfl
        · rfl
        · exact incidents_createOccurrences _ _ _
      | disabled | pendingDeletion => exact iff_of_false (fun h ↦ h rfl) (by simp)
      | deletionInProgress => exact iff_of_false (fun h ↦ h rfl) (by simp)

end Opening

theorem length_previousCheckins (call : MarkCall) (threshold : ℕ) :
    (previousCheckins call threshold).length = threshold ↔
      threshold ≤ (checkinsUpTo call).length := by
  rw [previousCheckins]
  split_ifs with hone
  · have hmem : call.checkin ∈ checkinsUpTo call := mem_filter.mpr ⟨call.mem, by simp⟩
    rw [hone]
    exact iff_of_true rfl (length_pos_of_mem hmem)
  · rw [length_reverse, length_take, orderByDateAddedDesc, length_insertionSort]
    show min threshold (checkinsUpTo call).length = threshold ↔ _
    omega

theorem failing_iff (status : CheckInStatus) :
    status.Failing ↔ status ≠ .ok ∧ ¬ status.Unfinished := by
  cases status <;> simp [CheckInStatus.Failing, CheckInStatus.Unfinished]

/-- A call of `mark_failed` opens an incident only after as many failures in a row as the threshold,
if and only if, where an incident can be opened and no check-in that is looked at is OK, there are
so many check-ins, and all that are looked at have a result. With a threshold of one that is the
check-in of the call, which is not to be OK. -/
theorem thresholdRespected_iff (monitor : Monitor) (s : MonitorState) (call : MarkCall) :
    (OpensIncident monitor s call → EnoughFailures monitor call) ↔
      (MayStartFailing s call → NoneOk monitor call →
        failureThreshold monitor ≤ (checkinsUpTo call).length ∧
          (∀ checkin ∈ previousCheckins call (failureThreshold monitor),
            ¬ checkin.status.Unfinished) ∧
          (failureThreshold monitor = 1 → call.checkin.status ≠ .ok)) := by
  rw [opensIncident_iff, and_imp]
  refine forall₂_congr fun _ hnone ↦ ?_
  rw [EnoughFailures, length_previousCheckins]
  refine and_congr_right fun _ ↦ ?_
  simp only [failing_iff]
  constructor
  · intro hfailing
    refine ⟨fun checkin hcheckin ↦ (hfailing checkin hcheckin).2, fun hone ↦ ?_⟩
    apply (hfailing call.checkin ?_).1
    rw [previousCheckins, if_pos hone]
    exact mem_singleton_self _
  · rintro ⟨hfinished, hcall⟩ checkin hcheckin
    refine ⟨?_, hfinished checkin hcheckin⟩
    by_cases hone : failureThreshold monitor = 1
    · rw [previousCheckins, if_pos hone] at hcheckin
      rw [mem_singleton.mp hcheckin]
      exact hcall hone
    · exact hnone hone checkin hcheckin

/-- A monitor with a failure threshold of three. -/
def threeInARow : Monitor where
  recoveryThreshold := none
  failureIssueThreshold := some 3
  getNextExpectedCheckin := fun ts ↦ ts + 60
  getNextExpectedCheckinLatest := fun ts ↦ ts + 120

/-- A check-in that has failed, after one that is in progress. There are no others. -/
def firstFailure : MarkCall where
  checkin := ⟨2, 60, .error⟩
  ts := 60
  checkins := [⟨1, 0, .inProgress⟩, ⟨2, 60, .error⟩]
  isMuted := false
  mem := by decide

/-- One failure opens an incident. -/
theorem not_thresholdRespected :
    ¬ (OpensIncident threeInARow (marking threeInARow).init firstFailure →
      EnoughFailures threeInARow firstFailure) := by
  intro hrespected
  have hopens : OpensIncident threeInARow (marking threeInARow).init firstFailure := by
    rw [OpensIncident]
    decide
  exact absurd (hrespected hopens).1 (by decide)

end Sentry.Monitors
