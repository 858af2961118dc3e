import Sentry.Uptime.ResultsConsumer

/-!
# Consecutive failures

The status is to be FAILED from the third failure after a success on, and OK from the next success
on, with an occurrence or a resolution sent for each change. The third failure is missed if and only
if one of the first three comes more than an hour after the one before, or has no reason to report
(`tracksFailures_iff`).
-/

namespace Sentry.Uptime

open Library UptimeState List

/-- A result, and when it is handled. -/
structure Handled where
  now : ℤ
  result : CheckResult

/-- The state, and what was observed: the latest scheduled time, when the failures since the last
success were handled, the latest first, and the changes of the status. -/
structure Observed where
  state : UptimeState
  latest : ℤ
  failures : List ℤ
  changes : List UptimeStatus

def Observed.IsNew (o : Observed) (event : Handled) : Prop :=
  o.latest < event.result.scheduledCheckTimeMs

instance (o : Observed) (event : Handled) : Decidable (o.IsNew event) :=
  inferInstanceAs (Decidable (_ < _))

def failuresWith (event : Handled) (failures : List ℤ) : List ℤ :=
  match event.result.status with
  | .success => []
  | .failure => event.now :: failures
  | .missedWindow => failures

def changesWith (before after : UptimeStatus) (changes : List UptimeStatus) : List UptimeStatus :=
  if after = before then changes else changes ++ [after]

/-- One result. -/
def Observed.step (issueCreation : IssueCreation) (o : Observed) (event : Handled) : Observed :=
  let state := o.state.handleResult issueCreation event.now event.result
  { state := state
    latest := if o.IsNew event then event.result.scheduledCheckTimeMs else o.latest
    failures := if o.IsNew event then failuresWith event o.failures else o.failures
    changes := changesWith o.state.uptimeStatus state.uptimeStatus o.changes }

/-- The results of a subscription from its creation on. -/
def uptimeResults (issueCreation : IssueCreation) : Machine Observed Handled where
  init := ⟨⟨.ok, none, none, none, []⟩, 0, [], []⟩
  step := Observed.step issueCreation

/-- What is sent for a change to a status. -/
def UptimeStatus.sent : UptimeStatus → Sent
  | .failed => .occurrence
  | .ok => .resolution

/-- The status is FAILED if and only if there are three failures since the last success, and
something was sent for each change. -/
structure TracksFailures (o : Observed) : Prop where
  status : o.state.uptimeStatus = .failed ↔ activeFailureThreshold ≤ o.failures.length
  sent : o.state.sent = o.changes.map UptimeStatus.sent

/-- The key of the last update has not expired. -/
def LastUpdateAlive (o : Observed) (event : Handled) : Prop :=
  ∀ key ∈ o.state.lastUpdate, event.now < key.expiresAt

instance (o : Observed) (event : Handled) : Decidable (LastUpdateAlive o event) :=
  inferInstanceAs (Decidable (∀ key ∈ o.state.lastUpdate, event.now < key.expiresAt))

/-- A new failure that is the third one since the last success comes within an hour of the second
one, as this has of the first, and has a reason. -/
def ThirdInTime (o : Observed) (event : Handled) : Prop :=
  o.IsNew event → event.result.status = .failure → ∀ second first, o.failures = [second, first] →
    second < first + activeThresholdRedisTtl ∧ event.now < second + activeThresholdRedisTtl ∧
      event.result.hasStatusReason

def counterOf : List ℤ → Option (Expiring ℕ)
  | [] => none
  | [first] => some ⟨1, first + activeThresholdRedisTtl⟩
  | second :: first :: _ =>
    some ⟨if second < first + activeThresholdRedisTtl then 2 else 1,
      second + activeThresholdRedisTtl⟩

/-- The keys and the status go with what was observed. -/
structure Consistent (o : Observed) : Prop where
  tracks : TracksFailures o
  latest : o.latest = (o.state.lastUpdate.map Expiring.value).getD 0
  counter : o.state.uptimeStatus = .ok → o.state.failures = counterOf o.failures

variable {o : Observed} {event : Handled}

theorem Consistent.failures_of_ok (h : Consistent o) (hok : o.state.uptimeStatus = .ok) :
    o.failures.length < 3 := by
  by_contra hge
  have hfailed := h.tracks.status.mpr (not_lt.mp hge)
  rw [hok] at hfailed
  exact absurd hfailed (by decide)

theorem Consistent.skipped_iff (h : Consistent o) (halive : LastUpdateAlive o event) :
    event.result.scheduledCheckTimeMs ≤ (Expiring.get o.state.lastUpdate event.now).getD 0 ↔
      ¬ o.IsNew event := by
  have hget : Expiring.get o.state.lastUpdate event.now =
      o.state.lastUpdate.map Expiring.value := by
    unfold Expiring.get
    cases hkey : o.state.lastUpdate with
    | none => rfl
    | some key => simp [halive key hkey]
  rw [hget, ← h.latest, Observed.IsNew, Int.not_lt]

theorem incr_counterOf {failures : List ℤ} (hlength : failures.length < 3) (now : ℤ) :
    (activeFailureThreshold ≤
        (Expiring.incr (counterOf failures) now activeThresholdRedisTtl).value ↔
      ∃ second first, failures = [second, first] ∧ second < first + activeThresholdRedisTtl ∧
        now < second + activeThresholdRedisTtl) ∧
    ((now :: failures).length < 3 →
      some (Expiring.incr (counterOf failures) now activeThresholdRedisTtl) =
        counterOf (now :: failures)) := by
  match failures with
  | [] => simp [counterOf, activeFailureThreshold]
  | [first] =>
    by_cases halive : now < first + activeThresholdRedisTtl <;>
      simp [counterOf, activeFailureThreshold, halive]
  | [second, first] =>
    by_cases halive : now < second + activeThresholdRedisTtl <;>
      by_cases hgap : second < first + activeThresholdRedisTtl <;>
        simp [counterOf, activeFailureThreshold, halive, hgap]
  | _ :: _ :: _ :: _ => exact absurd hlength (by simp)

section Step

variable (h : Consistent o) (halive : LastUpdateAlive o event)

include h halive

theorem consistent_skipped (hnew : ¬ o.IsNew event) : Consistent (o.step ⟨true, false⟩ event) := by
  have hstate : o.state.handleResult ⟨true, false⟩ event.now event.result = o.state :=
    if_pos ((h.skipped_iff halive).mpr hnew)
  rw [Observed.step, hstate]
  simp only [if_neg hnew, changesWith, if_true]
  exact h

theorem step_new (hnew : o.IsNew event) :
    let state := o.state.handleActiveMode ⟨true, false⟩ event.now event.result
    o.step ⟨true, false⟩ event =
      { state := { state with
          lastUpdate := some ⟨event.result.scheduledCheckTimeMs, event.now + lastUpdateRedisTtl⟩ }
        latest := event.result.scheduledCheckTimeMs
        failures := failuresWith event o.failures
        changes := changesWith o.state.uptimeStatus state.uptimeStatus o.changes } := by
  have hstate : o.state.handleResult ⟨true, false⟩ event.now event.result =
      { o.state.handleActiveMode ⟨true, false⟩ event.now event.result with
        lastUpdate := some ⟨event.result.scheduledCheckTimeMs, event.now + lastUpdateRedisTtl⟩ } :=
    if_neg fun hskipped ↦ (h.skipped_iff halive).mp hskipped hnew
  simp only [Observed.step, hstate, if_pos hnew]

theorem consistent_success (hnew : o.IsNew event) (hsuccess : event.result.status = .success) :
    Consistent (o.step ⟨true, false⟩ event) := by
  rw [step_new h halive hnew]
  have hfailures : failuresWith event o.failures = [] := by
    rw [failuresWith, hsuccess]
  cases hstatus : o.state.uptimeStatus with
  | failed =>
    rw [handleActiveMode_success hstatus _ hsuccess]
    refine ⟨⟨?_, ?_⟩, rfl, fun _ ↦ ?_⟩
    · simp [hfailures, activeFailureThreshold]
    · simp [changesWith, h.tracks.sent, UptimeStatus.sent]
    · simp [hfailures, counterOf]
  | ok =>
    rw [handleActiveMode_other _ _ (by simp [hsuccess]) (by simp [hstatus])]
    refine ⟨⟨?_, ?_⟩, rfl, fun _ ↦ ?_⟩
    · simp [hfailures, activeFailureThreshold, deleteOpposing, hsuccess, hstatus]
    · simp [changesWith, h.tracks.sent, deleteOpposing, hsuccess, hstatus]
    · simp [hfailures, counterOf, deleteOpposing, hsuccess]

theorem consistent_missed (hnew : o.IsNew event) (hmissed : event.result.status = .missedWindow) :
    Consistent (o.step ⟨true, false⟩ event) := by
  have hfailures : failuresWith event o.failures = o.failures := by
    rw [failuresWith, hmissed]
  rw [step_new h halive hnew,
    handleActiveMode_other _ _ (by simp [hmissed]) (by simp [hmissed]), hfailures]
  refine ⟨⟨?_, ?_⟩, rfl, fun hok ↦ ?_⟩
  · simpa [deleteOpposing, hmissed] using h.tracks.status
  · simpa [deleteOpposing, hmissed, changesWith] using h.tracks.sent
  · simp only [deleteOpposing, hmissed] at hok ⊢
    exact h.counter hok

theorem consistent_failure_failed (hnew : o.IsNew event)
    (hfailure : event.result.status = .failure) (hfailed : o.state.uptimeStatus = .failed) :
    Consistent (o.step ⟨true, false⟩ event) := by
  have hfailures : failuresWith event o.failures = event.now :: o.failures := by
    rw [failuresWith, hfailure]
  have hmany := h.tracks.status.mp hfailed
  rw [step_new h halive hnew,
    handleActiveMode_other _ _ (by simp [hfailed]) (by simp [hfailure]), hfailures]
  refine ⟨⟨?_, ?_⟩, rfl, fun hok ↦ ?_⟩
  · simpa [deleteOpposing, hfailure, hfailed] using Nat.le_succ_of_le hmany
  · simpa [deleteOpposing, hfailure, changesWith] using h.tracks.sent
  · simp [deleteOpposing, hfailure, hfailed] at hok

theorem consistent_failure_ok (hnew : o.IsNew event) (hfailure : event.result.status = .failure)
    (hok : o.state.uptimeStatus = .ok) :
    (ThirdInTime o event → Consistent (o.step ⟨true, false⟩ event)) ∧
      (TracksFailures (o.step ⟨true, false⟩ event) → ThirdInTime o event) := by
  have hfailures : failuresWith event o.failures = event.now :: o.failures := by
    rw [failuresWith, hfailure]
  have hlength := h.failures_of_ok hok
  obtain ⟨hvalue, hcounter⟩ := incr_counterOf hlength event.now
  rw [step_new h halive hnew, handleActiveMode_failure hok _ hfailure, hfailures, h.counter hok]
  by_cases hreached : activeFailureThreshold ≤
      (Expiring.incr (counterOf o.failures) event.now activeThresholdRedisTtl).value ∧
        event.result.hasStatusReason = true
  · obtain ⟨second, first, hthird, hgap, hsecond⟩ := hvalue.mp hreached.1
    simp only [if_pos hreached]
    refine ⟨fun _ ↦ ⟨⟨?_, ?_⟩, rfl, ?_⟩, fun _ _ _ second' first' hthird' ↦ ?_⟩
    · simp [hthird, activeFailureThreshold]
    · simp [changesWith, hok, h.tracks.sent, UptimeStatus.sent]
    · simp
    · rw [hthird] at hthird'
      obtain ⟨rfl, htail⟩ := cons_eq_cons.mp hthird'
      obtain ⟨rfl, -⟩ := cons_eq_cons.mp htail
      exact ⟨hgap, hsecond, hreached.2⟩
  · simp only [if_neg hreached]
    -- The status stays OK, which is right unless it was the third failure.
    refine ⟨fun hthird ↦ ?_, fun htracks _ _ second first hthird ↦ ?_⟩
    · have hshort : (event.now :: o.failures).length < 3 := by
        by_contra hlong
        obtain ⟨second, first, hboth⟩ : ∃ second first, o.failures = [second, first] :=
          length_eq_two.mp (by rw [length_cons] at hlong; omega)
        obtain ⟨hgap, hsecond, hreason⟩ := hthird hnew hfailure second first hboth
        exact hreached ⟨hvalue.mpr ⟨second, first, hboth, hgap, hsecond⟩, hreason⟩
      refine ⟨⟨?_, ?_⟩, rfl, fun _ ↦ hcounter hshort⟩
      · simp only [hok, activeFailureThreshold, reduceCtorEq, false_iff, not_le]
        exact hshort
      · simpa [changesWith] using h.tracks.sent
    · have hfailed := htracks.status.mpr (by simp [hthird, activeFailureThreshold])
      exact absurd (hok.symm.trans hfailed) (by decide)

theorem consistent_step (hthird : ThirdInTime o event) :
    Consistent (o.step ⟨true, false⟩ event) := by
  by_cases hnew : o.IsNew event
  · cases hstatus : event.result.status with
    | success => exact consistent_success h halive hnew hstatus
    | missedWindow => exact consistent_missed h halive hnew hstatus
    | failure =>
      cases hbefore : o.state.uptimeStatus with
      | ok => exact (consistent_failure_ok h halive hnew hstatus hbefore).1 hthird
      | failed => exact consistent_failure_failed h halive hnew hstatus hbefore
  · exact consistent_skipped h halive hnew

theorem thirdInTime_of_tracksFailures (htracks : TracksFailures (o.step ⟨true, false⟩ event)) :
    ThirdInTime o event := by
  intro hnew hfailure second first hthird
  cases hbefore : o.state.uptimeStatus with
  | ok =>
    exact (consistent_failure_ok h halive hnew hfailure hbefore).2 htracks hnew hfailure second
      first hthird
  | failed =>
    have hmany := h.tracks.status.mp hbefore
    rw [hthird] at hmany
    exact absurd hmany (by simp [activeFailureThreshold])

end Step

theorem consistent_init : Consistent (uptimeResults ⟨true, false⟩).init where
  tracks := ⟨by decide, rfl⟩
  latest := rfl
  counter _ := rfl

/-- Assumes: the key of the last update does not expire between results. With issues enabled, the
status follows the failures throughout a run, with something sent for each change, if and only if
every third failure comes in time and has a reason. -/
theorem tracksFailures_iff {events : List Handled}
    (halive : (uptimeResults ⟨true, false⟩).EveryStep LastUpdateAlive
      (uptimeResults ⟨true, false⟩).init events) :
    (∀ first, first <+: events → TracksFailures ((uptimeResults ⟨true, false⟩).run first)) ↔
      (uptimeResults ⟨true, false⟩).EveryStep ThirdInTime (uptimeResults ⟨true, false⟩).init
        events :=
  (uptimeResults ⟨true, false⟩).forall_prefix_property_iff_everyStep_of (I := Consistent)
    (fun _ h ↦ h.tracks) (fun _ _ h halive hthird ↦ consistent_step h halive hthird)
    (fun _ _ h halive htracks ↦ thirdInTime_of_tracksFailures h halive htracks) consistent_init
    halive

/-- Failures at an interval, from the first scheduled time on, handled when they are scheduled. -/
def failuresAtInterval (intervalMs : ℤ) (count : ℕ) : List Handled :=
  (List.range count).map fun (i : ℕ) ↦
    ⟨((i : ℤ) + 1) * intervalMs, ⟨.failure, true, ((i : ℤ) + 1) * intervalMs⟩⟩

theorem tracksFailures_iff_minutes :
    (∀ first, first <+: failuresAtInterval 60000 3 →
        TracksFailures ((uptimeResults ⟨true, false⟩).run first)) ↔
      (uptimeResults ⟨true, false⟩).EveryStep ThirdInTime (uptimeResults ⟨true, false⟩).init
        (failuresAtInterval 60000 3) :=
  tracksFailures_iff (by decide)

theorem hourly_not_tracksFailures :
    ¬ TracksFailures ((uptimeResults ⟨true, false⟩).run (failuresAtInterval 3600000 3)) := by
  intro h
  exact absurd (h.status.mpr (by decide)) (by decide)

end Sentry.Uptime
