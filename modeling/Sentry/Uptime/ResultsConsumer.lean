import Sentry.Library.Machine

/-!
# Results of uptime checks

`uptime/consumers/results_consumer.py`, for one project subscription in manual or active
auto-detected mode. Redis has the scheduled time of the last result and a counter for each of the
statuses success and failure, which expire, and Postgres has the status. A failure raises its
counter while the status is OK, and so does a success while it is FAILED; a result deletes the
counter of the other kind. The onboarding mode and the metrics are left out.
-/

namespace Sentry.Uptime

open Library

/-- The statuses of a check. -/
inductive CheckStatus
  | success
  | failure
  | missedWindow
  deriving DecidableEq

/-- `UptimeStatus` -/
inductive UptimeStatus
  | ok
  | failed
  deriving DecidableEq

/-- `CheckResult`, of the reason only whether there is one. -/
structure CheckResult where
  status : CheckStatus
  hasStatusReason : Bool
  scheduledCheckTimeMs : ℤ
  deriving DecidableEq

/-- What is sent to the issue platform. -/
inductive Sent
  | occurrence
  | resolution
  deriving DecidableEq

/-- A value in Redis with its expiry, in milliseconds. -/
structure Expiring (α : Type*) where
  value : α
  expiresAt : ℤ
  deriving DecidableEq

/-- `GET` -/
def Expiring.get {α : Type*} (key : Option (Expiring α)) (now : ℤ) : Option α :=
  (key.filter fun key ↦ now < key.expiresAt).map Expiring.value

/-- `INCR` and `EXPIRE` -/
def Expiring.incr (key : Option (Expiring ℕ)) (now ttl : ℤ) : Expiring ℕ :=
  ⟨(Expiring.get key now).getD 0 + 1, now + ttl⟩

@[simp] theorem Expiring.incr_none (now ttl : ℤ) :
    Expiring.incr none now ttl = ⟨1, now + ttl⟩ := rfl

@[simp] theorem Expiring.incr_some (key : Expiring ℕ) (now ttl : ℤ) :
    Expiring.incr (some key) now ttl =
      ⟨(if now < key.expiresAt then key.value else 0) + 1, now + ttl⟩ := by
  unfold Expiring.incr Expiring.get
  by_cases halive : now < key.expiresAt <;> simp [Option.filter, halive]

/-- `LAST_UPDATE_REDIS_TTL` -/
def lastUpdateRedisTtl : ℤ := 7 * 24 * 60 * 60 * 1000

/-- `ACTIVE_FAILURE_THRESHOLD` -/
def activeFailureThreshold : ℕ := 3

/-- `ACTIVE_RECOVERY_THRESHOLD` -/
def activeRecoveryThreshold : ℕ := 1

/-- `ACTIVE_THRESHOLD_REDIS_TTL` -/
def activeThresholdRedisTtl : ℤ := 60 * 60 * 1000

/-- The status of the subscription, its keys in Redis, and what was sent. -/
structure UptimeState where
  uptimeStatus : UptimeStatus
  lastUpdate : Option (Expiring ℤ)
  failures : Option (Expiring ℕ)
  successes : Option (Expiring ℕ)
  sent : List Sent
  deriving DecidableEq

/-- Whether the organization has the feature, and whether the host provider is a restricted one. -/
structure IssueCreation where
  flagEnabled : Bool
  restrictedByProvider : Bool

namespace UptimeState

def deleteOpposing (s : UptimeState) (status : CheckStatus) : UptimeState :=
  if status = .success then { s with failures := none } else { s with successes := none }

/-- `has_reached_status_threshold` for a failure: the counter afterwards, and whether. -/
def failureThreshold (s : UptimeState) (now : ℤ) : UptimeState × Bool :=
  let key := Expiring.incr s.failures now activeThresholdRedisTtl
  ({ s with failures := some key }, decide (activeFailureThreshold ≤ key.value))

/-- `has_reached_status_threshold` for a success. -/
def recoveryThreshold (s : UptimeState) (now : ℤ) : UptimeState × Bool :=
  let key := Expiring.incr s.successes now activeThresholdRedisTtl
  ({ s with successes := some key }, decide (activeRecoveryThreshold ≤ key.value))

/-- `handle_result_for_project_active_mode`. An exception, as for an occurrence without a reason, is
caught by the caller and leaves what was done before. -/
def handleActiveMode (issueCreation : IssueCreation) (s : UptimeState) (now : ℤ)
    (result : CheckResult) : UptimeState :=
  let s := s.deleteOpposing result.status
  if s.uptimeStatus = .ok ∧ result.status = .failure then
    let (s, reached) := s.failureThreshold now
    if reached then
      if issueCreation.flagEnabled && !issueCreation.restrictedByProvider then
        if result.hasStatusReason then
          { s with uptimeStatus := .failed, sent := s.sent ++ [.occurrence] }
        else s
      else { s with uptimeStatus := .failed }
    else s
  else if s.uptimeStatus = .failed ∧ result.status = .success then
    let (s, reached) := s.recoveryThreshold now
    if reached then
      if issueCreation.flagEnabled then
        { s with uptimeStatus := .ok, sent := s.sent ++ [.resolution] }
      else { s with uptimeStatus := .ok }
    else s
  else s

variable {result : CheckResult}

theorem handleActiveMode_failure {s : UptimeState} (hok : s.uptimeStatus = .ok) (now : ℤ)
    (hfailure : result.status = .failure) :
    s.handleActiveMode ⟨true, false⟩ now result =
      let key := Expiring.incr s.failures now activeThresholdRedisTtl
      if activeFailureThreshold ≤ key.value ∧ result.hasStatusReason then
        { s with
          uptimeStatus := .failed
          failures := some key
          successes := none
          sent := s.sent ++ [.occurrence] }
      else { s with failures := some key, successes := none } := by
  unfold handleActiveMode deleteOpposing failureThreshold
  by_cases hreached :
      activeFailureThreshold ≤ (Expiring.incr s.failures now activeThresholdRedisTtl).value <;>
    cases hreason : result.hasStatusReason <;> simp [hok, hfailure, hreached]

theorem handleActiveMode_success {s : UptimeState} (hfailed : s.uptimeStatus = .failed) (now : ℤ)
    (hsuccess : result.status = .success) :
    s.handleActiveMode ⟨true, false⟩ now result =
      { s with
        uptimeStatus := .ok
        failures := none
        successes := some (Expiring.incr s.successes now activeThresholdRedisTtl)
        sent := s.sent ++ [.resolution] } := by
  have hreached :
      activeRecoveryThreshold ≤ (Expiring.incr s.successes now activeThresholdRedisTtl).value :=
    Nat.le_add_left 1 _
  unfold handleActiveMode deleteOpposing recoveryThreshold
  simp [hfailed, hsuccess, hreached]

theorem handleActiveMode_other {s : UptimeState} (issueCreation : IssueCreation) (now : ℤ)
    (hfailure : ¬ (s.uptimeStatus = .ok ∧ result.status = .failure))
    (hsuccess : ¬ (s.uptimeStatus = .failed ∧ result.status = .success)) :
    s.handleActiveMode issueCreation now result = s.deleteOpposing result.status := by
  have hstatus : (s.deleteOpposing result.status).uptimeStatus = s.uptimeStatus := by
    unfold deleteOpposing
    split_ifs <;> rfl
  unfold handleActiveMode
  simp only [hstatus, if_neg hfailure, if_neg hsuccess]

/-- `handle_result`, and `handle_result_for_project` for the one subscription. -/
def handleResult (issueCreation : IssueCreation) (s : UptimeState) (now : ℤ)
    (result : CheckResult) :
    UptimeState :=
  if result.scheduledCheckTimeMs ≤ (Expiring.get s.lastUpdate now).getD 0 then s
  else
    { s.handleActiveMode issueCreation now result with
      lastUpdate := some ⟨result.scheduledCheckTimeMs, now + lastUpdateRedisTtl⟩ }

end UptimeState

end Sentry.Uptime
