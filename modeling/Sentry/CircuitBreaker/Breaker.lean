import Sentry.Library.Machine

/-!
# The circuit breaker

`CircuitBreaker` of `utils/circuit_breaker2.py`. The limiter is assumed to grant what the limit
leaves over the errors of the last `windowSeconds` seconds, and Redis to expire keys on time and not
to set a key with a timeout of zero. Times are in seconds, and a call happens at one time. Log
messages and other errors of Redis are left out.
-/

namespace Sentry.CircuitBreaker

open Library

/-- A string as its characters. -/
abbrev Str := List Char

/-- `CircuitBreakerState` -/
inductive CircuitBreakerState
  | ok
  | broken
  | recovery
  deriving DecidableEq

/-- `CircuitBreakerConfig` -/
structure CircuitBreakerConfig where
  errorLimit : ℕ
  errorLimitWindow : ℕ
  brokenStateDuration : ℕ
  recoveryErrorLimit : Option ℕ
  errorLimitWindowGranularity : Option ℕ
  recoveryDuration : Option ℕ

/-- `Quota` -/
structure Quota where
  windowSeconds : ℕ
  granularitySeconds : ℕ
  limit : ℕ
  prefixOverride : Str

/-- The fields of `CircuitBreaker`. -/
structure Breaker where
  key : Str
  errorLimit : ℕ
  recoveryErrorLimit : ℕ
  window : ℕ
  windowGranularity : ℕ
  brokenStateDuration : ℕ
  recoveryDuration : ℕ
  primaryQuota : Quota
  recoveryQuota : Quota

/-- `DEFAULT_RECOVERY_STRICTNESS` -/
def defaultRecoveryStrictness : ℕ := 10

/-- `DEFAULT_RECOVERY_WINDOW_MULTIPLIER` -/
def defaultRecoveryWindowMultiplier : ℕ := 2

namespace CircuitBreakerConfig

variable (config : CircuitBreakerConfig)

/-- `default_recovery_error_limit` -/
def defaultRecoveryErrorLimit : ℕ := max (config.errorLimit / defaultRecoveryStrictness) 1

def initialRecoveryErrorLimit : ℕ :=
  config.recoveryErrorLimit.getD config.defaultRecoveryErrorLimit

def initialRecoveryDuration : ℕ :=
  config.recoveryDuration.getD (config.errorLimitWindow * defaultRecoveryWindowMultiplier)

def windowGranularity : ℕ :=
  config.errorLimitWindowGranularity.getD (max (config.errorLimitWindow / 20) 5)

/-- `CircuitBreaker.__init__`; the quotas are made before the checks. -/
def breaker (key : Str) : Breaker where
  key := key
  errorLimit := config.errorLimit
  recoveryErrorLimit :=
    if config.errorLimit ≤ config.initialRecoveryErrorLimit then config.defaultRecoveryErrorLimit
    else config.initialRecoveryErrorLimit
  window := config.errorLimitWindow
  windowGranularity := config.windowGranularity
  brokenStateDuration := config.brokenStateDuration
  recoveryDuration :=
    if config.brokenStateDuration + config.initialRecoveryDuration < config.errorLimitWindow then
      config.errorLimitWindow - config.brokenStateDuration
    else config.initialRecoveryDuration
  primaryQuota := ⟨config.errorLimitWindow, config.windowGranularity, config.errorLimit,
    key ++ ".circuit_breaker.ok".toList⟩
  recoveryQuota := ⟨config.errorLimitWindow, config.windowGranularity,
    config.initialRecoveryErrorLimit, key ++ ".circuit_breaker.recovery".toList⟩

end CircuitBreakerConfig

/-- The errors that the limiter has for each prefix of a quota. -/
abbrev Limiter := Str → List ℕ

def inWindow (window now time : ℕ) : Bool := time ≤ now && now < time + window

/-- `use_quotas`, of one error. -/
def useQuotas (limiter : Limiter) (quotas : List Quota) (now : ℕ) : Limiter :=
  quotas.foldl
    (fun limiter quota ↦
      Function.update limiter quota.prefixOverride (limiter quota.prefixOverride ++ [now]))
    limiter

/-- `check_within_quotas`, of one quota. -/
def checkWithinQuota (limiter : Limiter) (requested : ℕ) (quota : Quota) (windowEnd : ℕ) : ℕ :=
  min requested
    (quota.limit - (limiter quota.prefixOverride).countP (inWindow quota.windowSeconds windowEnd))

/-- The expiries in Redis under `broken_state_key` and `recovery_state_key`, and the limiter. -/
structure State where
  brokenStateExpiry : Option ℕ
  recoveryStateExpiry : Option ℕ
  limiter : Limiter

def State.empty : State := ⟨none, none, fun _ ↦ []⟩

def getFromRedis (now : ℕ) (expiry : Option ℕ) : Option ℕ := expiry.filter fun value ↦ now < value

def setInRedis (now timeout : ℕ) (expiry : Option ℕ) : Option ℕ :=
  if timeout = 0 then expiry else some (now + timeout)

/-- `_get_state_and_remaining_time` -/
def getStateAndRemainingTime (now : ℕ) (s : State) : CircuitBreakerState × Option ℕ :=
  match getFromRedis now s.brokenStateExpiry with
  | some expiry => (.broken, some (expiry - now))
  | none =>
    match getFromRedis now s.recoveryStateExpiry with
    | some expiry => (.recovery, some (expiry - now))
    | none => (.ok, none)

namespace Breaker

variable (breaker : Breaker)

/-- `_get_controlling_quota` -/
def getControllingQuota : CircuitBreakerState → Option Quota
  | .ok => some breaker.primaryQuota
  | .broken => none
  | .recovery => some breaker.recoveryQuota

/-- `_get_remaining_error_quota`, of a quota. -/
def getRemainingErrorQuota (quota : Quota) (now : ℕ) (limiter : Limiter) : ℕ :=
  checkWithinQuota limiter quota.limit quota now

def countingQuotas (state : CircuitBreakerState) : List Quota :=
  if state = .recovery then [breaker.primaryQuota, breaker.recoveryQuota]
  else [breaker.primaryQuota]

def setBroken (now : ℕ) (s : State) : State :=
  { s with
    brokenStateExpiry := setInRedis now breaker.brokenStateDuration s.brokenStateExpiry
    recoveryStateExpiry := setInRedis now (breaker.brokenStateDuration + breaker.recoveryDuration)
      s.recoveryStateExpiry }

/-- `record_error` -/
def recordError (now : ℕ) (s : State) : State :=
  let (state, _) := getStateAndRemainingTime now s
  match breaker.getControllingQuota state with
  | none => s
  | some controllingQuota =>
    let limiter := useQuotas s.limiter (breaker.countingQuotas state) now
    let recorded := { s with limiter := limiter }
    if getRemainingErrorQuota controllingQuota now limiter = 0 then breaker.setBroken now recorded
    else recorded

/-- Whether `record_error` trips the breaker. -/
def trips (now : ℕ) (s : State) : Bool :=
  let (state, _) := getStateAndRemainingTime now s
  match breaker.getControllingQuota state with
  | none => false
  | some controllingQuota =>
    getRemainingErrorQuota controllingQuota now
      (useQuotas s.limiter (breaker.countingQuotas state) now) = 0

/-- `should_allow_request` -/
def shouldAllowRequest (now : ℕ) (s : State) : Bool :=
  let (state, _) := getStateAndRemainingTime now s
  match breaker.getControllingQuota state with
  | none => false
  | some controllingQuota => 0 < getRemainingErrorQuota controllingQuota now s.limiter

/-- A call. -/
inductive Call
  | recordError
  | shouldAllowRequest
  deriving DecidableEq

/-- A call and its time; a call of `should_allow_request` changes nothing. -/
def step (s : State) (event : ℕ × Call) : State :=
  match event.2 with
  | .recordError => breaker.recordError event.1 s
  | .shouldAllowRequest => s

def machine : Machine State (ℕ × Call) := ⟨State.empty, breaker.step⟩

end Breaker

end Sentry.CircuitBreaker
