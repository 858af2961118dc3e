import Sentry.CircuitBreaker.Recovery

/-!
# Runs after a trip

How a breaker behaves after it trips, for every config whose recovery error limit, where it has one,
is below its error limit. The recovery quota is made before the constructor replaces a limit that is
not.
-/

namespace Sentry.CircuitBreaker

open Library Breaker List

namespace CircuitBreakerConfig

variable (config : CircuitBreakerConfig) (key : Str)

theorem window_le_durations : (config.breaker key).window ≤
    (config.breaker key).brokenStateDuration + (config.breaker key).recoveryDuration := by
  show config.errorLimitWindow ≤ config.brokenStateDuration +
    if config.brokenStateDuration + config.initialRecoveryDuration < config.errorLimitWindow then
      config.errorLimitWindow - config.brokenStateDuration
    else config.initialRecoveryDuration
  split_ifs with hshort
  · omega
  · exact not_lt.mp hshort

theorem defaultRecoveryErrorLimit_lt (h : 1 < config.errorLimit) :
    config.defaultRecoveryErrorLimit < config.errorLimit := by
  unfold defaultRecoveryErrorLimit defaultRecoveryStrictness
  omega

theorem recoveryErrorLimit_lt (h : 1 < config.errorLimit) :
    (config.breaker key).recoveryErrorLimit < (config.breaker key).errorLimit := by
  show (if _ then _ else _) < config.errorLimit
  split_ifs with hloose
  · exact config.defaultRecoveryErrorLimit_lt h
  · exact not_le.mp hloose

theorem recoveryQuota_limit
    (hlimit : ∀ limit ∈ config.recoveryErrorLimit, limit < config.errorLimit) :
    (config.breaker key).recoveryQuota.limit = (config.breaker key).recoveryErrorLimit := by
  show config.initialRecoveryErrorLimit = if _ then _ else _
  split_ifs with hloose
  · unfold initialRecoveryErrorLimit at hloose ⊢
    cases h : config.recoveryErrorLimit with
    | none => rfl
    | some limit =>
      rw [h] at hloose
      exact absurd (hlimit limit h) (not_lt.mpr hloose)
  · rfl

end CircuitBreakerConfig

namespace TripRun

section Order

variable {breaker : Breaker} (run : TripRun breaker)

variable {event : ℕ × Call}

theorem le_trippedAt (h : event ∈ run.before) : event.1 ≤ run.trippedAt := by
  have hevents := (pairwise_append.mp run.sorted).1
  rw [map_append] at hevents
  exact (pairwise_append.mp hevents).2.2 event.1 (mem_map_of_mem h) run.trippedAt
    mem_cons_self

theorem trippedAt_le (h : event ∈ run.after) : run.trippedAt ≤ event.1 := by
  have hevents := (pairwise_append.mp run.sorted).1
  rw [map_append] at hevents
  exact (pairwise_cons.mp (pairwise_append.mp hevents).2.1).1 event.1
    (mem_map_of_mem h)

theorem le_now (h : event ∈ run.events) : event.1 ≤ run.now :=
  (pairwise_append.mp run.sorted).2.2 event.1 (mem_map_of_mem h) run.now
    (mem_singleton_self _)

theorem trippedAt_le_now : run.trippedAt ≤ run.now :=
  run.le_now (mem_append_right _ mem_cons_self)

def tripped : State := breaker.step (breaker.machine.run run.before) (run.trippedAt, .recordError)

theorem state_eq : run.state = breaker.machine.runFrom run.tripped run.after := by
  rw [state, events, Machine.run_append]
  rfl

theorem events_eq : run.events = (run.before ++ [(run.trippedAt, .recordError)]) ++ run.after := by
  simp [events]

theorem tripped_eq : breaker.machine.runFrom State.empty
    (run.before ++ [(run.trippedAt, .recordError)]) = run.tripped :=
  Machine.run_concat _ _ _

theorem countP_errorsIn_before (p : CircuitBreakerState → Bool)
    (hnow : run.trippedAt + breaker.window ≤ run.now) :
    (breaker.errorsIn p State.empty (run.before ++ [(run.trippedAt, .recordError)])).countP
      (inWindow breaker.window run.now) = 0 := by
  refine countP_eq_zero.mpr fun time htime hin ↦ ?_
  obtain ⟨event, hevent, rfl⟩ := mem_map.mp (mem_times_of_mem_errorsIn breaker htime)
  have hle : event.1 ≤ run.trippedAt := by
    rcases mem_append.mp hevent with hbefore | htrip
    · exact run.le_trippedAt hbefore
    · rw [mem_singleton.mp htrip]
  simp only [inWindow, Bool.and_eq_true, decide_eq_true_eq] at hin
  omega

theorem follows_tripped : breaker.Follows run.trippedAt run.tripped := by
  have hkeys : breaker.KeysSet (breaker.machine.run run.before) :=
    breaker.machine.run_invariant (I := breaker.KeysSet) (fun _ ↦ rfl)
      (fun _ event hs ↦ keysSet_step breaker hs event) run.before
  have hstate : (breaker.machine.run run.before).current run.trippedAt ≠ .broken := by
    intro hbroken
    have htrips := run.trips
    rw [trips_of_broken breaker hbroken] at htrips
    exact Bool.false_ne_true htrips
  have htripped : run.tripped =
      breaker.setBroken run.trippedAt (breaker.recorded run.trippedAt
        (breaker.machine.run run.before)) := by
    show breaker.recordError run.trippedAt (breaker.machine.run run.before) = _
    rw [recordError_eq, if_neg hstate, if_pos run.trips]
  rw [htripped]
  exact follows_setBroken hstate hkeys

theorem follows_state : breaker.Follows run.trippedAt run.state := by
  rw [state_eq]
  exact follows_runFrom breaker run.follows_tripped run.noTrip

theorem current_state : run.state.current run.now = breaker.phase run.trippedAt run.now :=
  run.follows_state run.now run.trippedAt_le_now

end Order

variable {config : CircuitBreakerConfig} {key : Str} (run : TripRun (config.breaker key))

theorem primary_state : run.state.limiter (config.breaker key).primaryQuota.prefixOverride =
    (config.breaker key).errorsIn (· ≠ .broken) State.empty run.events :=
  primary_runFrom (config.breaker key) (prefixes_ne config key) State.empty run.events

theorem recovery_state : run.state.limiter (config.breaker key).recoveryQuota.prefixOverride =
    (config.breaker key).errorsIn (· = .recovery) State.empty run.events :=
  recovery_runFrom (config.breaker key) (prefixes_ne config key) State.empty run.events

theorem countP_primary_state (more : ℕ) (hnow : run.trippedAt +
      (config.breaker key).brokenStateDuration + (config.breaker key).recoveryDuration ≤ run.now) :
    (run.state.limiter (config.breaker key).primaryQuota.prefixOverride ++
        List.replicate more run.now).countP (inWindow (config.breaker key).window run.now) =
      run.inLastWindow more := by
  have hold : ((config.breaker key).errorsIn (· ≠ .broken) State.empty
      (run.before ++ [(run.trippedAt, .recordError)])).countP
        (inWindow (config.breaker key).window run.now) = 0 := by
    have hwindow := config.window_le_durations key
    exact run.countP_errorsIn_before _ (by omega)
  have hphase (time : ℕ) : (config.breaker key).phase run.trippedAt time ≠ .broken ↔
      run.trippedAt + (config.breaker key).brokenStateDuration ≤ time := by
    unfold phase
    split_ifs with hbroken hrecovery
    all_goals simpa using hbroken
  rw [primary_state, run.events_eq, errorsIn_append, run.tripped_eq,
    errorsIn_of_follows (config.breaker key) _ run.follows_tripped run.noTrip
      fun event hevent ↦ run.trippedAt_le hevent,
    append_assoc, countP_append, hold, Nat.zero_add]
  simp only [decide_eq_true_eq, hphase]
  rfl

end TripRun

theorem behaves_of_eq (config : CircuitBreakerConfig) (key : Str)
    (hlimit : ∀ limit ∈ config.recoveryErrorLimit, limit < config.errorLimit)
    (counted : TripRun (config.breaker key) → ℕ → ℕ)
    (hcounted : ∀ (run : TripRun (config.breaker key)) (more : ℕ),
      run.trippedAt + (config.breaker key).brokenStateDuration ≤ run.now →
      run.now < run.trippedAt + (config.breaker key).brokenStateDuration +
        (config.breaker key).recoveryDuration →
      counted run more = run.recoveryInWindow more) :
    Behaves (config.breaker key) counted := by
  have hquota : (config.breaker key).recoveryQuota.limit =
      (config.breaker key).recoveryErrorLimit := config.recoveryQuota_limit key hlimit
  refine fun run ↦ ⟨fun hbroken ↦ ?_, fun hstart hend ↦ ?_, fun hok ↦ ?_⟩
  · have hcurrent : run.state.current run.now = .broken := by
      rw [run.current_state, phase, if_pos hbroken]
    exact ⟨shouldAllowRequest_of_broken _ hcurrent, trips_of_broken _ hcurrent⟩
  · have hcurrent : run.state.current run.now = .recovery := by
      rw [run.current_state, phase, if_neg (not_lt.mpr hstart), if_pos hend]
    have hcontrolling : (config.breaker key).getControllingQuota (run.state.current run.now) =
        some (config.breaker key).recoveryQuota := by
      rw [hcurrent]
      rfl
    rw [hcounted run 0 hstart hend, hcounted run 1 hstart hend,
      shouldAllowRequest_eq _ hcontrolling, trips_eq _ hcontrolling,
      recovery_recorded _ (prefixes_ne config key), if_pos hcurrent, run.recovery_state, hquota]
    refine ⟨?_, rfl⟩
    rw [TripRun.recoveryInWindow, replicate_zero, append_nil]
    rfl
  · have hcurrent : run.state.current run.now = .ok := by
      rw [run.current_state, phase, if_neg (by omega), if_neg (not_lt.mpr hok)]
    have hcontrolling : (config.breaker key).getControllingQuota (run.state.current run.now) =
        some (config.breaker key).primaryQuota := by
      rw [hcurrent]
      rfl
    rw [shouldAllowRequest_eq _ hcontrolling, trips_eq _ hcontrolling,
      primary_recorded _ (prefixes_ne config key), ← run.countP_primary_state 0 hok,
      ← run.countP_primary_state 1 hok, replicate_zero, append_nil]
    exact ⟨rfl, rfl⟩

/-- A breaker behaves as it should after a trip, where in RECOVERY the errors count that were
recorded in RECOVERY within the last window; and RECOVERY is stricter. -/
theorem behaves_recoveryInWindow (config : CircuitBreakerConfig) (key : Str)
    (hlimit : ∀ limit ∈ config.recoveryErrorLimit, limit < config.errorLimit) :
    Behaves (config.breaker key) TripRun.recoveryInWindow ∧
      (1 < config.errorLimit →
        (config.breaker key).recoveryErrorLimit < (config.breaker key).errorLimit) :=
  ⟨behaves_of_eq config key hlimit _ fun _ _ _ _ ↦ rfl, config.recoveryErrorLimit_lt key⟩

/-- RECOVERY is twice as long as the window. -/
def longRecovery : CircuitBreakerConfig where
  errorLimit := 3
  errorLimitWindow := 10
  brokenStateDuration := 10
  recoveryErrorLimit := some 2
  errorLimitWindowGranularity := none
  recoveryDuration := none

def spreadErrors : TripRun (longRecovery.breaker []) where
  before := [(0, .recordError), (0, .recordError)]
  trippedAt := 0
  after := [(10, .recordError)]
  now := 21
  sorted := by decide
  trips := by decide
  noTrip := ⟨fun _ ↦ by decide, trivial⟩

/-- The second error since RECOVERY was entered does not trip the breaker. -/
theorem not_behaves_sinceRecovery : ¬ Behaves (longRecovery.breaker []) TripRun.sinceRecovery := by
  intro h
  have htrips := ((h spreadErrors).2.1 (by decide) (by decide)).2
  revert htrips
  decide

theorem behaves_longRecovery :
    Behaves (longRecovery.breaker []) TripRun.recoveryInWindow ∧
      (1 < longRecovery.errorLimit → (longRecovery.breaker []).recoveryErrorLimit <
        (longRecovery.breaker []).errorLimit) :=
  behaves_recoveryInWindow longRecovery [] (by decide)

end Sentry.CircuitBreaker
