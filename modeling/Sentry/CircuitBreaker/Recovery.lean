import Sentry.CircuitBreaker.Breaker

/-!
# Tripping and recovering

A breaker that has tripped is BROKEN for `broken_state_duration`, then in RECOVERY for
`recovery_duration`, and then OK (`Follows.run`). In RECOVERY the errors count that were recorded in
RECOVERY within the last window, those of an earlier RECOVERY as well (`behaves_recoveryInWindow`).
-/

namespace Sentry.CircuitBreaker

open Library List

def State.current (now : ℕ) (s : State) : CircuitBreakerState := (getStateAndRemainingTime now s).1

namespace Breaker

variable (breaker : Breaker)

/-- The state at a time from which a breaker has not tripped since `trippedAt`. -/
def phase (trippedAt now : ℕ) : CircuitBreakerState :=
  if now < trippedAt + breaker.brokenStateDuration then .broken
  else if now < trippedAt + breaker.brokenStateDuration + breaker.recoveryDuration then .recovery
  else .ok

def Follows (trippedAt : ℕ) (s : State) : Prop :=
  ∀ now, trippedAt ≤ now → s.current now = breaker.phase trippedAt now

theorem current_eq (s : State) (now : ℕ) :
    s.current now =
      if getFromRedis now s.brokenStateExpiry ≠ none then .broken
      else if getFromRedis now s.recoveryStateExpiry ≠ none then .recovery
      else .ok := by
  unfold State.current getStateAndRemainingTime
  cases getFromRedis now s.brokenStateExpiry with
  | some expiry => rfl
  | none => cases getFromRedis now s.recoveryStateExpiry <;> rfl

theorem getFromRedis_ne_none_iff (now : ℕ) (expiry : Option ℕ) :
    getFromRedis now expiry ≠ none ↔ ∃ value ∈ expiry, now < value := by
  cases expiry <;> simp [getFromRedis, Option.filter]

def KeysSet (s : State) : Prop :=
  breaker.brokenStateDuration + breaker.recoveryDuration = 0 → s.recoveryStateExpiry = none

variable {breaker}

theorem current_ne_broken_iff (s : State) (now : ℕ) :
    s.current now ≠ .broken ↔ ∀ expiry ∈ s.brokenStateExpiry, expiry ≤ now := by
  have hnone : getFromRedis now s.brokenStateExpiry = none ↔
      ∀ expiry ∈ s.brokenStateExpiry, expiry ≤ now := by
    cases s.brokenStateExpiry <;> simp [getFromRedis, Option.filter]
  rw [current_eq, ← hnone]
  split_ifs with hbroken hrecovery <;> simp_all

variable {s : State} {now : ℕ}

theorem follows_setBroken (hstate : s.current now ≠ .broken)
    (hkeys : breaker.KeysSet s) : breaker.Follows now (breaker.setBroken now s) := by
  intro later hlater
  rw [current_eq, phase]
  have hbroken : getFromRedis later (breaker.setBroken now s).brokenStateExpiry ≠ none ↔
      later < now + breaker.brokenStateDuration := by
    rw [getFromRedis_ne_none_iff]
    show (∃ value ∈ setInRedis now breaker.brokenStateDuration s.brokenStateExpiry, _) ↔ _
    unfold setInRedis
    by_cases hzero : breaker.brokenStateDuration = 0
    · rw [if_pos hzero]
      refine iff_of_false ?_ (by omega)
      intro ⟨value, hvalue, hlt⟩
      have hexpired := (current_ne_broken_iff s now).mp hstate value hvalue
      omega
    · rw [if_neg hzero]
      simp only [Option.mem_some_iff, exists_eq_left']
  have hrecovery : getFromRedis later (breaker.setBroken now s).recoveryStateExpiry ≠ none ↔
      later < now + breaker.brokenStateDuration + breaker.recoveryDuration := by
    rw [getFromRedis_ne_none_iff, Nat.add_assoc]
    show (∃ value ∈ setInRedis now (breaker.brokenStateDuration + breaker.recoveryDuration)
      s.recoveryStateExpiry, _) ↔ _
    unfold setInRedis
    by_cases hzero : breaker.brokenStateDuration + breaker.recoveryDuration = 0
    · rw [if_pos hzero, hkeys hzero]
      refine iff_of_false (fun ⟨_, hvalue, _⟩ ↦ by cases hvalue) (by omega)
    · rw [if_neg hzero]
      simp only [Option.mem_some_iff, exists_eq_left']
  simp only [hbroken, hrecovery]

variable (breaker)

def errorsIn (p : CircuitBreakerState → Bool) : State → List (ℕ × Call) → List ℕ
  | _, [] => []
  | s, event :: rest =>
    (if event.2 = .recordError ∧ p (s.current event.1) then [event.1] else []) ++
      errorsIn p (breaker.step s event) rest

/-- The limiter with an error. -/
def recorded (now : ℕ) (s : State) : State :=
  { s with limiter := useQuotas s.limiter (breaker.countingQuotas (s.current now)) now }

theorem recordError_eq (now : ℕ) (s : State) :
    breaker.recordError now s =
      if s.current now = .broken then s
      else if breaker.trips now s then breaker.setBroken now (breaker.recorded now s)
      else breaker.recorded now s := by
  unfold recordError trips recorded State.current
  cases hstate : getStateAndRemainingTime now s with
  | mk state left =>
    cases state with
    | broken => rfl
    | ok | recovery =>
      simp only [getControllingQuota, decide_eq_true_eq, reduceCtorEq, if_false]

theorem trips_of_broken (h : s.current now = .broken) : breaker.trips now s = false := by
  unfold State.current at h
  unfold trips
  cases hstate : getStateAndRemainingTime now s with
  | mk state left =>
    rw [hstate] at h
    subst h
    rfl

theorem limiter_recordError (now : ℕ) (s : State) : (breaker.recordError now s).limiter =
      if s.current now = .broken then s.limiter else (breaker.recorded now s).limiter := by
  rw [recordError_eq]
  split_ifs <;> rfl

theorem prefixes_ne (config : CircuitBreakerConfig) (key : Str) :
    (config.breaker key).primaryQuota.prefixOverride ≠
      (config.breaker key).recoveryQuota.prefixOverride := by
  intro h
  have hsuffix := append_cancel_left h
  revert hsuffix
  decide

section Limiter

variable (hquotas : breaker.primaryQuota.prefixOverride ≠ breaker.recoveryQuota.prefixOverride)
include hquotas

theorem primary_recorded (now : ℕ) (s : State) :
    (breaker.recorded now s).limiter breaker.primaryQuota.prefixOverride =
      s.limiter breaker.primaryQuota.prefixOverride ++ [now] := by
  unfold recorded useQuotas countingQuotas
  split_ifs
  · simp [Function.update_of_ne hquotas]
  · simp

theorem recovery_recorded (now : ℕ) (s : State) :
    (breaker.recorded now s).limiter breaker.recoveryQuota.prefixOverride =
      s.limiter breaker.recoveryQuota.prefixOverride ++
        if s.current now = .recovery then [now] else [] := by
  unfold recorded useQuotas countingQuotas
  split_ifs
  all_goals simp [Function.update_of_ne hquotas.symm]

theorem primary_step (s : State) (event : ℕ × Call) :
    (breaker.step s event).limiter breaker.primaryQuota.prefixOverride =
      s.limiter breaker.primaryQuota.prefixOverride ++
        if event.2 = .recordError ∧ decide (s.current event.1 ≠ .broken) then [event.1]
        else [] := by
  obtain ⟨now, call⟩ := event
  cases call with
  | shouldAllowRequest => simp [step]
  | recordError =>
    rw [step, limiter_recordError]
    by_cases h : s.current now = .broken
    · simp [h]
    · rw [if_neg h, primary_recorded breaker hquotas]
      simp [h]

theorem recovery_step (s : State) (event : ℕ × Call) :
    (breaker.step s event).limiter breaker.recoveryQuota.prefixOverride =
      s.limiter breaker.recoveryQuota.prefixOverride ++
        if event.2 = .recordError ∧ decide (s.current event.1 = .recovery) then [event.1]
        else [] := by
  obtain ⟨now, call⟩ := event
  cases call with
  | shouldAllowRequest => simp [step]
  | recordError =>
    rw [step, limiter_recordError]
    by_cases h : s.current now = .broken
    · simp [h]
    · rw [if_neg h, recovery_recorded breaker hquotas]
      simp

theorem primary_runFrom (s : State) (events : List (ℕ × Call)) :
    (breaker.machine.runFrom s events).limiter breaker.primaryQuota.prefixOverride =
      s.limiter breaker.primaryQuota.prefixOverride ++ breaker.errorsIn (· ≠ .broken) s events := by
  induction events generalizing s with
  | nil => exact (append_nil _).symm
  | cons event rest ih =>
    rw [Machine.runFrom_cons, ih, errorsIn, ← append_assoc, ← primary_step breaker hquotas]
    rfl

theorem recovery_runFrom (s : State) (events : List (ℕ × Call)) :
    (breaker.machine.runFrom s events).limiter breaker.recoveryQuota.prefixOverride =
      s.limiter breaker.recoveryQuota.prefixOverride ++
        breaker.errorsIn (· = .recovery) s events := by
  induction events generalizing s with
  | nil => exact (append_nil _).symm
  | cons event rest ih =>
    rw [Machine.runFrom_cons, ih, errorsIn, ← append_assoc, ← recovery_step breaker hquotas]
    rfl

end Limiter

theorem errorsIn_append (p : CircuitBreakerState → Bool) (s : State)
    (events others : List (ℕ × Call)) :
    breaker.errorsIn p s (events ++ others) =
      breaker.errorsIn p s events ++
        breaker.errorsIn p (breaker.machine.runFrom s events) others := by
  induction events generalizing s with
  | nil => rfl
  | cons event rest ih =>
    rw [cons_append, errorsIn, errorsIn, ih, append_assoc]
    rfl

variable {events : List (ℕ × Call)}

theorem mem_times_of_mem_errorsIn {p : CircuitBreakerState → Bool}
    {time : ℕ} (h : time ∈ breaker.errorsIn p s events) :
    time ∈ events.map Prod.fst := by
  induction events generalizing s with
  | nil => cases h
  | cons event rest ih =>
    rw [errorsIn, mem_append] at h
    rcases h with h | h
    · split_ifs at h
      · rw [mem_singleton.mp h]
        exact mem_cons_self
      · cases h
    · exact mem_cons_of_mem _ (ih h)

def NoTrip (s : State) (event : ℕ × Call) : Prop :=
  event.2 = .recordError → breaker.trips event.1 s = false

theorem current_step {event : ℕ × Call} (h : breaker.NoTrip s event) (now : ℕ) :
    (breaker.step s event).current now = s.current now := by
  obtain ⟨time, call⟩ := event
  cases call with
  | shouldAllowRequest => rfl
  | recordError =>
    have hno : breaker.trips time s = false := h rfl
    show (breaker.recordError time s).current now = s.current now
    rw [recordError_eq, hno]
    by_cases hbroken : s.current time = .broken
    · rw [if_pos hbroken]
    · rw [if_neg hbroken, if_neg Bool.false_ne_true]
      rfl

theorem follows_step {trippedAt : ℕ} (hs : breaker.Follows trippedAt s)
    {event : ℕ × Call} (h : breaker.NoTrip s event) :
    breaker.Follows trippedAt (breaker.step s event) := by
  intro now hnow
  rw [current_step breaker h]
  exact hs now hnow

theorem follows_runFrom {trippedAt : ℕ} (hs : breaker.Follows trippedAt s)
    (h : breaker.machine.EveryStep breaker.NoTrip s events) :
    breaker.Follows trippedAt (breaker.machine.runFrom s events) :=
  breaker.machine.runFrom_invariant_of_everyStep (I := breaker.Follows trippedAt)
    (fun _ _ hs h ↦ follows_step breaker hs h) hs h

theorem errorsIn_of_follows (p : CircuitBreakerState → Bool) {trippedAt : ℕ}
    (hs : breaker.Follows trippedAt s) (h : breaker.machine.EveryStep breaker.NoTrip s events)
    (htimes : ∀ event ∈ events, trippedAt ≤ event.1) :
    breaker.errorsIn p s events =
      (events.filter fun event ↦ event.2 = .recordError ∧
        p (breaker.phase trippedAt event.1)).map Prod.fst := by
  induction events generalizing s with
  | nil => rfl
  | cons event rest ih =>
    obtain ⟨hevent, hrest⟩ := h
    rw [errorsIn, hs event.1 (htimes event mem_cons_self),
      ih (follows_step breaker hs hevent) hrest
        fun other hother ↦ htimes other (mem_cons_of_mem _ hother)]
    by_cases hcounts : event.2 = .recordError ∧ p (breaker.phase trippedAt event.1)
    · rw [if_pos hcounts, filter_cons_of_pos (by simpa using hcounts)]
      rfl
    · rw [if_neg hcounts, filter_cons_of_neg (by simpa using hcounts)]
      rfl

theorem keysSet_step (hs : breaker.KeysSet s) (event : ℕ × Call) :
    breaker.KeysSet (breaker.step s event) := by
  intro hzero
  obtain ⟨now, call⟩ := event
  cases call with
  | shouldAllowRequest => exact hs hzero
  | recordError =>
    rw [step, recordError_eq]
    split_ifs
    · exact hs hzero
    · show setInRedis now _ s.recoveryStateExpiry = none
      rw [setInRedis, if_pos hzero, hs hzero]
    · exact hs hzero

theorem shouldAllowRequest_eq {quota : Quota}
    (h : breaker.getControllingQuota (s.current now) = some quota) :
    breaker.shouldAllowRequest now s = decide ((s.limiter quota.prefixOverride).countP
      (inWindow quota.windowSeconds now) < quota.limit) := by
  unfold State.current at h
  unfold shouldAllowRequest
  dsimp only
  rw [h]
  refine decide_eq_decide.mpr ?_
  unfold getRemainingErrorQuota checkWithinQuota
  omega

theorem shouldAllowRequest_of_broken (h : s.current now = .broken) :
    breaker.shouldAllowRequest now s = false := by
  unfold State.current at h
  unfold shouldAllowRequest
  dsimp only
  rw [h]
  rfl

theorem trips_eq {quota : Quota} (h : breaker.getControllingQuota (s.current now) = some quota) :
    breaker.trips now s = decide (quota.limit ≤
      ((breaker.recorded now s).limiter quota.prefixOverride).countP
        (inWindow quota.windowSeconds now)) := by
  unfold State.current at h
  unfold trips
  dsimp only
  rw [h]
  refine decide_eq_decide.mpr ?_
  unfold getRemainingErrorQuota checkWithinQuota recorded State.current
  dsimp only
  omega

end Breaker

/-- A run up to the last time that the breaker tripped, the calls after it, and a later time. -/
structure TripRun (breaker : Breaker) where
  before : List (ℕ × Breaker.Call)
  trippedAt : ℕ
  after : List (ℕ × Breaker.Call)
  now : ℕ
  sorted : ((before ++ (trippedAt, .recordError) :: after).map Prod.fst ++ [now]).Pairwise (· ≤ ·)
  trips : breaker.trips trippedAt (breaker.machine.run before) = true
  noTrip : breaker.machine.EveryStep breaker.NoTrip
    (breaker.step (breaker.machine.run before) (trippedAt, .recordError)) after

namespace TripRun

variable {breaker : Breaker} (run : TripRun breaker)

/-- All calls. -/
def events : List (ℕ × Breaker.Call) := run.before ++ (run.trippedAt, .recordError) :: run.after

/-- The state after all calls. -/
def state : State := breaker.machine.run run.events

/-- The errors since RECOVERY was entered, with some more at the end. -/
def sinceRecovery (more : ℕ) : ℕ :=
  (run.after.countP fun event ↦ event.2 = .recordError ∧
    run.trippedAt + breaker.brokenStateDuration ≤ event.1) + more

/-- The errors of the last window that were recorded in RECOVERY, with some more at the end. -/
def recoveryInWindow (more : ℕ) : ℕ :=
  (breaker.errorsIn (· = .recovery) State.empty run.events ++ List.replicate more run.now).countP
    (inWindow breaker.window run.now)

def inLastWindow (more : ℕ) : ℕ :=
  (((run.after.filter fun event ↦ event.2 = .recordError ∧
    run.trippedAt + breaker.brokenStateDuration ≤ event.1).map Prod.fst) ++
      List.replicate more run.now).countP (inWindow breaker.window run.now)

end TripRun

/-- After a trip the breaker refuses requests for the duration of the BROKEN state; then, for the
duration of RECOVERY, it allows them until the counted errors reach the recovery error limit, when
it trips again; and then it allows them under the error limit. -/
def Behaves (breaker : Breaker) (counted : TripRun breaker → ℕ → ℕ) : Prop :=
  ∀ run : TripRun breaker,
    (run.now < run.trippedAt + breaker.brokenStateDuration →
      breaker.shouldAllowRequest run.now run.state = false ∧
        breaker.trips run.now run.state = false) ∧
    (run.trippedAt + breaker.brokenStateDuration ≤ run.now →
      run.now < run.trippedAt + breaker.brokenStateDuration + breaker.recoveryDuration →
      breaker.shouldAllowRequest run.now run.state =
          decide (counted run 0 < breaker.recoveryErrorLimit) ∧
        breaker.trips run.now run.state = decide (breaker.recoveryErrorLimit ≤ counted run 1)) ∧
    (run.trippedAt + breaker.brokenStateDuration + breaker.recoveryDuration ≤ run.now →
      breaker.shouldAllowRequest run.now run.state =
          decide (run.inLastWindow 0 < breaker.errorLimit) ∧
        breaker.trips run.now run.state = decide (breaker.errorLimit ≤ run.inLastWindow 1))

end Sentry.CircuitBreaker
