import Sentry.Library.Machine
import Sentry.Library.SortedSet
import Mathlib.Algebra.BigOperators.Group.Finset.Basic
import Mathlib.Algebra.Order.Group.Int
import Mathlib.Data.Fintype.Basic
import Mathlib.Tactic.Abel

/-!
# The monitor clock

`clock_dispatch.py`. Consumers call `try_monitor_clock_tick` for every message. The slowest
partition is the reference time, and the consumer that sees it roll over a minute dispatches a clock
tick for every minute since the last one. A call is a sequence of Redis commands; each command and
each dispatch is one step of the machine `clock`, and the steps of the consumers interleave in any
order.

The call whose `GETSET` gets back the value of its own pre-check wins, but a losing call has stored
its own reference time all the same, so minutes can be dispatched again or skipped
(`tickTwice_run`). Along every run in which a losing `GETSET` stores the value it finds, each minute
from the first tick to the last is handed out once (`run_ticksOnce`). No tick is early
(`dispatched_reached`).
-/

namespace Sentry.Monitors

open Library

/-- A call of `try_monitor_clock_tick`, at the command it issues next, with the local variables
computed so far. Timestamps are in seconds. -/
inductive Call
  | idle
  | zadd (partition : ℕ) (referenceTs : ℤ)
  | zrange
  | get (slowestPartTs : ℤ)
  | getset (slowestPartTs : ℤ) (precheckLastTs : Option ℤ)
  | dispatching (backfillTick tick : ℤ)
  deriving DecidableEq

/-- The keys `MONITOR_TASKS_PARTITION_CLOCKS` and `MONITOR_TASKS_LAST_TRIGGERED_KEY`, the call of
every consumer, and the timestamps passed to `_dispatch_tick` so far, oldest first. -/
structure ClockState (ι : Type*) where
  partitionClocks : SortedSet ℕ ℤ
  lastTriggered : Option ℤ
  call : ι → Call
  dispatched : List ℤ

/-- A consumer calls `try_monitor_clock_tick` with a time in microseconds and a partition, or its
call takes its next step. -/
inductive ClockEvent (ι : Type*)
  | tryMonitorClockTick (consumer : ι) (ts : ℤ) (partition : ℕ)
  | proceed (consumer : ι)

/-- The timestamp with the seconds trimmed off: `ts.replace(second=0, microsecond=0)`. -/
def referenceTs (ts : ℤ) : ℤ := ts / 60000000 * 60

/-- The first tick a winning call dispatches. If more than a minute has passed since the last
triggered timestamp, the ticks from the minute after it are backfilled. -/
def firstTick (lastTs : Option ℤ) (slowestPartTs : ℤ) : ℤ :=
  match lastTs with
  | some last => if slowestPartTs > last + 60 then last + 60 else slowestPartTs
  | none => slowestPartTs

section Steps

variable {ι : Type*} [DecidableEq ι]

def ClockState.setCall (s : ClockState ι) (consumer : ι) (call : Call) : ClockState ι :=
  { s with call := Function.update s.call consumer call }

@[simp] theorem setCall_call_self (s : ClockState ι) (consumer : ι) (call : Call) :
    (s.setCall consumer call).call consumer = call := Function.update_self ..

theorem setCall_call_of_ne (s : ClockState ι) {consumer other : ι} (h : other ≠ consumer)
    (call : Call) : (s.setCall consumer call).call other = s.call other :=
  Function.update_of_ne h ..

def proceed (s : ClockState ι) (consumer : ι) : ClockState ι :=
  match s.call consumer with
  | .idle => s
  | .zadd partition referenceTs =>
    { s with partitionClocks := s.partitionClocks.add partition referenceTs }.setCall consumer
      .zrange
  | .zrange =>
    match s.partitionClocks.entries.head? with
    -- `slowest_partitions[0]` raises: unreachable, the call has added its own partition
    | none => s.setCall consumer .idle
    | some slowest => s.setCall consumer (.get slowest.2)
  | .get slowestPartTs =>
    if ∃ last ∈ s.lastTriggered, slowestPartTs ≤ last then s.setCall consumer .idle
    else s.setCall consumer (.getset slowestPartTs s.lastTriggered)
  | .getset slowestPartTs precheckLastTs =>
    { s with lastTriggered := some slowestPartTs }.setCall consumer
      (if precheckLastTs ≠ s.lastTriggered then .idle
        else .dispatching (firstTick s.lastTriggered slowestPartTs) slowestPartTs)
  | .dispatching backfillTick tick =>
    if backfillTick < tick then
      { s with dispatched := s.dispatched ++ [backfillTick] }.setCall consumer
        (.dispatching (backfillTick + 60) tick)
    else { s with dispatched := s.dispatched ++ [tick] }.setCall consumer .idle

def clockStep (s : ClockState ι) : ClockEvent ι → ClockState ι
  | .tryMonitorClockTick consumer ts partition =>
    if s.call consumer = .idle then s.setCall consumer (.zadd partition (referenceTs ts)) else s
  | .proceed consumer => proceed s consumer

/-- The consumers of the topic, from empty Redis keys. -/
def clock (ι : Type*) [DecidableEq ι] : Machine (ClockState ι) (ClockEvent ι) where
  init := ⟨SortedSet.empty, none, fun _ ↦ .idle, []⟩
  step := clockStep

end Steps

def minutes (first last : ℤ) : Finset ℤ :=
  (Finset.range ((last - first) / 60 + 1).toNat).image fun k : ℕ ↦ first + 60 * (k : ℤ)

def pendingTicks : Call → Multiset ℤ
  | .dispatching backfillTick tick => (minutes backfillTick tick).val
  | _ => 0

def handedTicks {ι : Type*} [Fintype ι] (s : ClockState ι) : Multiset ℤ :=
  (s.dispatched : Multiset ℤ) + ∑ consumer, pendingTicks (s.call consumer)

/-- At most once and gap-free. No minute is dispatched twice, and the ticks handed to the dispatch
are all the minutes from a first one to a latest one, each of them once. When no call is in its
dispatch loop these are the ticks dispatched. -/
def TicksOnce {ι : Type*} [Fintype ι] (s : ClockState ι) : Prop :=
  s.dispatched.Nodup ∧ (handedTicks s = 0 ∨
    ∃ first latest, first ≤ latest ∧ 60 ∣ latest - first ∧
      handedTicks s = (minutes first latest).val)

theorem mem_minutes {first last t : ℤ} :
    t ∈ minutes first last ↔ (first ≤ t ∧ t ≤ last) ∧ 60 ∣ t - first := by
  rw [minutes, Finset.mem_image]
  constructor
  · intro ⟨k, hk, ht⟩
    rw [Finset.mem_range] at hk
    omega
  · intro ⟨ht, hdvd⟩
    refine ⟨((t - first) / 60).toNat, ?_, ?_⟩
    · rw [Finset.mem_range]
      omega
    · omega

theorem minutes_self (t : ℤ) : minutes t t = {t} := by
  ext u
  rw [mem_minutes, Finset.mem_singleton]
  constructor
  · rintro ⟨h, -⟩
    omega
  · rintro rfl
    exact ⟨⟨le_rfl, le_rfl⟩, by simp⟩

theorem minutes_cons {first last : ℤ} (hle : first ≤ last) :
    (minutes first last).val = first ::ₘ (minutes (first + 60) last).val := by
  have hnot : first ∉ minutes (first + 60) last := by
    rw [mem_minutes]
    omega
  rw [← Finset.cons_val hnot]
  congr 1
  ext t
  simp only [mem_minutes, Finset.mem_cons]
  omega

theorem minutes_append {first middle last : ℤ} (hfirst : first ≤ middle) (hlast : middle ≤ last)
    (hmiddle : (60 : ℤ) ∣ middle - first) :
    (minutes first middle).val + (minutes (middle + 60) last).val = (minutes first last).val := by
  have hdisjoint : Disjoint (minutes first middle) (minutes (middle + 60) last) := by
    rw [Finset.disjoint_left]
    intro t ht ht'
    rw [mem_minutes] at ht ht'
    omega
  rw [← Finset.disjUnion_val _ _ hdisjoint]
  congr 1
  ext t
  simp only [mem_minutes, Finset.mem_disjUnion]
  omega

section Invariant

variable {ι : Type*} [DecidableEq ι]

def CallInvariant : Call → Prop
  | .idle | .zrange => True
  | .zadd _ referenceTs => (60 : ℤ) ∣ referenceTs
  | .get slowestPartTs => (60 : ℤ) ∣ slowestPartTs
  | .getset slowestPartTs precheckLastTs =>
    (60 : ℤ) ∣ slowestPartTs ∧ ∀ last ∈ precheckLastTs, last < slowestPartTs
  | .dispatching backfillTick tick => (60 : ℤ) ∣ tick - backfillTick ∧ backfillTick ≤ tick

/-- A `GETSET` finds the value of its own pre-check, or the value it stores. -/
def StoresFoundValue (lastTriggered : Option ℤ) : Call → Prop
  | .getset slowestPartTs precheckLastTs =>
    lastTriggered = precheckLastTs ∨ lastTriggered = some slowestPartTs
  | _ => True

instance decidableStoresFoundValue (lastTriggered : Option ℤ) :
    (call : Call) → Decidable (StoresFoundValue lastTriggered call)
  | .getset slowestPartTs precheckLastTs =>
    inferInstanceAs (Decidable (lastTriggered = precheckLastTs ∨
      lastTriggered = some slowestPartTs))
  | .idle | .zadd _ _ | .zrange | .get _ | .dispatching _ _ => isTrue trivial

/-- The condition on a step: no losing `GETSET` changes the last triggered timestamp. -/
def KeepsLastTriggered (s : ClockState ι) : ClockEvent ι → Prop
  | .tryMonitorClockTick _ _ _ => True
  | .proceed consumer => StoresFoundValue s.lastTriggered (s.call consumer)

instance decidableKeepsLastTriggered (s : ClockState ι) :
    (event : ClockEvent ι) → Decidable (KeepsLastTriggered s event)
  | .tryMonitorClockTick _ _ _ => isTrue trivial
  | .proceed consumer => decidableStoresFoundValue s.lastTriggered (s.call consumer)

def HandedUpTo (handed : Multiset ℤ) : Option ℤ → Prop
  | none => handed = 0
  | some last => ∃ first ≤ last, (60 : ℤ) ∣ last - first ∧ handed = (minutes first last).val

/-- The invariant of the runs in which no losing call changes the last triggered timestamp. -/
structure ClockInvariant [Fintype ι] (s : ClockState ι) : Prop where
  clocks : ∀ partition ts, s.partitionClocks.score partition = some ts → (60 : ℤ) ∣ ts
  last : ∀ ts ∈ s.lastTriggered, (60 : ℤ) ∣ ts
  calls : ∀ consumer, CallInvariant (s.call consumer)
  handed : HandedUpTo (handedTicks s) s.lastTriggered

variable {s : ClockState ι}

theorem callInvariant_setCall (h : ∀ consumer, CallInvariant (s.call consumer))
    (consumer : ι) {call : Call} (hcall : CallInvariant call) (other : ι) :
    CallInvariant ((s.setCall consumer call).call other) := by
  by_cases hother : other = consumer
  · rw [hother, setCall_call_self]
    exact hcall
  · rw [setCall_call_of_ne s hother]
    exact h other

variable [Fintype ι]

theorem handedTicks_setCall (s : ClockState ι) (consumer : ι) (call : Call) :
    handedTicks (s.setCall consumer call) + pendingTicks (s.call consumer) =
      handedTicks s + pendingTicks call := by
  have hold := Finset.add_sum_erase Finset.univ (fun i ↦ pendingTicks (s.call i))
    (Finset.mem_univ consumer)
  have hnew := Finset.add_sum_erase Finset.univ
    (fun i ↦ pendingTicks ((s.setCall consumer call).call i)) (Finset.mem_univ consumer)
  have hrest : ∑ i ∈ Finset.univ.erase consumer, pendingTicks ((s.setCall consumer call).call i) =
      ∑ i ∈ Finset.univ.erase consumer, pendingTicks (s.call i) := by
    refine Finset.sum_congr rfl fun i hi ↦ ?_
    rw [setCall_call_of_ne s (Finset.ne_of_mem_erase hi)]
  simp only [setCall_call_self, hrest] at hnew
  simp only [handedTicks, ← hold, ← hnew]
  simp only [ClockState.setCall]
  abel

variable {consumer : ι}

theorem handedTicks_setCall_of_no_ticks {call : Call}
    (hbefore : pendingTicks (s.call consumer) = 0) (hafter : pendingTicks call = 0) :
    handedTicks (s.setCall consumer call) = handedTicks s := by
  have h := handedTicks_setCall s consumer call
  rwa [hbefore, hafter, add_zero, add_zero] at h

/-- Assumes: a call with no ticks to dispatch before or after the step, and a state that differs
only in its partition clocks. The invariant is kept. -/
theorem clockInvariant_setCall (h : ClockInvariant s)
    {call : Call} (hcall : CallInvariant call) (hbefore : pendingTicks (s.call consumer) = 0)
    (hafter : pendingTicks call = 0) : ClockInvariant (s.setCall consumer call) where
  clocks := h.clocks
  last := h.last
  calls := callInvariant_setCall h.calls consumer hcall
  handed := by
    rw [handedTicks_setCall_of_no_ticks hbefore hafter]
    exact h.handed

omit [DecidableEq ι] in
theorem clockInvariant_zadd (h : ClockInvariant s) {partition : ℕ} {ts : ℤ} (hts : (60 : ℤ) ∣ ts) :
    ClockInvariant { s with partitionClocks := s.partitionClocks.add partition ts } where
  clocks := by
    intro other value hvalue
    rw [SortedSet.score_add] at hvalue
    split_ifs at hvalue with hother
    · rw [← Option.some.inj hvalue]
      exact hts
    · exact h.clocks other value hvalue
  last := h.last
  calls := h.calls
  handed := h.handed

/-- A winning `GETSET`. Assumes: the stored value is the one of the pre-check, so it is before the
reference time of the call. The minutes after it are handed to the dispatch. -/
theorem handedUpTo_win {handed : Multiset ℤ} {lastTs : Option ℤ} {slowestPartTs : ℤ}
    (hhanded : HandedUpTo handed lastTs) (hlast : ∀ ts ∈ lastTs, (60 : ℤ) ∣ ts)
    (hslowest : (60 : ℤ) ∣ slowestPartTs) (hbefore : ∀ ts ∈ lastTs, ts < slowestPartTs) :
    HandedUpTo (handed + (minutes (firstTick lastTs slowestPartTs) slowestPartTs).val)
      (some slowestPartTs) := by
  cases lastTs with
  | none =>
    refine ⟨slowestPartTs, le_rfl, by simp, ?_⟩
    rw [show handed = 0 from hhanded, zero_add, firstTick]
  | some last =>
    obtain ⟨first, hfirst, hdvd, rfl⟩ := hhanded
    have hlt : last < slowestPartTs := hbefore last rfl
    have hlastDvd : (60 : ℤ) ∣ last := hlast last rfl
    have htick : firstTick (some last) slowestPartTs = last + 60 := by
      simp only [firstTick]
      split_ifs with hskipped <;> omega
    refine ⟨first, hfirst.trans hlt.le, by omega, ?_⟩
    rw [htick, minutes_append hfirst hlt.le hdvd]

/-- Assumes: a `GETSET` that finds the value of its pre-check, or the value it stores. The
invariant is kept. -/
theorem clockInvariant_getset (h : ClockInvariant s) {slowestPartTs : ℤ} {precheckLastTs : Option ℤ}
    (hcall : s.call consumer = .getset slowestPartTs precheckLastTs)
    (hkeeps : s.lastTriggered = precheckLastTs ∨ s.lastTriggered = some slowestPartTs) :
    ClockInvariant ({ s with lastTriggered := some slowestPartTs }.setCall consumer
      (if precheckLastTs ≠ s.lastTriggered then .idle
        else .dispatching (firstTick s.lastTriggered slowestPartTs) slowestPartTs)) := by
  obtain ⟨hslowest, hprecheck⟩ : CallInvariant (.getset slowestPartTs precheckLastTs) :=
    hcall ▸ h.calls consumer
  have hpending : pendingTicks (s.call consumer) = 0 := by
    rw [hcall]
    rfl
  have hlastDvd : ∀ ts ∈ (some slowestPartTs : Option ℤ), (60 : ℤ) ∣ ts := by
    rintro ts hts
    rw [← Option.some.inj hts]
    exact hslowest
  by_cases hwin : precheckLastTs = s.lastTriggered
  · rw [if_neg (not_not.mpr hwin)]
    have hbefore : ∀ ts ∈ s.lastTriggered, ts < slowestPartTs := hwin ▸ hprecheck
    have htick : CallInvariant
        (.dispatching (firstTick s.lastTriggered slowestPartTs) slowestPartTs) := by
      cases hlastTs : s.lastTriggered with
      | none => exact ⟨by simp [firstTick], le_rfl⟩
      | some last =>
        have hdvd := h.last last hlastTs
        simp only [CallInvariant, firstTick]
        split_ifs with hskipped <;> omega
    refine ⟨h.clocks, hlastDvd, callInvariant_setCall h.calls consumer htick, ?_⟩
    have hhanded := handedTicks_setCall { s with lastTriggered := some slowestPartTs } consumer
      (.dispatching (firstTick s.lastTriggered slowestPartTs) slowestPartTs)
    rw [hpending, add_zero] at hhanded
    rw [hhanded]
    exact handedUpTo_win h.handed h.last hslowest hbefore
  · rw [if_pos hwin]
    have hsame : s.lastTriggered = some slowestPartTs := hkeeps.resolve_left (Ne.symm hwin)
    refine ⟨h.clocks, hlastDvd, callInvariant_setCall h.calls consumer trivial, ?_⟩
    have hidle : handedTicks
        ({ s with lastTriggered := some slowestPartTs }.setCall consumer .idle) =
          handedTicks { s with lastTriggered := some slowestPartTs } :=
      handedTicks_setCall_of_no_ticks hpending rfl
    rw [hidle, ← hsame]
    exact h.handed

theorem clockInvariant_dispatch (h : ClockInvariant s)
    {backfillTick tick : ℤ} (hcall : s.call consumer = .dispatching backfillTick tick) {now : ℤ}
    {next : Call} (hnext : CallInvariant next)
    (hticks : (minutes backfillTick tick).val = now ::ₘ pendingTicks next) :
    ClockInvariant
      ({ s with dispatched := s.dispatched ++ [now] }.setCall consumer next) where
  clocks := h.clocks
  last := h.last
  calls := callInvariant_setCall h.calls consumer hnext
  handed := by
    have hmove : handedTicks ({ s with dispatched := s.dispatched ++ [now] }.setCall consumer next)
        = handedTicks s := by
      have hset := handedTicks_setCall { s with dispatched := s.dispatched ++ [now] } consumer next
      have hpending : pendingTicks (s.call consumer) = now ::ₘ pendingTicks next := by
        rw [hcall, ← hticks]
        rfl
      have hdispatched : handedTicks { s with dispatched := s.dispatched ++ [now] } =
          now ::ₘ handedTicks s := by
        simp only [handedTicks, ← Multiset.coe_add, Multiset.coe_singleton,
          ← Multiset.singleton_add]
        abel
      rw [hpending, hdispatched, Multiset.cons_add, Multiset.add_cons, Multiset.cons_inj_right]
        at hset
      exact add_right_cancel hset
    rw [hmove]
    exact h.handed

theorem clockInvariant_step (s : ClockState ι) (event : ClockEvent ι) (h : ClockInvariant s)
    (hkeeps : KeepsLastTriggered s event) : ClockInvariant (clockStep s event) := by
  cases event with
  | tryMonitorClockTick consumer ts partition =>
    simp only [clockStep]
    split_ifs with hidle
    · exact clockInvariant_setCall h (Dvd.intro_left _ rfl) (by rw [hidle]; rfl) rfl
    · exact h
  | proceed consumer =>
    have hinv := h.calls consumer
    simp only [clockStep, proceed]
    simp only [KeepsLastTriggered] at hkeeps
    cases hcall : s.call consumer with
    | idle => exact h
    | zadd partition ts =>
      rw [hcall] at hinv
      exact clockInvariant_setCall (clockInvariant_zadd h hinv) trivial
        (by change pendingTicks (s.call consumer) = 0; rw [hcall]; rfl) rfl
    | zrange =>
      have hpending : pendingTicks (s.call consumer) = 0 := by rw [hcall]; rfl
      cases hhead : s.partitionClocks.entries.head? with
      | none => exact clockInvariant_setCall h trivial hpending rfl
      | some slowest =>
        have hscore : s.partitionClocks.score slowest.1 = some slowest.2 :=
          (s.partitionClocks.mem_entries_iff _ _).mp (List.mem_of_mem_head? hhead)
        exact clockInvariant_setCall h (h.clocks _ _ hscore) hpending rfl
    | get slowestPartTs =>
      have hpending : pendingTicks (s.call consumer) = 0 := by rw [hcall]; rfl
      rw [hcall] at hinv
      dsimp only
      split_ifs with hhandled
      · exact clockInvariant_setCall h trivial hpending rfl
      · push Not at hhandled
        exact clockInvariant_setCall h ⟨hinv, hhandled⟩ hpending rfl
    | getset slowestPartTs precheckLastTs =>
      rw [hcall] at hkeeps
      exact clockInvariant_getset h hcall hkeeps
    | dispatching backfillTick tick =>
      rw [hcall] at hinv
      obtain ⟨hdvd, hle⟩ := hinv
      dsimp only
      split_ifs with hmore
      · have hnext : CallInvariant (.dispatching (backfillTick + 60) tick) := by
          simp only [CallInvariant]
          omega
        exact clockInvariant_dispatch h hcall hnext (minutes_cons hle)
      · have htick : backfillTick = tick := le_antisymm hle (not_lt.mp hmore)
        refine clockInvariant_dispatch h hcall trivial ?_
        rw [htick, minutes_self]
        rfl

theorem clockInvariant_init : ClockInvariant (clock ι).init where
  clocks := by
    intro partition ts hts
    simp [clock] at hts
  last := by
    intro ts hts
    simp [clock] at hts
  calls := fun _ ↦ trivial
  handed := by
    change handedTicks _ = 0
    simp [clock, handedTicks, pendingTicks]

omit [DecidableEq ι] in
theorem ClockInvariant.ticksOnce (h : ClockInvariant s) : TicksOnce s := by
  have hhanded := h.handed
  have hle : (s.dispatched : Multiset ℤ) ≤ handedTicks s := Multiset.le_add_right _ _
  cases hlast : s.lastTriggered with
  | none =>
    rw [hlast] at hhanded
    have hzero : handedTicks s = 0 := hhanded
    refine ⟨?_, Or.inl hzero⟩
    rw [hzero, Multiset.le_zero, Multiset.coe_eq_zero] at hle
    rw [hle]
    exact List.nodup_nil
  | some last =>
    rw [hlast] at hhanded
    obtain ⟨first, hfirst, hdvd, heq⟩ := hhanded
    refine ⟨?_, Or.inr ⟨first, last, hfirst, hdvd, heq⟩⟩
    rw [heq] at hle
    exact Multiset.coe_nodup.mp (Multiset.nodup_of_le hle (minutes first last).nodup)

end Invariant

/-- Assumes: along the run, a `GETSET` that does not find the value of its own pre-check stores the
value it finds. In every state of the run each minute has been dispatched at most once, and the
ticks handed to the dispatch are the minutes from the first tick on, with no gap. -/
theorem run_ticksOnce {ι : Type*} [DecidableEq ι] [Fintype ι] (events : List (ClockEvent ι))
    (hevents : (clock ι).EveryStep KeepsLastTriggered (clock ι).init events) :
    TicksOnce ((clock ι).run events) :=
  ((clock ι).run_invariant_of_everyStep clockInvariant_init clockInvariant_step hevents).ticksOnce

section Reached

variable {ι : Type*} [DecidableEq ι]

/-- There are partitions, and the clock of none of them is before a time. -/
def ClockState.Reached (s : ClockState ι) (time : ℤ) : Prop :=
  s.partitionClocks.entries ≠ [] ∧ ∀ clock ∈ s.partitionClocks.entries, time ≤ clock.2

/-- The tick of a call. -/
def Call.tick? : Call → Option ℤ
  | .get tick | .getset tick _ | .dispatching _ tick => some tick
  | _ => none

/-- The ticks of the calls were reached, and all that were dispatched are not after such a time. -/
structure ClockState.Due (reached : ℤ → Prop) (s : ClockState ι) : Prop where
  calls : ∀ consumer, ∀ tick ∈ (s.call consumer).tick?, reached tick
  dispatched : ∀ tick ∈ s.dispatched, ∃ time, tick ≤ time ∧ reached time

variable {s : ClockState ι} {reached : ℤ → Prop} {consumer : ι}

theorem ClockState.Due.setCall (h : s.Due reached) {call : Call}
    (hcall : ∀ tick ∈ call.tick?, reached tick) :
    (s.setCall consumer call).Due reached where
  calls other := by
    by_cases hother : other = consumer
    · rw [hother, setCall_call_self]
      exact hcall
    · rw [setCall_call_of_ne s hother]
      exact h.calls other
  dispatched := h.dispatched

omit [DecidableEq ι] in
theorem reached_of_slowest {slowest : ℕ × ℤ} (h : s.partitionClocks.entries.head? = some slowest) :
    s.Reached slowest.2 := by
  obtain ⟨rest, hentries⟩ := List.head?_eq_some_iff.mp h
  have hsorted := s.partitionClocks.sorted
  rw [hentries, List.pairwise_cons] at hsorted
  refine ⟨by simp [hentries], ?_⟩
  rw [hentries, List.forall_mem_cons]
  exact ⟨le_rfl, fun clock hclock ↦ (hsorted.1 clock hclock).elim le_of_lt fun hsame ↦ hsame.1.le⟩

theorem due_proceed (hnow : ∀ time, s.Reached time → reached time) (h : s.Due reached) :
    (proceed s consumer).Due reached := by
  have hcall := h.calls consumer
  unfold proceed
  cases heq : s.call consumer with
  | idle => exact h
  | zadd partition ts =>
    have hadded : ClockState.Due reached
        { s with partitionClocks := s.partitionClocks.add partition ts } := ⟨h.calls, h.dispatched⟩
    exact hadded.setCall nofun
  | zrange =>
    dsimp only
    cases hhead : s.partitionClocks.entries.head? with
    | none => exact h.setCall nofun
    | some slowest =>
      refine h.setCall fun tick htick ↦ ?_
      cases htick
      exact hnow _ (reached_of_slowest hhead)
  | get slowestPartTs =>
    rw [heq] at hcall
    dsimp only
    split_ifs
    · exact h.setCall nofun
    · exact h.setCall hcall
  | getset slowestPartTs precheckLastTs =>
    rw [heq] at hcall
    have hset : ClockState.Due reached { s with lastTriggered := some slowestPartTs } :=
      ⟨h.calls, h.dispatched⟩
    refine hset.setCall ?_
    split_ifs
    · nofun
    · exact hcall
  | dispatching backfillTick tick =>
    rw [heq] at hcall
    dsimp only
    have hsent {now : ℤ} (hle : now ≤ tick) :
        ClockState.Due reached { s with dispatched := s.dispatched ++ [now] } := by
      refine ⟨h.calls, ?_⟩
      rw [List.forall_mem_append, List.forall_mem_singleton]
      exact ⟨h.dispatched, tick, hle, hcall tick rfl⟩
    split_ifs with hmore
    · exact (hsent hmore.le).setCall hcall
    · exact (hsent le_rfl).setCall nofun

/-- For every tick there was a moment, before it was dispatched, at which the clocks of all
partitions had reached it, however the steps of the consumers interleave. -/
theorem dispatched_reached (events : List (ClockEvent ι)) :
    {tick | tick ∈ ((clock ι).run events).dispatched} ⊆
      {tick | ∃ first, first <+: events ∧ ((clock ι).run first).Reached tick} := by
  have hdue := (clock ι).run_invariant_past (Q := ClockState.Reached) (I := ClockState.Due)
    (fun himp h ↦ ⟨fun consumer tick htick ↦ himp _ (h.calls consumer tick htick),
      fun tick htick ↦ (h.dispatched tick htick).imp fun _ ↦ And.imp_right (himp _)⟩)
    (fun _ ↦ ⟨by simp [clock, Call.tick?], by simp [clock]⟩) (fun reached s event hnow h ↦ ?_)
    events
  · intro tick htick
    obtain ⟨time, hle, first, hfirst, hne, hclocks⟩ := hdue.dispatched tick htick
    exact ⟨first, hfirst, hne, fun clock hclock ↦ hle.trans (hclocks clock hclock)⟩
  · cases event with
    | proceed consumer => exact due_proceed hnow h
    | tryMonitorClockTick consumer ts partition =>
      simp only [clock, clockStep]
      split_ifs
      · exact h.setCall nofun
      · exact h

end Reached

def callSteps {ι : Type*} (consumer : ι) (ts : ℤ) (partition steps : ℕ) : List (ClockEvent ι) :=
  .tryMonitorClockTick consumer ts partition :: List.replicate steps (.proceed consumer)

/-- Two consumers see the same minute roll over, and both get past the pre-check. The second
`GETSET` loses and stores the value of the first. -/
def harmlessRace : List (ClockEvent (Fin 2)) :=
  callSteps 0 0 0 5 ++ callSteps 0 60000000 0 3 ++ callSteps 1 60000000 0 3 ++
    [.proceed 0, .proceed 1, .proceed 0]

theorem run_ticksOnce_harmlessRace : TicksOnce ((clock (Fin 2)).run harmlessRace) :=
  run_ticksOnce harmlessRace (by decide)

/-- The first consumer reads partition 0 and the second partition 1. The second one finds the
slowest partition at minute 1 and stops before its `GETSET`, which runs after the first consumer
has triggered minute 2. It loses, and sets the last triggered timestamp back to minute 1. -/
def tickTwiceRun : List (ClockEvent (Fin 2)) :=
  callSteps 0 0 0 5 ++ callSteps 1 0 1 3 ++ callSteps 0 60000000 0 3 ++
    callSteps 1 120000000 1 3 ++ callSteps 0 120000000 0 6 ++ [.proceed 1] ++
      callSteps 0 180000000 0 5

/-- Minute 2 is dispatched twice, after both consumers are idle. -/
theorem tickTwice_run : ((clock (Fin 2)).run tickTwiceRun).dispatched = [0, 60, 120, 120] ∧
      (∀ consumer, ((clock (Fin 2)).run tickTwiceRun).call consumer = .idle) ∧
        ¬ TicksOnce ((clock (Fin 2)).run tickTwiceRun) := by
  have hdispatched : ((clock (Fin 2)).run tickTwiceRun).dispatched = [0, 60, 120, 120] := by decide
  refine ⟨hdispatched, by decide, fun honce ↦ ?_⟩
  have hnodup := honce.1
  rw [hdispatched] at hnodup
  exact absurd hnodup (by decide)

end Sentry.Monitors
