import Sentry.Library.Machine
import Sentry.Snowflake.BitSegments
import Mathlib.Data.Rat.Floor

/-!
# Snowflake ids from counters that expire

`utils/snowflake.py`. A call reads the clock once and then takes a sequence value from the counter
of its second, or, when all 16 are taken, from those of up to 300 seconds before. `INCR` is atomic,
a counter expires 300 seconds after its first `INCR`, and the `INCR`s of calls interleave.

A counter that is created again after it has expired gives an id a second time, and this is the only
way to do so: the ids of a run are distinct throughout if and only if no `INCR` reaches an expired
counter (`uniqueIds_iff_everyStep`).
-/

namespace Sentry.Snowflake

open Library List Function

/-- `SNOWFLAKE_VERSION_ID`, and the `snowflake_id` of the local region (`NULL_REGION_ID` without
one). -/
structure Settings where
  snowflakeVersionId : ℕ
  regionSnowflakeId : ℕ

/-- A counter in Redis: its value, and when it expires. -/
structure Counter where
  value : ℕ
  expiresAt : ℚ

/-- A call in the loop of `get_sequence_value_from_redis`, before its next `INCR`. -/
structure Call where
  startingTimestamp : ℤ
  i : ℕ

/-- An id that was returned, with the values of its segments. -/
structure Returned where
  id : ℕ
  values : SegmentValues
  deriving DecidableEq

/-- The clock, in seconds since `SENTRY_SNOWFLAKE_EPOCH_START`, the counters, the calls that are
running, and the ids returned so far. -/
structure SnowflakeState where
  now : ℚ
  counters : ℕ → Option Counter
  calls : ℕ → Option Call
  returned : List Returned

/-- The clock moves, a call reads it, a call sends its next `INCR`. -/
inductive SnowflakeEvent
  | clock (time : ℚ)
  | starts (call : ℕ)
  | incr (call : ℕ)

/-- `_TTL.total_seconds()`. -/
def ttl : ℕ := 300

/-- `int(current_time - settings.SENTRY_SNOWFLAKE_EPOCH_START)`. -/
def timeDifferenceNow (now : ℚ) : ℤ := if 0 ≤ now then ⌊now⌋ else ⌈now⌉

def timeRange (startingTimestamp : ℤ) : ℤ := min startingTimestamp ttl

/-- The timestamp a call asks for next: positive when `i` is in the range. -/
def Call.timestamp (call : Call) : ℕ := (call.startingTimestamp - call.i).toNat

/-- `segment_values` for a timestamp and a sequence value. -/
def segmentValues (settings : Settings) (timestamp sequence : ℕ) : SegmentValues where
  version := msb0Ordering settings.snowflakeVersionId versionId.length
  time := timestamp
  region := settings.regionSnowflakeId
  sequence := sequence

/-- The end of `generate_snowflake_id`: `none` when a value does not fit. -/
def packId (values : SegmentValues) : Option ℕ :=
  match packSegments values.segments 0 with
  | none => none
  | some snowflakeId => if idValidator.validate snowflakeId then some snowflakeId else none

namespace SnowflakeState

/-- `INCR` and, for a counter that it creates, `EXPIRE`: the sequence value and the counter. -/
def incr (s : SnowflakeState) (timestamp : ℕ) : ℕ × Counter :=
  match s.counters timestamp with
  | some counter =>
    if s.now < counter.expiresAt then
      (counter.value, { counter with value := counter.value + 1 })
    else (0, ⟨1, s.now + ttl⟩)
  | none => (0, ⟨1, s.now + ttl⟩)

/-- One step. -/
def step (settings : Settings) (s : SnowflakeState) : SnowflakeEvent → SnowflakeState
  | .clock time => if s.now ≤ time then { s with now := time } else s
  | .starts call =>
    match s.calls call with
    | some _ => s
    | none =>
      { s with calls := Function.update s.calls call (some ⟨timeDifferenceNow s.now, 0⟩) }
  | .incr call =>
    match s.calls call with
    | none => s
    | some c =>
      if (c.i : ℤ) < timeRange c.startingTimestamp then
        let sequence := (s.incr c.timestamp).1
        { s with
          counters := Function.update s.counters c.timestamp (some (s.incr c.timestamp).2)
          calls := Function.update s.calls call
            (if sequence < maxAvailableRegionSequences then none else some { c with i := c.i + 1 })
          returned :=
            if sequence < maxAvailableRegionSequences then
              match packId (segmentValues settings c.timestamp sequence) with
              | none => s.returned
              | some id =>
                s.returned ++ [⟨id, segmentValues settings c.timestamp sequence⟩]
            else s.returned }
      else
        -- `Exception("No available ID")`
        { s with calls := Function.update s.calls call none }

end SnowflakeState

/-- Calls from an empty Redis on, at any time. -/
def snowflakes (settings : Settings) (start : ℚ) : Machine SnowflakeState SnowflakeEvent where
  init := ⟨start, fun _ ↦ none, fun _ ↦ none, []⟩
  step := SnowflakeState.step settings

/-- No two ids are the same, and each one has 53 bits and decodes to the version, the region, and
its time and sequence value. -/
structure IdsOk (settings : Settings) (s : SnowflakeState) : Prop where
  unique : (s.returned.map Returned.id).Nodup
  decodes : ∀ r ∈ s.returned, Decodes r.id r.values ∧
    r.values = segmentValues settings r.values.time r.values.sequence

/-- An `INCR` does not reach the expired counter of a timestamp whose ids fit their segments. -/
def CounterAlive (settings : Settings) (s : SnowflakeState) : SnowflakeEvent → Prop
  | .incr call =>
    ∀ c, s.calls call = some c → (c.i : ℤ) < timeRange c.startingTimestamp →
      ∀ counter, s.counters c.timestamp = some counter →
        (segmentValues settings c.timestamp 0).Fit → s.now < counter.expiresAt
  | _ => True

theorem packId_eq_some_iff {values : SegmentValues} {id : ℕ} :
    packId values = some id ↔ values.Fit ∧ id = values.pack := by
  have hfits : values.Fit → idValidator.validate values.pack = true := by
    intro h
    rw [validate_iff]
    exact ⟨Int.natCast_nonneg _, by exact_mod_cast h.decodes.fits⟩
  unfold packId
  cases hpack : packSegments values.segments 0 with
  | none =>
    have hnot : ¬values.Fit := by
      intro h
      rw [packSegments_eq_some_iff.mpr ⟨h, rfl⟩] at hpack
      cases hpack
    simp [hnot]
  | some snowflakeId =>
    obtain ⟨hfit, rfl⟩ := packSegments_eq_some_iff.mp hpack
    simp [hfits hfit, hfit, eq_comm]

variable {settings : Settings} {s s' : SnowflakeState}

/-- The counters account for the ids: every id was packed from its values, its sequence value was
counted, and the first value of every counter was returned when it fits. -/
structure Accounted (settings : Settings) (s : SnowflakeState) : Prop where
  unique : (s.returned.map Returned.id).Nodup
  packed : ∀ r ∈ s.returned, r.values.Fit ∧ r.id = r.values.pack ∧
    r.values = segmentValues settings r.values.time r.values.sequence
  counted : ∀ r ∈ s.returned, ∃ counter, s.counters r.values.time = some counter ∧
    r.values.sequence < counter.value
  first : ∀ timestamp counter, s.counters timestamp = some counter →
    (segmentValues settings timestamp 0).Fit →
      ∃ r ∈ s.returned, r.values = segmentValues settings timestamp 0

theorem Accounted.idsOk (h : Accounted settings s) : IdsOk settings s := by
  refine ⟨h.unique, fun r hr ↦ ?_⟩
  obtain ⟨hfit, hid, hvalues⟩ := h.packed r hr
  exact ⟨hid ▸ hfit.decodes, hvalues⟩

theorem accounted_init (settings : Settings) (start : ℚ) :
    Accounted settings (snowflakes settings start).init where
  unique := nodup_nil
  packed := fun _ hr ↦ absurd hr not_mem_nil
  counted := fun _ hr ↦ absurd hr not_mem_nil
  first := fun _ _ h ↦ nomatch h

theorem Accounted.of_eq (h : Accounted settings s) (hcounters : s'.counters = s.counters)
    (hreturned : s'.returned = s.returned) : Accounted settings s' := by
  refine ⟨hreturned ▸ h.unique, hreturned ▸ h.packed, ?_, ?_⟩
  · rw [hreturned, hcounters]
    exact h.counted
  · rw [hreturned, hcounters]
    exact h.first

theorem incr_value (s : SnowflakeState) (timestamp : ℕ) :
    (s.incr timestamp).2.value = (s.incr timestamp).1 + 1 := by
  unfold SnowflakeState.incr
  cases s.counters timestamp with
  | none => rfl
  | some counter =>
    by_cases h : s.now < counter.expiresAt
    · simp [h]
    · simp [h]

variable {timestamp : ℕ}

theorem incr_alive {counter : Counter} (h : s.counters timestamp = some counter)
    (halive : s.now < counter.expiresAt) : (s.incr timestamp).1 = counter.value := by
  simp [SnowflakeState.incr, h, halive]

theorem segmentValues_fit_iff {timestamp sequence : ℕ}
    (h : sequence < maxAvailableRegionSequences) :
    (segmentValues settings timestamp sequence).Fit ↔ (segmentValues settings timestamp 0).Fit := by
  constructor
  · intro hfit
    exact ⟨hfit.1, hfit.2.1, hfit.2.2.1, Nat.two_pow_pos 4⟩
  · intro hfit
    exact ⟨hfit.1, hfit.2.1, hfit.2.2.1, h⟩

/-- The ids after an `INCR` for a timestamp. -/
def returnedAfter (settings : Settings) (s : SnowflakeState) (timestamp : ℕ) : List Returned :=
  if (s.incr timestamp).1 < maxAvailableRegionSequences then
    match packId (segmentValues settings timestamp (s.incr timestamp).1) with
    | none => s.returned
    | some id => s.returned ++ [⟨id, segmentValues settings timestamp (s.incr timestamp).1⟩]
  else s.returned

/-- An `INCR` whose id is packed appends it, every other one leaves the ids alone. -/
theorem returnedAfter_cases (settings : Settings) (s : SnowflakeState) (timestamp : ℕ) :
    (returnedAfter settings s timestamp = s.returned ∧
        ((s.incr timestamp).1 < maxAvailableRegionSequences →
          ¬(segmentValues settings timestamp 0).Fit)) ∨
      ((s.incr timestamp).1 < maxAvailableRegionSequences ∧
        (segmentValues settings timestamp (s.incr timestamp).1).Fit ∧
        returnedAfter settings s timestamp = s.returned ++
          [⟨(segmentValues settings timestamp (s.incr timestamp).1).pack,
            segmentValues settings timestamp (s.incr timestamp).1⟩]) := by
  unfold returnedAfter
  by_cases hseq : (s.incr timestamp).1 < maxAvailableRegionSequences
  · rw [if_pos hseq]
    cases hpack : packId (segmentValues settings timestamp (s.incr timestamp).1) with
    | none =>
      refine Or.inl ⟨rfl, fun _ hfit ↦ ?_⟩
      rw [packId_eq_some_iff.mpr ⟨(segmentValues_fit_iff hseq).mpr hfit, rfl⟩] at hpack
      cases hpack
    | some id =>
      obtain ⟨hfit, rfl⟩ := packId_eq_some_iff.mp hpack
      exact Or.inr ⟨hseq, hfit, rfl⟩
  · rw [if_neg hseq]
    exact Or.inl ⟨rfl, fun h ↦ absurd h hseq⟩

section

variable (h : Accounted settings s)

include h

/-- Assumes: the counter is alive, when ids of its timestamp fit. Its sequence value is new. -/
theorem Accounted.sequence_lt (halive : ∀ counter, s.counters timestamp = some counter →
      (segmentValues settings timestamp 0).Fit → s.now < counter.expiresAt)
    (hfit : (segmentValues settings timestamp 0).Fit) {r : Returned} (hr : r ∈ s.returned)
    (htime : r.values.time = timestamp) : r.values.sequence < (s.incr timestamp).1 := by
  obtain ⟨counter, hcounter, hlt⟩ := h.counted r hr
  rw [htime] at hcounter
  rw [incr_alive hcounter (halive counter hcounter hfit)]
  exact hlt

theorem Accounted.fit_zero {r : Returned} (hr : r ∈ s.returned) :
    (segmentValues settings r.values.time 0).Fit := by
  obtain ⟨hfit, -, hvalues⟩ := h.packed r hr
  have hseq : r.values.sequence < maxAvailableRegionSequences := hfit.2.2.2
  rw [hvalues] at hfit
  exact (segmentValues_fit_iff hseq).mp hfit

/-- Assumes: the counter is alive, when ids of its timestamp fit. The ids from before are still
counted. -/
theorem Accounted.counted_incr (halive : ∀ counter, s.counters timestamp = some counter →
      (segmentValues settings timestamp 0).Fit → s.now < counter.expiresAt)
    {r : Returned} (hr : r ∈ s.returned) :
    ∃ counter, Function.update s.counters timestamp (some (s.incr timestamp).2) r.values.time =
      some counter ∧ r.values.sequence < counter.value := by
  by_cases htime : r.values.time = timestamp
  · rw [htime, update_self]
    have hlt := h.sequence_lt halive (htime ▸ h.fit_zero hr) hr htime
    exact ⟨_, rfl, by rw [incr_value]; omega⟩
  · rw [update_of_ne htime]
    exact h.counted r hr

theorem Accounted.first_incr {timestamp timestamp' : ℕ} {counter : Counter}
    (hcounter : Function.update s.counters timestamp (some (s.incr timestamp).2) timestamp' =
      some counter) (hfit : (segmentValues settings timestamp' 0).Fit) :
    (∃ r ∈ s.returned, r.values = segmentValues settings timestamp' 0) ∨
      (timestamp' = timestamp ∧ (s.incr timestamp).1 = 0) := by
  by_cases htime : timestamp' = timestamp
  · subst htime
    cases hold : s.counters timestamp' with
    | none => exact Or.inr ⟨rfl, by simp [SnowflakeState.incr, hold]⟩
    | some old => exact Or.inl (h.first timestamp' old hold hfit)
  · rw [update_of_ne htime] at hcounter
    exact Or.inl (h.first timestamp' counter hcounter hfit)

/-- Assumes: the counter is alive, when ids of its timestamp fit. The next id is a new one. -/
theorem Accounted.pack_notMem (halive : ∀ counter, s.counters timestamp = some counter →
      (segmentValues settings timestamp 0).Fit → s.now < counter.expiresAt)
    (hfit : (segmentValues settings timestamp (s.incr timestamp).1).Fit) :
    (segmentValues settings timestamp (s.incr timestamp).1).pack ∉ s.returned.map Returned.id := by
  intro hmem
  obtain ⟨r, hr, hid⟩ := List.mem_map.mp hmem
  obtain ⟨hfit', hid', -⟩ := h.packed r hr
  have hdecodes :
      Decodes (segmentValues settings timestamp (s.incr timestamp).1).pack r.values := by
    have hdecodes := hfit'.decodes
    rwa [← hid', hid] at hdecodes
  have hvalues := hdecodes.values_eq hfit.decodes
  have htime : r.values.time = timestamp := by
    rw [hvalues]
    rfl
  have hlt := h.sequence_lt halive (htime ▸ h.fit_zero hr) hr htime
  rw [hvalues] at hlt
  exact lt_irrefl _ hlt

/-- Assumes: the counter is alive, when ids of its timestamp fit. The `INCR` keeps the account. -/
theorem Accounted.incr (halive : ∀ counter, s.counters timestamp = some counter →
      (segmentValues settings timestamp 0).Fit → s.now < counter.expiresAt)
    (hcounters : s'.counters = Function.update s.counters timestamp (some (s.incr timestamp).2))
    (hreturned : s'.returned = returnedAfter settings s timestamp) : Accounted settings s' := by
  have hcounted : ∀ r ∈ s.returned, ∃ counter, s'.counters r.values.time = some counter ∧
      r.values.sequence < counter.value := fun r hr ↦ hcounters ▸ h.counted_incr halive hr
  rcases returnedAfter_cases settings s timestamp with ⟨hsame, hnot⟩ | ⟨hseq, hfit, happend⟩
  · rw [hsame] at hreturned
    refine ⟨hreturned ▸ h.unique, hreturned ▸ h.packed, hreturned ▸ hcounted, ?_⟩
    rw [hreturned, hcounters]
    intro timestamp' counter hcounter hfit
    rcases h.first_incr hcounter hfit with hold | ⟨rfl, hzero⟩
    · exact hold
    · exact absurd hfit (hnot (by rw [hzero]; decide))
  · rw [happend] at hreturned
    refine ⟨?_, ?_, ?_, ?_⟩
    · rw [hreturned, map_append, map_singleton]
      refine h.unique.append (nodup_singleton _) ?_
      rw [disjoint_singleton]
      exact h.pack_notMem halive hfit
    · rw [hreturned, forall_mem_append]
      refine ⟨h.packed, fun r hr ↦ ?_⟩
      obtain rfl := mem_singleton.mp hr
      exact ⟨hfit, rfl, rfl⟩
    · rw [hreturned, forall_mem_append]
      refine ⟨hcounted, fun r hr ↦ ?_⟩
      obtain rfl := mem_singleton.mp hr
      rw [hcounters]
      refine ⟨_, update_self _ _ _, ?_⟩
      show (s.incr timestamp).1 < _
      rw [incr_value]
      omega
    · rw [hreturned, hcounters]
      intro timestamp' counter hcounter hfit
      rcases h.first_incr hcounter hfit with ⟨r, hr, hvalues⟩ | ⟨rfl, hzero⟩
      · exact ⟨r, mem_append_left _ hr, hvalues⟩
      · exact ⟨_, mem_append_right _ (mem_singleton_self _), by rw [hzero]⟩

end

theorem Accounted.step (h : Accounted settings s) (event : SnowflakeEvent)
    (halive : CounterAlive settings s event) : Accounted settings (s.step settings event) := by
  cases event with
  | clock time =>
    rw [SnowflakeState.step]
    split_ifs
    · exact h.of_eq rfl rfl
    · exact h
  | starts call =>
    rw [SnowflakeState.step]
    cases s.calls call with
    | none => exact h.of_eq rfl rfl
    | some c => exact h
  | incr call =>
    rw [SnowflakeState.step]
    cases hcall : s.calls call with
    | none => exact h
    | some c =>
      by_cases hrange : (c.i : ℤ) < timeRange c.startingTimestamp
      · simp only [if_pos hrange]
        exact h.incr (fun counter ↦ halive c hcall hrange counter) rfl rfl
      · simp only [if_neg hrange]
        exact h.of_eq rfl rfl

/-- An `INCR` that reaches an expired counter returns the id of its first `INCR` again. -/
theorem Accounted.counterAlive_of_idsOk (h : Accounted settings s) (event : SnowflakeEvent)
    (hnext : IdsOk settings (s.step settings event)) : CounterAlive settings s event := by
  cases event with
  | clock | starts => trivial
  | incr call =>
    intro c hcall hrange counter hcounter hfit
    by_contra hexpired
    have hzero : (s.incr c.timestamp).1 = 0 := by
      simp [SnowflakeState.incr, hcounter, hexpired]
    have hunique := hnext.unique
    rw [SnowflakeState.step, hcall] at hunique
    simp only [if_pos hrange, hzero, packId_eq_some_iff.mpr ⟨hfit, rfl⟩] at hunique
    obtain ⟨r, hr, hvalues⟩ := h.first _ _ hcounter hfit
    rw [if_pos (by decide), map_append, map_singleton] at hunique
    obtain ⟨-, hid, -⟩ := h.packed r hr
    refine disjoint_of_nodup_append hunique (List.mem_map.mpr ⟨r, hr, rfl⟩) ?_
    rw [hid, hvalues]
    exact mem_singleton_self _

/-- In every run of concurrent calls, all ids returned are distinct, have 53 bits and decode to
their segments throughout the run, if and only if no `INCR` reaches the expired counter of a
timestamp (whose ids fit). -/
theorem idsOk_iff_everyStep (settings : Settings) (start : ℚ) (events : List SnowflakeEvent) :
    (∀ first, first <+: events → IdsOk settings ((snowflakes settings start).run first)) ↔
      (snowflakes settings start).EveryStep (CounterAlive settings)
        (snowflakes settings start).init events :=
  (snowflakes settings start).forall_prefix_property_iff_everyStep (fun _ h ↦ h.idsOk)
    (fun _ event h halive ↦ h.step event halive)
    (fun _ event h hnext ↦ h.counterAlive_of_idsOk event hnext) (accounted_init settings start)
    events

/-- A call that reads the clock and is held up for 300 seconds gets the id that another call got in
the meantime. -/
def heldUpRun : List SnowflakeEvent :=
  [.starts 1, .starts 2, .incr 1, .clock 305, .incr 2]

theorem heldUp_sameId : ((snowflakes ⟨1, 0⟩ 5).run heldUpRun).returned.map Returned.id =
        [4503599627698176, 4503599627698176] ∧
      ¬IdsOk ⟨1, 0⟩ ((snowflakes ⟨1, 0⟩ 5).run heldUpRun) := by
  have hreturned : ((snowflakes ⟨1, 0⟩ 5).run heldUpRun).returned.map Returned.id =
      [4503599627698176, 4503599627698176] := by
    decide +kernel
  refine ⟨hreturned, fun h ↦ ?_⟩
  have hunique := h.unique
  rw [hreturned] at hunique
  simp at hunique

end Sentry.Snowflake
