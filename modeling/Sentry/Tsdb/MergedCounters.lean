import Sentry.Tsdb.Conservation

/-!
# What a merge conserves

The sum of the destination and the sources in a bucket and environment, and what `get_range` reads
of other keys, after any interleaving of a merge with calls of `incr_multi`, are what they were with
what was incremented, exactly where what is lost between an HGET and an HDEL is what other counters
put into the same fields (`conserved_iff`).
-/

namespace Sentry.Tsdb.RedisTSDB

open Library List

variable (tsdb : RedisTSDB) (merge : Merge) (calls : List IncrMulti)

def counterAt (model : TSDBModel) (rollup timestamp : ℕ) (key : TSDBKey)
    (environmentId : Option ℕ) : Counter :=
  ⟨model, rollup, normalizeToRollup timestamp rollup, key, environmentId⟩

/-- The destination and the sources. -/
def Merge.merged : Finset ℤ := insert merge.destination merge.sources.toFinset

def Merge.counters (rollup timestamp : ℕ) (environmentId : Option ℕ) : Finset Counter :=
  merge.merged.image fun id ↦ counterAt merge.model rollup timestamp (.int id) environmentId

def incremented (counters : Finset Counter) : ℤ :=
  (calls.map fun call ↦ amountOn (· ∈ counters) (tsdb.increments call)).sum

def shared (counters : Finset Counter) : ℤ :=
  (calls.map fun call ↦ amountOn
    (fun counter ↦ tsdb.cell counter ∈ counters.image tsdb.cell ∧ counter ∉ counters)
    (tsdb.increments call)).sum

def ConservedOn (before after : Cell → Option ℤ) (counters : Finset Counter) : Prop :=
  ∑ counter ∈ counters, tsdb.read after counter =
    ∑ counter ∈ counters, tsdb.read before counter + tsdb.incremented calls counters

theorem remaining_image (counters : Finset Counter) :
    remaining (counters.image tsdb.cell) (calls.map tsdb.incrMulti) =
      tsdb.incremented calls counters + tsdb.shared calls counters := by
  have hcall (call : IncrMulti) :
      amountOn (· ∈ counters.image tsdb.cell) (tsdb.incrMulti call) =
        amountOn (· ∈ counters) (tsdb.increments call) +
          amountOn (fun counter ↦ tsdb.cell counter ∈ counters.image tsdb.cell ∧ counter ∉ counters)
            (tsdb.increments call) := by
    have hsub : ∀ counter, counter ∈ counters → tsdb.cell counter ∈ counters.image tsdb.cell :=
      fun counter hcounter ↦ Finset.mem_image_of_mem _ hcounter
    rw [incrMulti, amountOn_sumByKey, amountOn_map, amountOn_eq_add hsub]
  unfold remaining incremented shared
  rw [map_map, ← sum_map_add]
  exact congrArg List.sum (map_congr_left fun call _ ↦ hcall call)

theorem conservedOn_iff {counters : Finset Counter} (hcell : Set.InjOn tsdb.cell counters)
    (hclosed : tsdb.Closed merge (counters.image tsdb.cell) (tsdb.sourceCells merge))
    (redis : Cell → Option ℤ) {events : List Event}
    (hfinished : (tsdb.run merge (tsdb.start merge calls redis) events).Finished) :
    tsdb.ConservedOn calls redis (tsdb.run merge (tsdb.start merge calls redis) events).redis
        counters ↔
      tsdb.lost merge (counters.image tsdb.cell) (tsdb.start merge calls redis) events =
        tsdb.shared calls counters := by
  have hsum (table : Cell → Option ℤ) : ∑ cell ∈ counters.image tsdb.cell, count table cell =
      ∑ counter ∈ counters, tsdb.read table counter := Finset.sum_image hcell
  have htodo : tsdb.Closed merge (counters.image tsdb.cell)
      (tsdb.start merge calls redis).merge.todo := fun source hsource ↦
    hclosed source (tsdb.todo_nextSource_subset merge _ _ hsource)
  have hbalance := tsdb.balance_run merge (counters.image tsdb.cell) htodo events
  rw [balance_finished tsdb merge _ hfinished, balance_start, remaining_image, hsum, hsum]
    at hbalance
  unfold ConservedOn
  omega

theorem counterAt_injective (model : TSDBModel) (rollup timestamp : ℕ) (environmentId : Option ℕ) :
    Function.Injective fun id ↦
      tsdb.cell (counterAt model rollup timestamp (.int id) environmentId) := by
  intro id other h
  exact ModelKey.int.inj (congrArg Cell.key h)

theorem injOn_counters (rollup timestamp : ℕ) (environmentId : Option ℕ) :
    Set.InjOn tsdb.cell (merge.counters rollup timestamp environmentId) := by
  intro counter hcounter other hother h
  obtain ⟨id, _, rfl⟩ := Finset.mem_image.mp hcounter
  obtain ⟨id', _, rfl⟩ := Finset.mem_image.mp hother
  rw [tsdb.counterAt_injective merge.model rollup timestamp environmentId h]

theorem makeCounterKey_mem_iff {id : ℤ} (hid : id ∈ merge.merged) (rollup timestamp : ℕ)
    (environmentId : Option ℕ) (slot : Slot) :
    tsdb.makeCounterKey merge.model slot.1 slot.2.1 (.int id) slot.2.2 ∈
        (merge.counters rollup timestamp environmentId).image tsdb.cell ↔
      normalizeToRollup slot.2.1 slot.1 = normalizeToRollup timestamp rollup ∧
        slot.2.2 = environmentId := by
  rw [Merge.counters, Finset.image_image, Finset.mem_image]
  constructor
  · intro ⟨other, _, h⟩
    exact ⟨(congrArg Cell.epoch h).symm, (congrArg Cell.environmentId h).symm⟩
  · intro ⟨hepoch, henvironment⟩
    refine ⟨id, hid, ?_⟩
    unfold makeCounterKey counterAt
    rw [Function.comp_apply, hepoch, henvironment]
    rfl

theorem exists_of_mem_sourceCells {source : Slot × Cell} (h : source ∈ tsdb.sourceCells merge) :
    ∃ id ∈ merge.sources, source.2 =
      tsdb.makeCounterKey merge.model source.1.1 source.1.2.1 (.int id) source.1.2.2 := by
  unfold sourceCells at h
  split_ifs at h
  · obtain ⟨⟨rollup, series⟩, _, h⟩ := mem_flatMap.mp h
    obtain ⟨timestamp, _, h⟩ := mem_flatMap.mp h
    obtain ⟨id, hid, h⟩ := mem_flatMap.mp h
    obtain ⟨environmentId, _, rfl⟩ := mem_map.mp h
    exact ⟨id, hid, rfl⟩
  · cases h

theorem closed_counters (rollup timestamp : ℕ) (environmentId : Option ℕ) :
    tsdb.Closed merge ((merge.counters rollup timestamp environmentId).image tsdb.cell)
      (tsdb.sourceCells merge) := by
  intro source hsource
  obtain ⟨id, hid, hcell⟩ := tsdb.exists_of_mem_sourceCells merge hsource
  have hmerged : id ∈ merge.merged := Finset.mem_insert_of_mem (List.mem_toFinset.mpr hid)
  have hdestination : merge.destination ∈ merge.merged := Finset.mem_insert_self ..
  rw [hcell, makeCounterKey_mem_iff tsdb merge hmerged]
  exact (makeCounterKey_mem_iff tsdb merge hdestination rollup timestamp environmentId _).symm

def Merge.IsMerged (model : TSDBModel) (key : TSDBKey) : Prop :=
  model = merge.model ∧ ∃ id ∈ merge.merged, key = .int id

theorem makeCounterKey_ne {model : TSDBModel} {key : TSDBKey} (hkey : ¬ merge.IsMerged model key)
    {id : ℤ} (hid : id ∈ merge.merged) (rollup timestamp rollup' timestamp' : ℕ)
    (environmentId environmentId' : Option ℕ) :
    tsdb.makeCounterKey merge.model rollup' timestamp' (.int id) environmentId' ≠
      tsdb.cell (counterAt model rollup timestamp key environmentId) := by
  intro h
  refine hkey ⟨(congrArg Cell.model h).symm, id, hid, ?_⟩
  have hmodelKey : ModelKey.int id = tsdb.getModelKey key := congrArg Cell.key h
  cases key with
  | int other => rw [ModelKey.int.inj hmodelKey]
  | text value => cases hmodelKey

def Untouched (cells : Finset Cell) (state : MergeState) : Prop :=
  (∀ source ∈ state.todo, source.2 ∉ cells) ∧
    ∀ cell todo data, state = .deleting cell todo data → cell ∉ cells

variable {cells : Finset Cell}

theorem untouched_nextSource {todo : List (Slot × Cell)}
    (h : ∀ source ∈ todo, source.2 ∉ cells) (data : Data) :
    Untouched cells (tsdb.nextSource merge todo data) := by
  refine ⟨fun source hsource ↦ h source (tsdb.todo_nextSource_subset merge todo data hsource), ?_⟩
  intro cell others values hstate
  unfold nextSource at hstate
  split_ifs at hstate

theorem untouched_step {s : State} (h : Untouched cells s.merge)
    (event : Event) : Untouched cells (tsdb.step merge s event).merge := by
  cases event with
  | call i =>
    rw [step]
    cases s.nextCommand i <;> exact h
  | merge =>
    obtain ⟨redis, calls, state⟩ := s
    cases state with
    | reading todo data =>
      cases todo with
      | nil => exact h
      | cons source todo =>
        refine ⟨fun other hother ↦ h.1 other (mem_cons_of_mem _ hother), ?_⟩
        intro cell others values hstate
        obtain ⟨rfl, _, _⟩ := MergeState.deleting.inj hstate
        exact h.1 source mem_cons_self
    | deleting cell todo data => exact tsdb.untouched_nextSource merge h.1 data
    | adding todo =>
      cases todo with
      | nil => exact h
      | cons command todo =>
        refine ⟨fun other hother ↦ absurd hother not_mem_nil, ?_⟩
        intro cell others values hstate
        cases hstate

theorem lost_eq_zero {s : State} (h : Untouched cells s.merge)
    (events : List Event) : tsdb.lost merge cells s events = 0 := by
  induction events generalizing s with
  | nil => rfl
  | cons event events ih =>
    rw [lost, ih (tsdb.untouched_step merge h event), add_zero]
    cases event with
    | merge => rfl
    | call i =>
      unfold lossOf
      dsimp only
      cases hstate : s.merge with
      | reading | adding => rfl
      | deleting cell todo data =>
        cases s.nextCommand i with
        | none => rfl
        | some command => exact if_neg fun hboth ↦ h.2 cell todo data hstate hboth.2

/-- In every bucket and environment the sum of the destination and the sources is what it was, with
what was incremented, and so is what `get_range` reads of every other key. -/
def Conserved (before after : Cell → Option ℤ) : Prop :=
  ∀ rollup ∈ tsdb.rollups.map Prod.fst,
    (∀ timestamp environmentId, tsdb.ConservedOn calls before after
      (merge.counters rollup timestamp environmentId)) ∧
    ∀ model key, ¬ merge.IsMerged model key → ∀ start stop environmentId,
      tsdb.getRange after model key start stop rollup environmentId =
        (tsdb.getRange before model key start stop rollup environmentId).map fun point ↦
          (point.1, point.2 +
            tsdb.incremented calls {counterAt model rollup point.1 key environmentId})

/-- In every bucket and environment, what calls increment a source by between the HGET and the HDEL
of it is what they increment other counters by in the same fields; and no other key has its fields
in common with counters that are incremented, or these increments cancel. -/
def LostAsShared (redis : Cell → Option ℤ) (events : List Event) : Prop :=
  ∀ rollup ∈ tsdb.rollups.map Prod.fst,
    (∀ timestamp environmentId,
      tsdb.lost merge ((merge.counters rollup timestamp environmentId).image tsdb.cell)
          (tsdb.start merge calls redis) events =
        tsdb.shared calls (merge.counters rollup timestamp environmentId)) ∧
    ∀ model key, ¬ merge.IsMerged model key → ∀ timestamp environmentId,
      tsdb.shared calls {counterAt model rollup timestamp key environmentId} = 0

theorem counterAt_normalizeToEpoch (model : TSDBModel) (rollup timestamp : ℕ) (key : TSDBKey)
    (environmentId : Option ℕ) :
    counterAt model rollup (normalizeToEpoch timestamp rollup) key environmentId =
      counterAt model rollup timestamp key environmentId := by
  have hepoch : (timestamp - timestamp % rollup) / rollup = timestamp / rollup := by
    rcases Nat.eq_zero_or_pos rollup with rfl | hpos
    · rw [Nat.div_zero, Nat.div_zero]
    · rw [← Nat.div_mul_self_eq_mod_sub_self, Nat.mul_div_cancel _ hpos]
  unfold counterAt normalizeToRollup normalizeToEpoch
  rw [hepoch]

theorem getRollupSeries_self (timestamp rollup : ℕ) :
    getRollupSeries timestamp timestamp rollup = [normalizeToEpoch timestamp rollup] := by
  simp [getRollupSeries]

/-- What `get_range` reads of a key is conserved where each of its counters is. -/
theorem getRange_conserved_iff (before after : Cell → Option ℤ) (model : TSDBModel) (key : TSDBKey)
    (rollup : ℕ) :
    (∀ start stop environmentId,
      tsdb.getRange after model key start stop rollup environmentId =
        (tsdb.getRange before model key start stop rollup environmentId).map fun point ↦
          (point.1, point.2 +
            tsdb.incremented calls {counterAt model rollup point.1 key environmentId})) ↔
      ∀ timestamp environmentId,
        tsdb.ConservedOn calls before after
          {counterAt model rollup timestamp key environmentId} := by
  unfold ConservedOn
  simp only [Finset.sum_singleton]
  constructor
  · intro h timestamp environmentId
    have hpoint := h timestamp timestamp environmentId
    unfold getRange at hpoint
    rw [getRollupSeries_self] at hpoint
    have hvalue := congrArg Prod.snd (List.cons.inj hpoint).1
    rw [← counterAt_normalizeToEpoch]
    exact hvalue
  · intro h start stop environmentId
    unfold getRange
    rw [map_map]
    refine map_congr_left fun timestamp _ ↦ ?_
    exact Prod.ext rfl (h timestamp environmentId)

/-- A merge conserves the counters exactly where what it loses is what other counters put into the
same fields. -/
theorem conserved_iff (redis : Cell → Option ℤ) (events : List Event)
    (hfinished : (tsdb.run merge (tsdb.start merge calls redis) events).Finished) :
    tsdb.Conserved merge calls redis (tsdb.run merge (tsdb.start merge calls redis) events).redis ↔
      tsdb.LostAsShared merge calls redis events := by
  unfold Conserved LostAsShared
  refine forall₂_congr fun rollup _ ↦ and_congr ?_ ?_
  · refine forall₂_congr fun timestamp environmentId ↦ ?_
    exact tsdb.conservedOn_iff merge calls
      (tsdb.injOn_counters merge rollup timestamp environmentId)
      (tsdb.closed_counters merge rollup timestamp environmentId) redis hfinished
  · refine forall₂_congr fun model key ↦ forall_congr' fun hkey ↦ ?_
    rw [getRange_conserved_iff]
    refine forall₂_congr fun timestamp environmentId ↦ ?_
    set counter := counterAt model rollup timestamp key environmentId with hcounter
    have hnone (id : ℤ) (hid : id ∈ merge.merged) (rollup' timestamp' : ℕ)
        (environmentId' : Option ℕ) :
        tsdb.makeCounterKey merge.model rollup' timestamp' (.int id) environmentId' ∉
          ({counter} : Finset Counter).image tsdb.cell := by
      rw [Finset.image_singleton, Finset.mem_singleton]
      exact tsdb.makeCounterKey_ne merge hkey hid _ _ _ _ _ _
    have hsource : ∀ source ∈ tsdb.sourceCells merge,
        source.2 ∉ ({counter} : Finset Counter).image tsdb.cell := by
      intro source hsource
      obtain ⟨id, hid, hcell⟩ := tsdb.exists_of_mem_sourceCells merge hsource
      rw [hcell]
      exact hnone id (Finset.mem_insert_of_mem (List.mem_toFinset.mpr hid)) _ _ _
    have hclosed : tsdb.Closed merge (({counter} : Finset Counter).image tsdb.cell)
        (tsdb.sourceCells merge) := fun source hin ↦
      iff_of_false (hsource source hin) (hnone merge.destination (Finset.mem_insert_self _ _) _ _ _)
    have hinjective : Set.InjOn tsdb.cell ({counter} : Finset Counter) := by simp
    rw [tsdb.conservedOn_iff merge calls hinjective hclosed redis hfinished,
      lost_eq_zero tsdb merge (tsdb.untouched_nextSource merge hsource []) events]
    exact eq_comm

variable {tsdb calls} in
/-- One rollup of ten seconds, with one sample. -/
def tenSeconds : RedisTSDB where
  rollups := [(10, 1)]
  legacyRollups := []
  vnodes := 64
  md5 := fun value ↦ value
  crc32 := fun _ ↦ 0

/-- Group 2 merged into group 1, at second 100. -/
def intoFirst : Merge where
  model := .group
  destination := 1
  sources := [2]
  timestamp := fun _ ↦ 100
  now := fun _ ↦ 100
  environmentIds := []

/-- An event of group 2 at second 100. -/
def eventOfSecond : IncrMulti where
  items := [⟨.group, .int 2, none, none⟩]
  timestamp := 100
  count := 1
  environmentId := none

/-- The call increments the counter of group 2 between the HGET and the HDEL. -/
def incrementedBetween : List Event := [.merge, .call 0, .merge]

/-- The call increments the counter of group 2 before the HGET. -/
def incrementedBefore : List Event := [.call 0, .merge, .merge, .merge]

theorem incrementedBetween_not_conserved :
    (tenSeconds.run intoFirst (tenSeconds.start intoFirst [eventOfSecond] fun _ ↦ none)
        incrementedBetween).Finished ∧
      ¬ tenSeconds.Conserved intoFirst [eventOfSecond] (fun _ ↦ none)
        (tenSeconds.run intoFirst (tenSeconds.start intoFirst [eventOfSecond] fun _ ↦ none)
          incrementedBetween).redis := by
  refine ⟨⟨by decide, by decide⟩, fun hconserved ↦ ?_⟩
  have hsum := (hconserved 10 (by decide)).1 100 none
  unfold ConservedOn at hsum
  revert hsum
  decide

theorem conserved_iff_incrementedBefore :
    tenSeconds.Conserved intoFirst [eventOfSecond] (fun _ ↦ none)
        (tenSeconds.run intoFirst (tenSeconds.start intoFirst [eventOfSecond] fun _ ↦ none)
          incrementedBefore).redis ↔
      tenSeconds.LostAsShared intoFirst [eventOfSecond] (fun _ ↦ none) incrementedBefore :=
  tenSeconds.conserved_iff intoFirst [eventOfSecond] (fun _ ↦ none) incrementedBefore
    ⟨by decide, by decide⟩

end Sentry.Tsdb.RedisTSDB
