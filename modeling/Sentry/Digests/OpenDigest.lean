import Sentry.Digests.ScheduleInvariant

/-!
# Records added while a digest is open

`RedisBackend.digest` holds the lock of a timeline from `DIGEST_OPEN` to `DIGEST_CLOSE`; `ADD`,
`SCHEDULE` and `MAINTENANCE` take no lock. There is no capacity. A record added while the digest is
open enters the timeline set, but its value is stored under its id, and the close deletes the values
of the ids it is given. So a close keeps the records added during the digest exactly when none of
them has the id of a record that the open returned (`keepsAdded_close_iff`).
-/

namespace Sentry.Digests

open Library List Function

variable {τ ρ ν : Type*} [LinearOrder τ] [LinearOrder ρ]

/-- The store, and for one timeline: while a digest is open, the ids of the records that its open
returned, and the last values added for records since the open. -/
structure SessionState (τ ρ ν : Type*) [LinearOrder τ] [LinearOrder ρ] where
  store : Store τ ρ ν
  session : Option (List ρ)
  added : ρ → Option ν

/-- The commands on one timeline, and a delivery that raises. -/
inductive SessionEvent (ρ ν : Type*)
  | add (recordId : ρ) (value : ν) (timestamp delayIncrement delayMaximum : ℚ)
  | schedule (deadline : ℚ)
  | maintenance (deadline : ℚ)
  | digestOpen
  | digestClose (timestamp delayMinimum : ℚ)
  | raise

namespace SessionState

/-- `RedisBackend.add` without a capacity. -/
def add (s : SessionState τ ρ ν) (timelineId : τ) (recordId : ρ) (value : ν)
    (timestamp delayIncrement delayMaximum : ℚ) : SessionState τ ρ ν :=
  { s with
    store := (s.store.addRecordToTimeline
      { timelineId := timelineId, recordId := recordId, value := value, timestamp := timestamp
        delayIncrement := delayIncrement, delayMaximum := delayMaximum
        timelineCapacity := -1, truncationChance := 0, random := 0 }).1
    added := Function.update s.added recordId (some value) }

/-- The beginning of `RedisBackend.digest`, when the lock is free. It raises when the timeline is
not ready. -/
def digestOpen (s : SessionState τ ρ ν) (timelineId : τ) : SessionState τ ρ ν :=
  match s.session with
  | some _ => s
  | none =>
    match s.store.digestTimeline timelineId (-1) with
    | .error _ => s
    | .ok (opened, records) =>
      { store := opened, session := some (records.map (·.1)), added := fun _ ↦ none }

/-- The end of `RedisBackend.digest`. -/
def digestClose (s : SessionState τ ρ ν) (timelineId : τ) (timestamp delayMinimum : ℚ) :
    SessionState τ ρ ν :=
  match s.session with
  | none => s
  | some recordIds =>
    { s with
      store := s.store.closeDigest timestamp timelineId delayMinimum recordIds
      session := none }

end SessionState

/-- The digests of one timeline, on a store that is empty at first. -/
def sessions (ρ ν : Type*) [LinearOrder ρ] (timelineId : τ) :
    Machine (SessionState τ ρ ν) (SessionEvent ρ ν) where
  init := ⟨Store.empty, none, fun _ ↦ none⟩
  step s
    | .add recordId value timestamp delayIncrement delayMaximum =>
      s.add timelineId recordId value timestamp delayIncrement delayMaximum
    | .schedule deadline => { s with store := (s.store.schedule deadline).1 }
    | .maintenance deadline => { s with store := s.store.maintenance deadline }
    | .digestOpen => s.digestOpen timelineId
    | .digestClose timestamp delayMinimum => s.digestClose timelineId timestamp delayMinimum
    | .raise => { s with session := none }

/-- The record waits for the next digest of the timeline, and its value is stored. -/
def Stored (s : Store τ ρ ν) (timelineId : τ) (recordId : ρ) (value : ν) : Prop :=
  recordId ∈ s.timeline timelineId ∧ s.record timelineId recordId = some value

def SessionEvent.Spares (recordId : ρ) : SessionEvent ρ ν → Prop
  | .add added _ _ _ _ => added ≠ recordId
  | .schedule _ | .maintenance _ => True
  | .digestOpen | .digestClose _ _ | .raise => False

/-- The records added since the digest was opened are stored in the state, and when only other
records are added until the next open, that open returns them with their values. -/
def KeepsAdded (timelineId : τ) (added : ρ → Option ν) (s : SessionState τ ρ ν) : Prop :=
  ∀ recordId value, added recordId = some value →
    Stored s.store timelineId recordId value ∧
      ∀ later : List (SessionEvent ρ ν), (∀ event ∈ later, event.Spares recordId) →
        ∀ opened records, ((sessions ρ ν timelineId).runFrom s later).store.digestTimeline
            timelineId (-1) = .ok (opened, records) →
          ∃ score, (recordId, some value, score) ∈ records

theorem addRecordToTimeline_records (s : Store τ ρ ν) (args : AddArguments τ ρ ν)
    (hcapacity : args.timelineCapacity ≤ 0) :
    let put := s.putRecord args.timelineId args.recordId args.value args.timestamp
    (s.addRecordToTimeline args).1.timeline = put.timeline ∧
      (s.addRecordToTimeline args).1.record = put.record := by
  have hno : ¬ (0 < args.timelineCapacity ∧ args.random < args.truncationChance) :=
    fun h ↦ absurd h.1 (Int.not_lt.mpr hcapacity)
  obtain ⟨htimeline, -, hrecord⟩ := addTimelineToSchedule_records
    (s.putRecord args.timelineId args.recordId args.value args.timestamp) args.timelineId
    args.timestamp args.delayIncrement args.delayMaximum
  unfold Store.addRecordToTimeline
  rw [if_neg hno]
  exact ⟨htimeline, hrecord⟩

theorem stored_add_iff (s : SessionState τ ρ ν) (timelineId : τ) (recordId other : ρ)
    (value otherValue : ν) (timestamp delayIncrement delayMaximum : ℚ) :
    Stored (s.add timelineId recordId value timestamp delayIncrement delayMaximum).store timelineId
        other otherValue ↔
      if other = recordId then value = otherValue
      else Stored s.store timelineId other otherValue := by
  have hrecords := addRecordToTimeline_records s.store
    ⟨timelineId, recordId, value, timestamp, delayIncrement, delayMaximum, -1, 0, 0⟩ (by simp)
  rw [Stored, SessionState.add, hrecords.1, hrecords.2]
  simp only [Store.putRecord, update_self, SortedSet.mem_add]
  split_ifs with hid
  · simp [hid]
  · rw [update_of_ne hid]
    simp [hid, Stored]

variable {timelineId : τ}

theorem mem_digest_snapshot {s : Store τ ρ ν} {recordId : ρ}
    (h : recordId ∈ s.timeline timelineId) :
    recordId ∈ (s.snapshot timelineId (-1)).digest timelineId := by
  have hsome : (s.timeline timelineId).card ≠ 0 :=
    fun hzero ↦ (SortedSet.card_eq_zero_iff _).mp hzero recordId h
  unfold Store.snapshot
  rw [if_neg hsome]
  split_ifs with hdigest hcapacity
  · simpa [Store.renameTimeline] using h
  · omega
  · simpa [Store.mergeTimeline] using Or.inl h

theorem record_snapshot (s : Store τ ρ ν) (timelineId : τ) :
    (s.snapshot timelineId (-1)).record = s.record := by
  unfold Store.snapshot
  split_ifs with htimeline hdigest hcapacity
  · rfl
  · rfl
  · omega
  · rfl

theorem exists_mem_of_digestTimeline {s opened : Store τ ρ ν} {recordId : ρ}
    {value : ν} {records : List (ρ × Option ν × ℚ)} (h : Stored s timelineId recordId value)
    (hopen : s.digestTimeline timelineId (-1) = .ok (opened, records)) :
    ∃ score, (recordId, some value, score) ∈ records := by
  unfold Store.digestTimeline at hopen
  split_ifs at hopen
  obtain ⟨-, rfl⟩ := Prod.mk.inj (Except.ok.inj hopen)
  obtain ⟨score, hscore⟩ := (SortedSet.mem_iff_exists_score _ _).mp (mem_digest_snapshot h.1)
  refine ⟨score, List.mem_map.mpr ⟨(recordId, score), ?_, ?_⟩⟩
  · exact (SortedSet.mem_revRange _ _ _).mpr hscore
  · rw [record_snapshot, h.2]

theorem stored_runFrom {s : SessionState τ ρ ν} {recordId : ρ} {value : ν}
    (h : Stored s.store timelineId recordId value) {later : List (SessionEvent ρ ν)}
    (hlater : ∀ event ∈ later, event.Spares recordId) :
    Stored ((sessions ρ ν timelineId).runFrom s later).store timelineId recordId value := by
  induction later generalizing s with
  | nil => exact h
  | cons event rest ih =>
    have hevent := hlater event mem_cons_self
    refine ih ?_ fun other hother ↦ hlater other (mem_cons_of_mem event hother)
    cases event with
    | add added addedValue timestamp delayIncrement delayMaximum =>
      refine (stored_add_iff _ _ _ _ _ _ _ _ _).mpr ?_
      rw [if_neg (Ne.symm hevent)]
      exact h
    | schedule | maintenance => exact h
    | digestOpen | digestClose | raise => exact hevent.elim

theorem foldl_closeChunk_records (s : Store τ ρ ν) (timelineId : τ) (chunks : List (List ρ)) :
    (chunks.foldl (fun store chunk ↦ store.closeChunk timelineId chunk) s).timeline = s.timeline ∧
      ∀ recordId,
        (chunks.foldl (fun store chunk ↦ store.closeChunk timelineId chunk) s).record timelineId
            recordId =
          if recordId ∈ chunks.flatten then none else s.record timelineId recordId := by
  induction chunks generalizing s with
  | nil => simp
  | cons chunk rest ih =>
    obtain ⟨htimeline, hrecord⟩ := ih (s.closeChunk timelineId chunk)
    refine ⟨htimeline, fun recordId ↦ ?_⟩
    rw [foldl_cons, hrecord, flatten_cons]
    by_cases hrest : recordId ∈ rest.flatten
    · simp [hrest]
    · simp [hrest, Store.closeChunk, Store.delRecords]

theorem reschedule_records (s : Store τ ρ ν) (timestamp : ℚ) (timelineId : τ) (delayMinimum : ℚ)
    (recordIds : List ρ) :
    (s.reschedule timestamp timelineId delayMinimum recordIds).timeline = s.timeline ∧
      (s.reschedule timestamp timelineId delayMinimum recordIds).record = s.record := by
  unfold Store.reschedule
  split_ifs <;> exact ⟨rfl, rfl⟩

theorem stored_closeDigest_iff (s : Store τ ρ ν) (timestamp : ℚ) (timelineId : τ)
    (delayMinimum : ℚ) (recordIds : List ρ) (recordId : ρ) (value : ν) :
    Stored (s.closeDigest timestamp timelineId delayMinimum recordIds) timelineId recordId value ↔
      Stored s timelineId recordId value ∧ recordId ∉ recordIds := by
  obtain ⟨htimeline, hrecord⟩ := foldl_closeChunk_records s timelineId (chunked 1000 recordIds)
  unfold Stored Store.closeDigest
  rw [(reschedule_records _ _ _ _ _).1, (reschedule_records _ _ _ _ _).2, htimeline, hrecord,
    flatten_chunked]
  by_cases hid : recordId ∈ recordIds <;> simp [hid]

def AddedStored (timelineId : τ) (s : SessionState τ ρ ν) : Prop :=
  s.session.isSome → ∀ recordId value, s.added recordId = some value →
    Stored s.store timelineId recordId value

theorem addedStored_step {s : SessionState τ ρ ν} (event : SessionEvent ρ ν)
    (h : AddedStored timelineId s) :
    AddedStored timelineId ((sessions ρ ν timelineId).step s event) := by
  cases event with
  | add added addedValue timestamp delayIncrement delayMaximum =>
    intro hsession recordId value hadded
    refine (stored_add_iff _ _ _ _ _ _ _ _ _).mpr ?_
    simp only [sessions, SessionState.add, update_apply] at hadded
    split_ifs at hadded ⊢ with hid
    · exact Option.some.inj hadded
    · exact h hsession recordId value hadded
  | schedule | maintenance => exact h
  | digestOpen =>
    simp only [sessions, SessionState.digestOpen]
    split
    · exact h
    · split
      · exact h
      · intro _ recordId value hadded
        cases hadded
  | digestClose timestamp delayMinimum =>
    simp only [sessions, SessionState.digestClose]
    split
    · exact h
    · exact fun hsession ↦ absurd hsession (by simp)
  | raise => exact fun hsession ↦ absurd hsession (by simp [sessions])

theorem addedStored_run (timelineId : τ) (events : List (SessionEvent ρ ν)) :
    AddedStored timelineId ((sessions ρ ν timelineId).run events) :=
  (sessions ρ ν timelineId).run_invariant (I := AddedStored timelineId)
    (fun hsession ↦ absurd hsession (by simp [sessions])) (fun _ event ↦ addedStored_step event)
    events

/-- Assumes: a digest is open after a run, with the given record ids. Its close keeps the records
that were added since the open if and only if none of them has the id of a record that the open
returned. -/
theorem keepsAdded_close_iff (timelineId : τ) (events : List (SessionEvent ρ ν))
    (recordIds : List ρ)
    (hsession : ((sessions ρ ν timelineId).run events).session = some recordIds)
    (timestamp delayMinimum : ℚ) :
    KeepsAdded timelineId ((sessions ρ ν timelineId).run events).added
        ((sessions ρ ν timelineId).run (events ++ [.digestClose timestamp delayMinimum])) ↔
      ∀ recordId value, ((sessions ρ ν timelineId).run events).added recordId = some value →
        recordId ∉ recordIds := by
  have hstored := addedStored_run timelineId events (by rw [hsession]; rfl)
  rw [Machine.run_concat]
  set s := (sessions ρ ν timelineId).run events
  have hclose : ((sessions ρ ν timelineId).step s (.digestClose timestamp delayMinimum)).store =
      s.store.closeDigest timestamp timelineId delayMinimum recordIds := by
    simp only [sessions, SessionState.digestClose, hsession]
  constructor
  · intro hkeeps recordId value hadded
    have hafter := (hkeeps recordId value hadded).1
    rw [hclose, stored_closeDigest_iff] at hafter
    exact hafter.2
  · intro hother recordId value hadded
    have hafter : Stored ((sessions ρ ν timelineId).step s
        (.digestClose timestamp delayMinimum)).store timelineId recordId value := by
      rw [hclose, stored_closeDigest_iff]
      exact ⟨hstored recordId value hadded, hother recordId value hadded⟩
    exact ⟨hafter, fun later hlater opened records hopen ↦
      exists_mem_of_digestTimeline (stored_runFrom hafter hlater) hopen⟩

/-- Record 1 is added and a digest opened; record 2 is added while it is open. -/
def newRecordRun : List (SessionEvent ℕ ℕ) :=
  [.add 1 10 0 0 0, .digestOpen, .add 2 20 1 0 0]

theorem newRecord_keepsAdded :
    KeepsAdded 7 ((sessions ℕ ℕ 7).run newRecordRun).added
      ((sessions ℕ ℕ 7).run (newRecordRun ++ [.digestClose 2 60])) := by
  have hsession : ((sessions ℕ ℕ 7).run newRecordRun).session = some [1] := by decide
  refine (keepsAdded_close_iff 7 newRecordRun [1] hsession 2 60).mpr ?_
  rintro recordId value hadded hid
  have hnone : ((sessions ℕ ℕ 7).run newRecordRun).added 1 = none := by decide
  rw [mem_singleton.mp hid, hnone] at hadded
  cases hadded

/-- Record 1 is added and a digest opened; record 1 is added again while it is open. -/
def recurringRecordRun : List (SessionEvent ℕ ℕ) :=
  [.add 1 10 0 0 0, .digestOpen, .add 1 20 1 0 0, .digestClose 2 60]

/-- After the close the record is in the timeline set without its value, and the next open returns
it with none. -/
theorem recurringRecord_run :
    1 ∈ ((sessions ℕ ℕ 7).run recurringRecordRun).store.timeline 7 ∧
      ((sessions ℕ ℕ 7).run recurringRecordRun).store.record 7 1 = none ∧
        (((sessions ℕ ℕ 7).run (recurringRecordRun ++ [.schedule 100])).store.digestTimeline 7
          (-1)).map Prod.snd = .ok [(1, none, 1)] := by
  decide +kernel

end Sentry.Digests
