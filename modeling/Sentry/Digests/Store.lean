import Sentry.Library.SortedSet
import Mathlib.Algebra.Order.Ring.Rat

/-!
# The digest store

`scripts/digests/digests.lua`, the commands of `digests/backends/redis.py` on one Redis store. A
timeline has a set of waiting records, a set of records of the open digest, and a value for each
record; the schedule has a set of waiting timelines and a set of ready ones. Commands are atomic.

The expiry of keys is left out. Scores are rational. Redis replies with a score as a string, so the
comparison of an updated score with it always finds them different and the score is written.
-/

namespace Sentry.Digests

open Library List

section Chunked

variable {α : Type*}

def chunkedFrom (size : ℕ) : List α → List α → List (List α)
  | [], [] => []
  | chunk, [] => [chunk]
  | chunk, item :: rest =>
    if chunk.length + 1 = size then (chunk ++ [item]) :: chunkedFrom size [] rest
    else chunkedFrom size (chunk ++ [item]) rest

def chunked (size : ℕ) (items : List α) : List (List α) := chunkedFrom size [] items

theorem flatten_chunkedFrom (size : ℕ) (chunk items : List α) :
    (chunkedFrom size chunk items).flatten = chunk ++ items := by
  induction items generalizing chunk with
  | nil => cases chunk <;> simp [chunkedFrom]
  | cons item rest ih =>
    rw [chunkedFrom]
    split_ifs
    · rw [flatten_cons, ih, nil_append, append_assoc, singleton_append]
    · rw [ih, append_assoc, singleton_append]

@[simp] theorem flatten_chunked (size : ℕ) (items : List α) :
    (chunked size items).flatten = items :=
  flatten_chunkedFrom size [] items

end Chunked

section Sets

variable {α : Type*} [LinearOrder α]

/-- The rounds of `zrange_move_slice`: each chunk is added to the destination, and then removed
from the source. -/
def moveChunks (source destination : SortedSet α ℚ) (chunks : List (List (α × ℚ))) :
    SortedSet α ℚ × SortedSet α ℚ :=
  chunks.foldl
    (fun sets chunk ↦ (sets.1.removeAll (chunk.map Prod.fst), sets.2.addAll chunk))
    (source, destination)

/-- `zrange_move_slice`, with the entries it passes to the callback. -/
def zrangeMoveSlice (source destination : SortedSet α ℚ) (threshold : ℚ) :
    (SortedSet α ℚ × SortedSet α ℚ) × List (α × ℚ) :=
  let keys := source.rangeByScore 0 threshold
  (moveChunks source destination (chunked 500 keys), keys)

/-- `zset_trim`, with the items it passes to the callback. -/
def zsetTrim (set : SortedSet α ℚ) (capacity : ℕ) : SortedSet α ℚ × List α :=
  if set.card ≤ capacity then (set, [])
  else
    let items := (set.revRange.drop capacity).map Prod.fst
    (set.removeAll items, items)

theorem moveChunks_eq (source destination : SortedSet α ℚ) (chunks : List (List (α × ℚ))) :
    moveChunks source destination chunks =
      (source.removeAll (chunks.flatten.map Prod.fst), destination.addAll chunks.flatten) := by
  unfold moveChunks
  induction chunks generalizing source destination with
  | nil => rfl
  | cons chunk rest ih =>
    rw [foldl_cons, ih, flatten_cons, map_append]
    simp only [SortedSet.removeAll, SortedSet.addAll, foldl_append]

section

variable (source destination : SortedSet α ℚ) (threshold : ℚ)

theorem zrangeMoveSlice_eq : (zrangeMoveSlice source destination threshold).1 =
      (source.removeAll ((source.rangeByScore 0 threshold).map Prod.fst),
        destination.addAll (source.rangeByScore 0 threshold)) := by
  rw [zrangeMoveSlice, moveChunks_eq, flatten_chunked]

theorem mem_zrangeMoveSlice_source (a : α) :
    a ∈ (zrangeMoveSlice source destination threshold).1.1 ↔
      a ∉ (source.rangeByScore 0 threshold).map Prod.fst ∧ a ∈ source := by
  rw [zrangeMoveSlice_eq, SortedSet.mem_removeAll]

theorem mem_zrangeMoveSlice_destination (a : α) :
    a ∈ (zrangeMoveSlice source destination threshold).1.2 ↔
      a ∈ (source.rangeByScore 0 threshold).map Prod.fst ∨ a ∈ destination := by
  rw [zrangeMoveSlice_eq, SortedSet.mem_addAll]

end

theorem mem_of_mem_zsetTrim {set : SortedSet α ℚ} {capacity : ℕ} {a : α}
    (h : a ∈ (zsetTrim set capacity).1) : a ∈ set := by
  unfold zsetTrim at h
  split_ifs at h
  · exact h
  · exact ((SortedSet.mem_removeAll _ _ _).mp h).2

theorem not_mem_zsetTrim_zero (set : SortedSet α ℚ) (a : α) : a ∉ (zsetTrim set 0).1 := by
  unfold zsetTrim
  split_ifs with hcard
  · exact (set.card_eq_zero_iff.mp (Nat.le_zero.mp hcard)) a
  · intro h
    obtain ⟨hkept, hmem⟩ := (SortedSet.mem_removeAll _ _ _).mp h
    rw [SortedSet.mem_iff_mem_members] at hmem
    refine hkept ?_
    simpa [SortedSet.revRange] using hmem

end Sets

/-- The data of the store: the schedule, and for each timeline its records and the time it was
processed last. -/
structure Store (τ ρ ν : Type*) [LinearOrder τ] [LinearOrder ρ] where
  waiting : SortedSet τ ℚ
  ready : SortedSet τ ℚ
  timeline : τ → SortedSet ρ ℚ
  digest : τ → SortedSet ρ ℚ
  record : τ → ρ → Option ν
  lastProcessed : τ → Option ℚ

/-- The arguments of `ADD`, and the number that `math.random()` draws. -/
structure AddArguments (τ ρ ν : Type*) where
  timelineId : τ
  recordId : ρ
  value : ν
  timestamp : ℚ
  delayIncrement : ℚ
  delayMaximum : ℚ
  timelineCapacity : ℤ
  truncationChance : ℚ
  random : ℚ

variable {τ ρ ν : Type*} [LinearOrder τ] [LinearOrder ρ]

namespace Store

def empty : Store τ ρ ν where
  waiting := SortedSet.empty
  ready := SortedSet.empty
  timeline _ := SortedSet.empty
  digest _ := SortedSet.empty
  record _ _ := none
  lastProcessed _ := none

def delRecords (s : Store τ ρ ν) (timelineId : τ) (recordIds : List ρ) : Store τ ρ ν :=
  { s with record := fun timeline record ↦
      if timeline = timelineId ∧ record ∈ recordIds then none else s.record timeline record }

/-- `schedule`, with its response. -/
def schedule (s : Store τ ρ ν) (deadline : ℚ) : Store τ ρ ν × List (τ × ℚ) :=
  let moved := zrangeMoveSlice s.waiting s.ready deadline
  ({ s with waiting := moved.1.1, ready := moved.1.2 }, moved.2)

def maintenance (s : Store τ ρ ν) (deadline : ℚ) : Store τ ρ ν :=
  let moved := zrangeMoveSlice s.ready s.waiting deadline
  { s with ready := moved.1.1, waiting := moved.1.2 }

/-- `add_timeline_to_schedule`, with its response: whether the timeline has been made ready. -/
def addTimelineToSchedule (s : Store τ ρ ν) (timelineId : τ) (timestamp increment maximum : ℚ) :
    Store τ ρ ν × Bool :=
  if timelineId ∈ s.ready then (s, false)
  else
    match s.waiting.score timelineId with
    | none => ({ s with ready := s.ready.add timelineId timestamp }, true)
    | some score =>
      let update :=
        match s.lastProcessed timelineId with
        | none => min score timestamp
        | some lastProcessed => min (score + increment) (lastProcessed + maximum)
      ({ s with waiting := s.waiting.add timelineId update }, false)

def truncateTimeline (s : Store τ ρ ν) (timelineId : τ) (capacity : ℕ) : Store τ ρ ν :=
  let trimmed := zsetTrim (s.timeline timelineId) capacity
  { s with timeline := Function.update s.timeline timelineId trimmed.1 }.delRecords timelineId
    trimmed.2

def truncateDigest (s : Store τ ρ ν) (timelineId : τ) (capacity : ℕ) : Store τ ρ ν :=
  let trimmed := zsetTrim (s.digest timelineId) capacity
  { s with digest := Function.update s.digest timelineId trimmed.1 }.delRecords timelineId
    trimmed.2

/-- `SETEX` of the value and `ZADD` of the record. -/
def putRecord (s : Store τ ρ ν) (timelineId : τ) (recordId : ρ) (value : ν) (timestamp : ℚ) :
    Store τ ρ ν :=
  { s with
    record := Function.update s.record timelineId
      (Function.update (s.record timelineId) recordId (some value))
    timeline := Function.update s.timeline timelineId
      ((s.timeline timelineId).add recordId timestamp) }

def addRecordToTimeline (s : Store τ ρ ν) (args : AddArguments τ ρ ν) : Store τ ρ ν × Bool :=
  let put := s.putRecord args.timelineId args.recordId args.value args.timestamp
  let scheduled := put.addTimelineToSchedule args.timelineId args.timestamp args.delayIncrement
    args.delayMaximum
  if 0 < args.timelineCapacity ∧ args.random < args.truncationChance then
    (scheduled.1.truncateTimeline args.timelineId args.timelineCapacity.toNat, scheduled.2)
  else scheduled

/-- `RENAME` of the timeline to the digest. -/
def renameTimeline (s : Store τ ρ ν) (timelineId : τ) : Store τ ρ ν :=
  { s with
    timeline := Function.update s.timeline timelineId SortedSet.empty
    digest := Function.update s.digest timelineId (s.timeline timelineId) }

/-- `ZUNIONSTORE` of the timeline and the digest, and `DEL` of the timeline. -/
def mergeTimeline (s : Store τ ρ ν) (timelineId : τ) : Store τ ρ ν :=
  { s with
    timeline := Function.update s.timeline timelineId SortedSet.empty
    digest := Function.update s.digest timelineId
      ((s.timeline timelineId).unionMax (s.digest timelineId)) }

/-- The records of the timeline enter the digest. A digest that was not closed is merged with them
and truncated, otherwise they become the digest. -/
def snapshot (s : Store τ ρ ν) (timelineId : τ) (timelineCapacity : ℤ) : Store τ ρ ν :=
  if (s.timeline timelineId).card = 0 then s
  else if (s.digest timelineId).card = 0 then s.renameTimeline timelineId
  else if 0 < timelineCapacity then
    (s.mergeTimeline timelineId).truncateDigest timelineId timelineCapacity.toNat
  else s.mergeTimeline timelineId

def digestRecords (s : Store τ ρ ν) (timelineId : τ) : List (ρ × Option ν × ℚ) :=
  (s.digest timelineId).revRange.map fun entry ↦ (entry.1, s.record timelineId entry.1, entry.2)

def digestTimeline (s : Store τ ρ ν) (timelineId : τ) (timelineCapacity : ℤ) :
    Except String (Store τ ρ ν × List (ρ × Option ν × ℚ)) :=
  if timelineId ∉ s.ready then
    .error "err(invalid_state): timeline is not in the ready state, cannot be digested"
  else
    let opened := s.snapshot timelineId timelineCapacity
    .ok (opened, opened.digestRecords timelineId)

/-- A round of `close_digest`. -/
def closeChunk (s : Store τ ρ ν) (timelineId : τ) (recordIds : List ρ) : Store τ ρ ν :=
  { s with
    digest := Function.update s.digest timelineId
      ((s.digest timelineId).removeAll recordIds) }.delRecords timelineId recordIds

/-- The end of `close_digest`: the timeline waits for its next turn, or leaves the schedule when
the digest was empty and it has no record. -/
def reschedule (s : Store τ ρ ν) (timestamp : ℚ) (timelineId : τ) (delayMinimum : ℚ)
    (recordIds : List ρ) : Store τ ρ ν :=
  if 0 < recordIds.length ∨ 0 < (s.timeline timelineId).card ∨ 0 < (s.digest timelineId).card then
    { s with
      lastProcessed := Function.update s.lastProcessed timelineId (some timestamp)
      ready := s.ready.remove timelineId
      waiting := s.waiting.add timelineId (timestamp + delayMinimum) }
  else
    { s with
      lastProcessed := Function.update s.lastProcessed timelineId none
      ready := s.ready.remove timelineId
      waiting := s.waiting.remove timelineId }

def closeDigest (s : Store τ ρ ν) (timestamp : ℚ) (timelineId : τ) (delayMinimum : ℚ)
    (recordIds : List ρ) : Store τ ρ ν :=
  ((chunked 1000 recordIds).foldl
    (fun store chunk ↦ store.closeChunk timelineId chunk) s).reschedule
      timestamp timelineId delayMinimum recordIds

def deleteTimeline (s : Store τ ρ ν) (timelineId : τ) : Store τ ρ ν :=
  let truncated := (s.truncateTimeline timelineId 0).truncateDigest timelineId 0
  { truncated with
    lastProcessed := Function.update s.lastProcessed timelineId none
    ready := truncated.ready.remove timelineId
    waiting := truncated.waiting.remove timelineId }

end Store

/-- The commands with their arguments. The timestamp of the configuration is an argument of the one
that reads it. -/
inductive Command (τ ρ ν : Type*)
  | add (args : AddArguments τ ρ ν)
  | schedule (deadline : ℚ)
  | maintenance (deadline : ℚ)
  | digestOpen (timelineId : τ) (timelineCapacity : ℤ)
  | digestClose (timestamp : ℚ) (timelineId : τ) (delayMinimum : ℚ) (recordIds : List ρ)
  | delete (timelineId : τ)

def Store.execute (s : Store τ ρ ν) : Command τ ρ ν → Store τ ρ ν
  | .add args => (s.addRecordToTimeline args).1
  | .schedule deadline => (s.schedule deadline).1
  | .maintenance deadline => s.maintenance deadline
  | .digestOpen timelineId timelineCapacity =>
    match s.digestTimeline timelineId timelineCapacity with
    | .ok (opened, _) => opened
    | .error _ => s
  | .digestClose timestamp timelineId delayMinimum recordIds =>
    s.closeDigest timestamp timelineId delayMinimum recordIds
  | .delete timelineId => s.deleteTimeline timelineId

end Sentry.Digests
