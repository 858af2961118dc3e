import Sentry.Library.Machine
import Mathlib.Data.Int.Basic

/-!
# The span buffer

`spans/buffer/redis.py`. Spans are pushed to the list of their segment. A new segment gets an entry
in the bucket of its partition, with the time at which it was first seen. A consumer prunes the
entries that are old enough, and reads and deletes the lists of the segments.

One event is one Redis command, and nothing expires. A bucket is kept as its pairs of a time and a
segment. Every pushed span has a number with it, so that equal spans can be told apart.
-/

namespace Sentry.Spans

open Library

variable {Span : Type*}

/-- `SegmentKey` -/
structure SegmentKey where
  segmentId : String
  projectId : ℕ
  partition : ℕ
  deriving DecidableEq

/-- The key of the list of a segment, `segment:{segment_id}:{project_id}:process-segment`. -/
structure Segment where
  segmentId : String
  projectId : ℕ
  deriving DecidableEq

/-- `get_segment_key` -/
def getSegmentKey (key : SegmentKey) : Segment := ⟨key.segmentId, key.projectId⟩

/-- An item of `spans_map`, which has spans, with its item of `segment_first_seen_ts`. -/
structure Write (Span : Type*) where
  key : SegmentKey
  spans : List Span
  spans_ne : spans ≠ []
  firstSeen : ℤ

/-- `ProcessSegmentsContext` -/
structure ProcessSegmentsContext where
  timestamp : ℤ
  partition : ℕ
  shouldProcessSegments : Bool

/-- A span in a list, and the number of its push. -/
structure Pushed (Span : Type*) where
  number : ℕ
  span : Span

/-- A call of `batch_write_and_check_processing`: it pushes the spans of the segments, with the
results of the pushes so far; sets the timestamps of its partitions; registers the new segments; or
is over. -/
inductive Writer (Span : Type*)
  | idle
  | pushing (todo : List (Write Span)) (results : List (Write Span × ℕ)) (latest : List (ℕ × ℤ))
  | stamping (results : List (Write Span × ℕ)) (latest : List (ℕ × ℤ))
      (contexts : List ProcessSegmentsContext)
  | registering (results : List (Write Span × ℕ)) (contexts : List ProcessSegmentsContext)
  | finished (contexts : List ProcessSegmentsContext)

/-- A call of `read_and_expire_many_segments`: the segments it has still to read, those it has still
to delete, and the values it has read. -/
inductive Reader (Span : Type*)
  | idle
  | ranging (todo read : List Segment) (values : List (List (Pushed Span)))
  | deleting (todo : List Segment) (values : List (List (Pushed Span)))
  | finished (values : List (List (Pushed Span)))

/-- A call of `get_unprocessed_segments_and_prune_bucket`: with the segments that it has found, it
has the bucket still to trim; or it has returned them. -/
inductive Pruner
  | idle
  | trimming (partition : ℕ) (segments : List Segment)
  | finished (segments : List Segment)

/-- Redis and the calls. The program does not know the rest: the pushes with their segments, what
was read of each segment, and the segments that were pruned and not deleted since. -/
structure State (Span : Type*) where
  segments : Segment → List (Pushed Span)
  buckets : ℕ → List (ℤ × Segment)
  lastProcessed : ℕ → Option ℤ
  writers : ℕ → Writer Span
  readers : ℕ → Reader Span
  pruners : ℕ → Pruner
  pushed : List (Segment × Pushed Span)
  read : List (Segment × Pushed Span)
  handed : List Segment

/-- The start of a call or its next command. -/
inductive Event (Span : Type*)
  | batchWrite (writer : ℕ) (writes : List (Write Span)) (latest : List (ℕ × ℤ))
  | write (writer : ℕ)
  | readAndExpire (reader : ℕ) (segments : List Segment)
  | read (reader : ℕ)
  | lrange (pruner partition : ℕ) (now : ℤ)
  | ltrim (pruner : ℕ)

namespace State

variable (s : State Span)

def setWriter (w : ℕ) (writer : Writer Span) : State Span :=
  { s with writers := Function.update s.writers w writer }

def setReader (r : ℕ) (reader : Reader Span) : State Span :=
  { s with readers := Function.update s.readers r reader }

def setPruner (p : ℕ) (pruner : Pruner) : State Span :=
  { s with pruners := Function.update s.pruners p pruner }

def numbered (spans : List Span) : List (Pushed Span) :=
  spans.mapIdx fun i span ↦ ⟨s.pushed.length + i, span⟩

/-- `RPUSH` to the list of a segment. -/
def rpush (segment : Segment) (spans : List Span) : State Span :=
  { s with
    segments := Function.update s.segments segment (s.segments segment ++ s.numbered spans)
    pushed := s.pushed ++ (s.numbered spans).map fun span ↦ (segment, span) }

/-- `GETSET` of the last processed timestamp. -/
def getset (partition : ℕ) (timestamp : ℤ) : State Span :=
  { s with lastProcessed := Function.update s.lastProcessed partition (some timestamp) }

/-- `RPUSH` to a bucket. -/
def register (partition : ℕ) (timestamp : ℤ) (segment : Segment) : State Span :=
  { s with
    buckets := Function.update s.buckets partition (s.buckets partition ++ [(timestamp, segment)]) }

/-- `last_ts is None or int(last_ts) < latest_ts` -/
def processContext (partition : ℕ) (timestamp : ℤ) : ProcessSegmentsContext :=
  ⟨timestamp, partition, (s.lastProcessed partition).all (· < timestamp)⟩

def write (w : ℕ) : State Span :=
  match s.writers w with
  | .pushing (next :: todo) results latest =>
    (s.rpush (getSegmentKey next.key) next.spans).setWriter w
      (.pushing todo
        (results ++ [(next, (s.segments (getSegmentKey next.key)).length + next.spans.length)])
        latest)
  | .pushing [] results latest => s.setWriter w (.stamping results latest [])
  | .stamping results ((partition, timestamp) :: latest) contexts =>
    (s.getset partition timestamp).setWriter w
      (.stamping results latest (contexts ++ [s.processContext partition timestamp]))
  | .stamping results [] contexts => s.setWriter w (.registering results contexts)
  | .registering ((next, numTotal) :: results) contexts =>
    (if next.spans.length = numTotal then
      s.register next.key.partition next.firstSeen (getSegmentKey next.key)
    else s).setWriter w (.registering results contexts)
  | .registering [] contexts => s.setWriter w (.finished contexts)
  | _ => s

def batchWrite (w : ℕ) (writes : List (Write Span)) (latest : List (ℕ × ℤ)) : State Span :=
  match s.writers w with
  | .idle => s.setWriter w (.pushing writes [] latest)
  | _ => s

/-- The next command of a reader: `LRANGE`, or `DEL` of one of the keys. -/
def readNext (r : ℕ) : State Span :=
  match s.readers r with
  | .ranging (segment :: todo) done values =>
    { s with read := s.read ++ (s.segments segment).map fun span ↦ (segment, span) }.setReader r
      (.ranging todo (done ++ [segment]) (values ++ [s.segments segment]))
  | .ranging [] done values => s.setReader r (.deleting done values)
  | .deleting (segment :: todo) values =>
    { s with
      segments := Function.update s.segments segment []
      handed := s.handed.filter (· ≠ segment) }.setReader r (.deleting todo values)
  | .deleting [] values => s.setReader r (.finished values)
  | _ => s

def readAndExpire (r : ℕ) (segments : List Segment) : State Span :=
  match s.readers r with
  | .idle => s.setReader r (.ranging segments [] [])
  | _ => s

/-- `LRANGE` of the bucket, and the segments up to the first that is too young. -/
def lrange (bufferWindow : ℤ) (p partition : ℕ) (now : ℤ) : State Span :=
  match s.pruners p with
  | .idle =>
    s.setPruner p (.trimming partition
      (((s.buckets partition).takeWhile fun entry ↦ ¬ now - entry.1 < bufferWindow).map (·.2)))
  | _ => s

/-- `LTRIM` of the bucket; the segments are returned. -/
def ltrim (p : ℕ) : State Span :=
  match s.pruners p with
  | .trimming partition segments =>
    { s with
      buckets := Function.update s.buckets partition
        ((s.buckets partition).drop segments.length)
      handed := segments ++ s.handed }.setPruner p (.finished segments)
  | _ => s

/-- One step. -/
def step (bufferWindow : ℤ) : Event Span → State Span
  | .batchWrite w writes latest => s.batchWrite w writes latest
  | .write w => s.write w
  | .readAndExpire r segments => s.readAndExpire r segments
  | .read r => s.readNext r
  | .lrange p partition now => s.lrange bufferWindow p partition now
  | .ltrim p => s.ltrim p

end State

/-- Any number of calls, from an empty buffer on. -/
def spansBuffer (Span : Type*) (bufferWindow : ℤ) : Machine (State Span) (Event Span) where
  init :=
    { segments := fun _ ↦ []
      buckets := fun _ ↦ []
      lastProcessed := fun _ ↦ none
      writers := fun _ ↦ .idle
      readers := fun _ ↦ .idle
      pruners := fun _ ↦ .idle
      pushed := []
      read := []
      handed := [] }
  step s event := s.step bufferWindow event

/-- The segments of a call in progress. -/
def Writer.segments : Writer Span → List Segment
  | .pushing todo results _ =>
    todo.map (fun write ↦ getSegmentKey write.key) ++
      results.map fun result ↦ getSegmentKey result.1.key
  | .stamping results _ _ => results.map fun result ↦ getSegmentKey result.1.key
  | .registering results _ => results.map fun result ↦ getSegmentKey result.1.key
  | _ => []

/-- The results of the pushes that a call has still to look at. -/
def Writer.results : Writer Span → List (Write Span × ℕ)
  | .pushing _ results _ => results
  | .stamping results _ _ => results
  | .registering results _ => results
  | _ => []

def Writer.toRegister (writer : Writer Span) : List Segment :=
  (writer.results.filter fun result ↦ result.1.spans.length = result.2).map fun result ↦
    getSegmentKey result.1.key

def Reader.pending : Reader Span → List Segment
  | .ranging _ read _ => read
  | .deleting todo _ => todo
  | _ => []

namespace State

/-- Every pushed span was read, or is still in the list of its segment. -/
def SpansKept (s : State Span) : Prop :=
  ∀ segment span, (segment, span) ∈ s.pushed → (segment, span) ∈ s.read ∨ span ∈ s.segments segment

/-- A segment with spans and no writer in progress is in a bucket, or was pruned and not deleted
since. -/
def SegmentsKept (s : State Span) : Prop :=
  ∀ segment, s.segments segment ≠ [] → (∀ w, segment ∉ (s.writers w).segments) →
    (∃ partition, segment ∈ (s.buckets partition).map (·.2)) ∨ segment ∈ s.handed

/-- No push to a segment that a reader has read and has still to delete. -/
def PushesApart (s : State Span) : Event Span → Prop
  | .write w => ∀ next todo results latest, s.writers w = .pushing (next :: todo) results latest →
      ∀ r, getSegmentKey next.key ∉ (s.readers r).pending
  | _ => True

/-- No two prunes of a bucket at the same time. -/
def PrunesApart (s : State Span) : Event Span → Prop
  | .lrange _ partition _ => ∀ p segments, s.pruners p ≠ .trimming partition segments
  | _ => True

end State

end Sentry.Spans
