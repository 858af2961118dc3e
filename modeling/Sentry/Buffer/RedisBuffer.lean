import Sentry.Library.Machine
import Mathlib.Algebra.Ring.Int.Defs

/-!
# The buffer in Redis

Increments are added to a hash per key, which also makes the key pending. A sweep queues tasks for
batches of the pending keys and removes them from the pending set; a task locks each of its keys, or
drops it, reads and deletes the hash and processes what it has read. Locks and keys do not expire, a
queued task is run once, and the commands may interleave in any order.
-/

namespace Sentry.Buffer

variable {Key Column Extra : Type} [DecidableEq Key] [DecidableEq Column]

/-- A call of `incr`, with its number. -/
structure Increment (Column : Type) where
  id : ℕ
  columns : List (Column × ℤ)

/-- The fields of a hash after the prefixes `i+` and `e+`, and the field `s`. The increments since
the hash was deleted are no part of it. -/
structure BufferHash (Column Extra : Type) where
  counters : Column → Option ℤ
  extra : Column → Option Extra
  signalOnly : Bool
  increments : List (Increment Column)

def emptyHash : BufferHash Column Extra := ⟨fun _ ↦ none, fun _ ↦ none, false, []⟩

def hincrby (counters : Column → Option ℤ) (column : Column × ℤ) : Column → Option ℤ :=
  Function.update counters column.1 (some ((counters column.1).getD 0 + column.2))

/-- The fields that `incr` writes. -/
def BufferHash.incr (hash : BufferHash Column Extra) (increment : Increment Column)
    (extra : List (Column × Extra)) (signalOnly : Bool) : BufferHash Column Extra where
  counters := increment.columns.foldl hincrby hash.counters
  extra := extra.foldl (fun fields field ↦ Function.update fields field.1 (some field.2)) hash.extra
  signalOnly := hash.signalOnly || signalOnly
  increments := hash.increments ++ [increment]

/-- The numbers of the increments of a hash, if there is one. -/
def idsOf (hash : Option (BufferHash Column Extra)) : List ℕ :=
  match hash with
  | some hash => hash.increments.map Increment.id
  | none => []

/-- What a task has done with its current key. -/
inductive Phase (Column Extra : Type)
  | locked
  | read (values : Option (BufferHash Column Extra))
  | removed (values : Option (BufferHash Column Extra))
  | deleted (values : Option (BufferHash Column Extra))
  | processed

/-- `process_incr` of a batch, with the keys that it has not begun. -/
structure BufferTask (Key Column Extra : Type) where
  current : Option (Key × Phase Column Extra)
  keys : List Key

/-- What `process_pending` still does with the keys that it has read. -/
inductive SweepOp (Key : Type)
  | append (key : Key)
  | zrem (keys : List Key)

/-- A sweep that reads the hosts one after the other, or that works with batches. -/
inductive Sweep (Key : Type)
  | idle
  | reading (hosts : List ℕ) (program : List (SweepOp Key))
  | working (program : List (SweepOp Key)) (batches : ℕ → List Key)

/-- The hosts, of which a cluster is one, and the pending buffers, of which the last one is that of
the models without a queue of their own. -/
structure BufferConfig (Key : Type) where
  hosts : List ℕ
  hostOf : Key → ℕ
  incrBatchSize : ℕ
  pendingBuffers : List ℕ
  getPendingBuffer : Key → ℕ

/-- The keys of the increments so far, in the order of their numbers, are kept for reference. -/
structure BufferState (Key Column Extra : Type) where
  hashes : Key → Option (BufferHash Column Extra)
  pending : List Key
  locked : Key → Bool
  sweep : Sweep Key
  queued : List (List Key)
  running : List (BufferTask Key Column Extra)
  calls : List (Key × BufferHash Column Extra)
  issued : List Key

/-- The transaction of `incr`. -/
def incr (s : BufferState Key Column Extra) (key : Key) (columns : List (Column × ℤ))
    (extra : List (Column × Extra)) (signalOnly : Bool) : BufferState Key Column Extra :=
  { s with
    hashes := Function.update s.hashes key (some (((s.hashes key).getD emptyHash).incr
      ⟨s.issued.length, columns⟩ extra signalOnly))
    pending := if key ∈ s.pending then s.pending else s.pending ++ [key]
    issued := s.issued ++ [key] }

/-- The next step of `process_pending`. -/
def sweepStep (config : BufferConfig Key) (s : BufferState Key Column Extra) :
    BufferState Key Column Extra :=
  match s.sweep with
  | .idle => s
  | .reading (host :: hosts) program =>
    let keys := s.pending.filter fun key ↦ config.hostOf key = host
    let more := if keys = [] then [] else keys.map SweepOp.append ++ [.zrem keys]
    { s with sweep := .reading hosts (program ++ more) }
  | .reading [] program => { s with sweep := .working program fun _ ↦ [] }
  | .working (.append key :: program) batches =>
    let batch := batches (config.getPendingBuffer key) ++ [key]
    if batch.length = config.incrBatchSize then
      { s with
        queued := s.queued ++ [batch]
        sweep := .working program (Function.update batches (config.getPendingBuffer key) []) }
    else { s with
      sweep := .working program (Function.update batches (config.getPendingBuffer key) batch) }
  | .working (.zrem keys :: program) batches =>
    { s with
      pending := s.pending.filter (· ∉ keys)
      sweep := .working program batches }
  | .working [] batches =>
    match config.pendingBuffers.find? fun buffer ↦ batches buffer ≠ [] with
    | some buffer =>
      { s with
        queued := s.queued ++ [batches buffer]
        sweep := .working [] (Function.update batches buffer []) }
    | none => { s with sweep := .idle }

def taskStep (s : BufferState Key Column Extra) (task : BufferTask Key Column Extra) :
    BufferState Key Column Extra × List (BufferTask Key Column Extra) :=
  match task.current, task.keys with
  | none, [] => (s, [])
  | none, key :: keys =>
    if s.locked key then (s, [⟨none, keys⟩])
    else ({ s with locked := Function.update s.locked key true }, [⟨some (key, .locked), keys⟩])
  | some (key, .locked), keys => (s, [⟨some (key, .read (s.hashes key)), keys⟩])
  | some (key, .read values), keys =>
    ({ s with pending := s.pending.filter (· ≠ key) }, [⟨some (key, .removed values), keys⟩])
  | some (key, .removed values), keys =>
    ({ s with hashes := Function.update s.hashes key none }, [⟨some (key, .deleted values), keys⟩])
  | some (key, .deleted (some values)), keys =>
    ({ s with calls := s.calls ++ [(key, values)] }, [⟨some (key, .processed), keys⟩])
  | some (key, .deleted none), keys =>
    ({ s with locked := Function.update s.locked key false }, [⟨none, keys⟩])
  | some (key, .processed), keys =>
    ({ s with locked := Function.update s.locked key false }, [⟨none, keys⟩])

inductive BufferEvent (Key Column Extra : Type)
  | incr (key : Key) (columns : List (Column × ℤ)) (extra : List (Column × Extra))
    (signalOnly : Bool)
  | processPending
  | sweep
  | startTask (index : ℕ)
  | task (index : ℕ)

def bufferStep (config : BufferConfig Key) (s : BufferState Key Column Extra) :
    BufferEvent Key Column Extra → BufferState Key Column Extra
  | .incr key columns extra signalOnly => incr s key columns extra signalOnly
  | .processPending =>
    match s.sweep with
    | .idle => { s with sweep := .reading config.hosts [] }
    | _ => s
  | .sweep => sweepStep config s
  | .startTask index =>
    match s.queued[index]? with
    | some keys => { s with
        queued := s.queued.eraseIdx index
        running := s.running ++ [⟨none, keys⟩] }
    | none => s
  | .task index =>
    match s.running[index]? with
    | some task =>
      { (taskStep s task).1 with
        running := s.running.take index ++ (taskStep s task).2 ++ s.running.drop (index + 1) }
    | none => s

/-- There is nothing in the buffer at first. -/
def redisBuffer (config : BufferConfig Key) :
    Library.Machine (BufferState Key Column Extra) (BufferEvent Key Column Extra) where
  init := ⟨fun _ ↦ none, [], fun _ ↦ false, .idle, [], [], [], []⟩
  step := bufferStep config

end Sentry.Buffer
