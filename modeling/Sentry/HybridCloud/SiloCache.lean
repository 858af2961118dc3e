import Sentry.Library.Dictionary
import Sentry.Library.Machine

/-!
# The versioned cache of RPC results

`hybridcloud/rpc/caching/service.py` and `impl.py`, with `CacheVersionBase.incr_version`. A result
is cached under its key and the version of the key. A reader looks up the versions, then the cache,
and calls the wrapped function for what it has not found. `clear_key` increments the version, and so
does a reader of a text that cannot be decoded.

One event is one query, one operation of the cache, or the read of one object. An object stands for
its key, and `get_one` makes the steps of `get_many` for one object. The number of writes to an
object, which the program does not know, goes with every value read from it.
-/

namespace Sentry.HybridCloud.Caching

open Library

variable {Object Record : Type*}

/-- What the wrapped function returns for an object, and the number of writes before. -/
structure Source (Record : Type*) where
  record : Option Record
  writes : ℕ

/-- A cached text: that of a record, or one that does not decode. -/
inductive Cached (Record : Type*)
  | json (record : Record) (writes : ℕ)
  | corrupt

/-- Where a reader stands: not reading; with the versions of its keys; with the cached values to
decode one by one, the objects that are missing with their versions, and those that are found; with
the objects that the wrapped function has still to read, and those it has read; with the records to
add to the cache. -/
inductive Phase (Object Record : Type*)
  | idle
  | versioned (versions : List (Object × ℕ))
  | decoding (values : List ((Object × ℕ) × Option (Cached Record)))
      (missing : List (Object × ℕ)) (found : List (Object × Source Record))
  | reading (missing : List (Object × ℕ)) (read : List ((Object × ℕ) × Source Record))
      (found : List (Object × Source Record))
  | adding (read : List ((Object × ℕ) × Source Record)) (found : List (Object × Source Record))

/-- A reader, and for each object the writes after which its key was cleared before the read. -/
structure Reader (Object Record : Type*) where
  required : Object → ℕ
  phase : Phase Object Record

/-- What a reader has returned for an object, by leaving it out when it has no record. -/
structure Answer (Object Record : Type*) where
  object : Object
  required : ℕ
  value : Source Record

/-- The source, the version rows, the cache and the readers, the writes whose key the writers have
still to clear, and for each object the writes before the last clear. Of each version, `born` has
the writes before it was reached. -/
structure State (Object Record : Type*) where
  source : Object → Source Record
  versions : Object → Option ℕ
  cache : Object → ℕ → Option (Cached Record)
  readers : ℕ → Reader Object Record
  uncleared : ℕ → Option (Object × ℕ)
  cleared : Object → ℕ
  born : Object → ℕ → ℕ
  answers : List (Answer Object Record)

/-- A writer writes a row and clears the key; a reader looks up the versions, looks up the cache,
decodes a value, has the wrapped function read an object and return, adds a record and returns; an
entry of the cache is evicted or corrupted. -/
inductive Event (Object Record : Type*)
  | write (writer : ℕ) (object : Object) (record : Option Record)
  | clearKey (writer : ℕ)
  | getVersions (reader : ℕ) (objects : List Object)
  | getMany (reader : ℕ)
  | decode (reader : ℕ)
  | read (reader : ℕ) (object : Object)
  | callback (reader : ℕ)
  | setCache (reader : ℕ)
  | answer (reader : ℕ)
  | evict (object : Object) (version : ℕ)
  | corrupt (object : Object) (version : ℕ)

namespace State

variable [DecidableEq Object] (s : State Object Record)

/-- `versions.get(key, 0)` -/
def version (object : Object) : ℕ := (s.versions object).getD 0

def setPhase (r : ℕ) (phase : Phase Object Record) : State Object Record :=
  { s with readers := Function.update s.readers r { s.readers r with phase := phase } }

/-- `incr_version`: the row is created with version 1. -/
def incrVersion (object : Object) : State Object Record :=
  { s with
    versions := Function.update s.versions object (some (s.version object + 1))
    born := Function.update s.born object
      (Function.update (s.born object) (s.version object + 1) (s.source object).writes) }

def setEntry (object : Object) (version : ℕ) (entry : Option (Cached Record)) :
    State Object Record :=
  { s with
    cache := Function.update s.cache object (Function.update (s.cache object) version entry) }

def write (w : ℕ) (object : Object) (record : Option Record) : State Object Record :=
  match s.uncleared w with
  | none =>
    { s with
      source := Function.update s.source object ⟨record, (s.source object).writes + 1⟩
      uncleared := Function.update s.uncleared w (some (object, (s.source object).writes + 1)) }
  | some _ => s

/-- `clear_key` -/
def clearKey (w : ℕ) : State Object Record :=
  match s.uncleared w with
  | some (object, writes) =>
    { s.incrVersion object with
      uncleared := Function.update s.uncleared w none
      cleared := Function.update s.cleared object (max (s.cleared object) writes) }
  | none => s

/-- The query of `_get_cache`. -/
def getVersions (r : ℕ) (objects : List Object) : State Object Record :=
  match (s.readers r).phase with
  | .idle =>
    { s with
      readers := Function.update s.readers r
        ⟨s.cleared, .versioned (objects.dedup.map fun object ↦ (object, s.version object))⟩ }
  | _ => s

/-- `cache.get_many` -/
def getMany (r : ℕ) : State Object Record :=
  match (s.readers r).phase with
  | .versioned versions =>
    s.setPhase r (.decoding (versions.map fun key ↦ (key, s.cache key.1 key.2)) [] [])
  | _ => s

/-- One pass of the loop over the cached values. -/
def decode (r : ℕ) : State Object Record :=
  match (s.readers r).phase with
  | .decoding ((key, some (.json record writes)) :: rest) missing found =>
    s.setPhase r (.decoding rest missing (setItem key.1 ⟨some record, writes⟩ found))
  | .decoding ((key, some .corrupt) :: rest) missing found =>
    (s.incrVersion key.1).setPhase r
      (.decoding rest (setItem key.1 (s.version key.1 + 1) missing) found)
  | .decoding ((key, none) :: rest) missing found =>
    s.setPhase r (.decoding rest (setItem key.1 key.2 missing) found)
  | .decoding [] missing found => s.setPhase r (.reading missing [] found)
  | _ => s

def read (r : ℕ) (object : Object) : State Object Record :=
  match (s.readers r).phase with
  | .reading missing read found =>
    match getItem missing object with
    | some version =>
      s.setPhase r (.reading (delItem object missing)
        (read ++ [((object, version), s.source object)]) found)
    | none => s
  | _ => s

def callback (r : ℕ) : State Object Record :=
  match (s.readers r).phase with
  | .reading [] read found => s.setPhase r (.adding read found)
  | _ => s

/-- `_set_cache` for the next record; `cache.add` leaves an entry that is there. That there is no
record is not cached. -/
def setCache (r : ℕ) : State Object Record :=
  match (s.readers r).phase with
  | .adding ((key, value) :: rest) found =>
    match value.record, s.cache key.1 key.2 with
    | some record, none =>
      (s.setEntry key.1 key.2 (some (.json record value.writes))).setPhase r
        (.adding rest (setItem key.1 value found))
    | _, _ => s.setPhase r (.adding rest (setItem key.1 value found))
  | _ => s

def answersOf (required : Object → ℕ) (found : List (Object × Source Record)) :
    List (Answer Object Record) :=
  found.map fun item ↦ ⟨item.1, required item.1, item.2⟩

/-- The return of the reader. -/
def answer (r : ℕ) : State Object Record :=
  match (s.readers r).phase with
  | .adding [] found =>
    { s with answers := s.answers ++ answersOf (s.readers r).required found }.setPhase r .idle
  | _ => s

def evict (object : Object) (version : ℕ) : State Object Record := s.setEntry object version none

def corrupt (object : Object) (version : ℕ) : State Object Record :=
  match s.cache object version with
  | some _ => s.setEntry object version (some .corrupt)
  | none => s

/-- One step. -/
def step : Event Object Record → State Object Record
  | .write w object record => s.write w object record
  | .clearKey w => s.clearKey w
  | .getVersions r objects => s.getVersions r objects
  | .getMany r => s.getMany r
  | .decode r => s.decode r
  | .read r object => s.read r object
  | .callback r => s.callback r
  | .setCache r => s.setCache r
  | .answer r => s.answer r
  | .evict object version => s.evict object version
  | .corrupt object version => s.corrupt object version

end State

/-- Any number of writers and readers, from given rows, without versions and with an empty cache. -/
def siloCache [DecidableEq Object] (rows : Object → Option Record) :
    Machine (State Object Record) (Event Object Record) where
  init :=
    { source := fun object ↦ ⟨rows object, 0⟩
      versions := fun _ ↦ none
      cache := fun _ _ ↦ none
      readers := fun _ ↦ ⟨fun _ ↦ 0, .idle⟩
      uncleared := fun _ ↦ none
      cleared := fun _ ↦ 0
      born := fun _ _ ↦ 0
      answers := [] }
  step := State.step

end Sentry.HybridCloud.Caching
