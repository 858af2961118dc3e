import Sentry.Library.Dictionary
import Sentry.Library.Machine
import Mathlib.Algebra.Field.Rat

/-!
# The buffer of delayed rules

`RuleProcessor.enqueue_rule`, the tasks of `rules/processing/delayed_processing.py`, and the
commands of `buffer/redis.py` they use, for one project. The project list is scored by the time of
the last push. The project hash holds the enqueued pairs of a rule and a group; a large one is moved
to batch hashes. One event is one Redis command, the queueing of a task, or the counts of the slow
conditions of one pair, at any times. Nothing expires and nothing crashes.
-/

namespace Sentry.Rules.Delayed

open Library

variable {Pair Value : Type*}

/-- A call of `enqueue_rule`: it has pushed the project and has the pair still to push. -/
inductive Enqueue (Pair Value : Type*)
  | idle
  | pushed (pair : Pair) (value : Value)

/-- A run of `process_delayed_alert_conditions`, for this project, by the command that comes next:
none so far; the length of the project hash; the queueing of a task for the project hash; the items
of the project hash; the next batch with its number, out of the items that are left; the deletion of
a batch from the project hash, and the queueing of its task when no field is left; the deletion from
the project list; nothing. -/
inductive Run (Pair Value : Type*)
  | idle
  | counting (fetchTime : ℚ≥0)
  | queueing (fetchTime : ℚ≥0)
  | fetching (fetchTime : ℚ≥0)
  | batching (fetchTime : ℚ≥0) (number : ℕ) (items : List (Pair × Value))
  | trimming (fetchTime : ℚ≥0) (number : ℕ) (fields : List Pair) (items : List (Pair × Value))
  | deleting (fetchTime : ℚ≥0)
  | finished

/-- A task `apply_delayed`: not queued yet, queued, or at work on the pairs it has read, with the
pairs whose counts it has still to read and the fields it has still to clean up. -/
inductive Task (Pair : Type*)
  | absent
  | queued
  | running (uncounted uncleaned : List Pair)

abbrev TaskKey := ℕ × Option ℕ

/-- The buffer, the calls, the runs and the tasks, and the pairs that no task has counted since they
were pushed, which the program does not know. -/
structure State (Pair Value : Type*) where
  projectList : Option ℚ≥0
  projectHash : List (Pair × Value)
  batchHash : ℕ → ℕ → List (Pair × Value)
  calls : ℕ → Enqueue Pair Value
  runs : ℕ → Run Pair Value
  tasks : TaskKey → Task Pair
  unevaluated : List Pair

/-- A call pushes to the sorted set and to the hash; a run does its next command; a task reads its
hash, counts for a pair and cleans up a field. -/
inductive Event (Pair Value : Type*)
  | pushToSortedSet (call : ℕ) (pair : Pair) (value : Value) (time : ℚ≥0)
  | pushToHash (call : ℕ)
  | getSortedSet (run : ℕ) (fetchTime : ℚ≥0)
  | getHashLength (run : ℕ)
  | delay (run : ℕ)
  | getHash (run : ℕ)
  | pushToHashBulk (run : ℕ)
  | deleteHash (run : ℕ)
  | deleteKey (run : ℕ)
  | fetch (task : TaskKey)
  | count (task : TaskKey) (pair : Pair)
  | cleanup (task : TaskKey) (pair : Pair)

namespace State

variable (s : State Pair Value)

def setRun (r : ℕ) (run : Run Pair Value) : State Pair Value :=
  { s with runs := Function.update s.runs r run }

def setTask (key : TaskKey) (task : Task Pair) : State Pair Value :=
  { s with tasks := Function.update s.tasks key task }

def setBatch (r number : ℕ) (batch : List (Pair × Value)) : State Pair Value :=
  { s with
    batchHash := Function.update s.batchHash r
      (Function.update (s.batchHash r) number batch) }

/-- `push_to_sorted_set` -/
def pushToSortedSet (call : ℕ) (pair : Pair) (value : Value) (time : ℚ≥0) : State Pair Value :=
  match s.calls call with
  | .idle =>
    { s with
      projectList := some time
      calls := Function.update s.calls call (.pushed pair value) }
  | .pushed _ _ => s

/-- `push_to_hash` -/
def pushToHash [DecidableEq Pair] (call : ℕ) : State Pair Value :=
  match s.calls call with
  | .idle => s
  | .pushed pair value =>
    { s with
      projectHash := setItem pair value s.projectHash
      calls := Function.update s.calls call .idle
      unevaluated := pair :: s.unevaluated }

def ListedUntil (time : ℚ≥0) : Prop := ∃ score, s.projectList = some score ∧ score ≤ time

instance (time : ℚ≥0) : Decidable (s.ListedUntil time) :=
  match h : s.projectList with
  | none => isFalse fun ⟨_, hscore, _⟩ ↦ by simp [h] at hscore
  | some score => decidable_of_iff (score ≤ time)
      ⟨fun hle ↦ ⟨score, h, hle⟩, fun ⟨_, hscore, hle⟩ ↦ by simp_all⟩

/-- `get_sorted_set`: a run without the project has only the deletion left. -/
def getSortedSet (r : ℕ) (fetchTime : ℚ≥0) : State Pair Value :=
  match s.runs r with
  | .idle =>
    s.setRun r (if s.ListedUntil fetchTime then .counting fetchTime else .deleting fetchTime)
  | _ => s

/-- `get_hash_length`, and the comparison with the batch size. -/
def getHashLength (batchSize r : ℕ) : State Pair Value :=
  match s.runs r with
  | .counting fetchTime =>
    s.setRun r
      (if s.projectHash.length < batchSize then .queueing fetchTime else .fetching fetchTime)
  | _ => s

/-- `apply_delayed.delay`, for the project hash or for a batch. -/
def delay (r : ℕ) : State Pair Value :=
  match s.runs r with
  | .queueing fetchTime => (s.setTask (r, none) .queued).setRun r (.deleting fetchTime)
  | .trimming fetchTime number [] items =>
    (s.setTask (r, some number) .queued).setRun r (.batching fetchTime (number + 1) items)
  | _ => s

/-- `fetch_rulegroup_to_event_data` -/
def getHash (r : ℕ) : State Pair Value :=
  match s.runs r with
  | .fetching fetchTime => s.setRun r (.batching fetchTime 0 s.projectHash)
  | _ => s

/-- `push_to_hash_bulk` for the next batch; the loop ends with an empty one. -/
def pushToHashBulk (batchSize r : ℕ) : State Pair Value :=
  match s.runs r with
  | .batching fetchTime number items =>
    match items.take batchSize with
    | [] => s.setRun r (.deleting fetchTime)
    | batch =>
      (s.setBatch r number batch).setRun r
        (.trimming fetchTime number (batch.map Prod.fst) (items.drop batchSize))
  | _ => s

/-- `delete_hash` for the batch, its next field. -/
def deleteHash [DecidableEq Pair] (r : ℕ) : State Pair Value :=
  match s.runs r with
  | .trimming fetchTime number (pair :: fields) items =>
    { s with projectHash := delItem pair s.projectHash }.setRun r
      (.trimming fetchTime number fields items)
  | _ => s

/-- `delete_key` -/
def deleteKey (r : ℕ) : State Pair Value :=
  match s.runs r with
  | .deleting fetchTime =>
    { s with projectList := if s.ListedUntil fetchTime then none else s.projectList }.setRun r
      .finished
  | _ => s

def hashOf : TaskKey → List (Pair × Value)
  | (_, none) => s.projectHash
  | (r, some number) => s.batchHash r number

/-- `fetch_rulegroup_to_event_data` -/
def fetch (key : TaskKey) : State Pair Value :=
  match s.tasks key with
  | .queued =>
    s.setTask key (.running ((s.hashOf key).map Prod.fst) ((s.hashOf key).map Prod.fst))
  | _ => s

/-- `get_condition_group_results`, for one of the pairs. -/
def count [DecidableEq Pair] (key : TaskKey) (pair : Pair) : State Pair Value :=
  match s.tasks key with
  | .running uncounted uncleaned =>
    if pair ∈ uncounted then
      { s with unevaluated := s.unevaluated.filter (· ≠ pair) }.setTask key
        (.running (uncounted.filter (· ≠ pair)) uncleaned)
    else s
  | _ => s

def deleteField [DecidableEq Pair] : TaskKey → Pair → State Pair Value
  | (_, none), pair => { s with projectHash := delItem pair s.projectHash }
  | (r, some number), pair => s.setBatch r number (delItem pair (s.batchHash r number))

/-- `cleanup_redis_buffer`, one of the fields, when all the counts have been read. -/
def cleanup [DecidableEq Pair] (key : TaskKey) (pair : Pair) : State Pair Value :=
  match s.tasks key with
  | .running [] uncleaned =>
    if pair ∈ uncleaned then
      (s.deleteField key pair).setTask key (.running [] (uncleaned.filter (· ≠ pair)))
    else s
  | _ => s

/-- One step. -/
def step [DecidableEq Pair] (batchSize : ℕ) : Event Pair Value → State Pair Value
  | .pushToSortedSet call pair value time => s.pushToSortedSet call pair value time
  | .pushToHash call => s.pushToHash call
  | .getSortedSet r fetchTime => s.getSortedSet r fetchTime
  | .getHashLength r => s.getHashLength batchSize r
  | .delay r => s.delay r
  | .getHash r => s.getHash r
  | .pushToHashBulk r => s.pushToHashBulk batchSize r
  | .deleteHash r => s.deleteHash r
  | .deleteKey r => s.deleteKey r
  | .fetch key => s.fetch key
  | .count key pair => s.count key pair
  | .cleanup key pair => s.cleanup key pair

end State

/-- Any number of calls, runs and tasks, from an empty buffer on. -/
def delayedBuffer (Pair Value : Type*) [DecidableEq Pair] (batchSize : ℕ) :
    Machine (State Pair Value) (Event Pair Value) where
  init := ⟨none, [], fun _ _ ↦ [], fun _ ↦ .idle, fun _ ↦ .idle, fun _ ↦ .absent, []⟩
  step s event := s.step batchSize event

def Run.WillRead : Run Pair Value → Prop
  | .counting _ | .queueing _ | .fetching _ => True
  | _ => False

/-- The items that the run has still to put in batches. -/
def Run.items : Run Pair Value → List (Pair × Value)
  | .batching _ _ items | .trimming _ _ _ items => items
  | _ => []

/-- The batch for which the run will queue a task. -/
def Run.batch : Run Pair Value → Option ℕ
  | .trimming _ number _ _ => some number
  | _ => none

def Run.Unqueued : Run Pair Value → Option ℕ → Prop
  | .idle, _ | .counting _, _ | .queueing _, _ | .fetching _, _ => True
  | .batching _ number _, some n | .trimming _ number _ _, some n => number ≤ n
  | _, _ => False

def Task.uncounted : Task Pair → List Pair
  | .running uncounted _ => uncounted
  | _ => []

namespace State

variable (batchSize : ℕ) (s : State Pair Value)

def WillRead : Prop :=
  (0 < batchSize ∧ ∃ r, (s.runs r).WillRead) ∨ ∃ r, s.tasks (r, none) = .queued

def BatchWillBeRead (r number : ℕ) : Prop :=
  s.tasks (r, some number) = .queued ∨ (s.runs r).batch = some number

def Taken (pair : Pair) : Prop :=
  (∃ key, pair ∈ (s.tasks key).uncounted) ∨
    (0 < batchSize ∧ ∃ r, pair ∈ (s.runs r).items.map Prod.fst) ∨
      ∃ r number, pair ∈ (s.batchHash r number).map Prod.fst ∧ s.BatchWillBeRead r number

def Attended : Prop := s.projectList ≠ none ∨ s.WillRead batchSize

def Saved (pair : Pair) : Prop :=
  (pair ∈ s.projectHash.map Prod.fst ∧ s.Attended batchSize) ∨ s.Taken batchSize pair

/-- No pair that is still to be evaluated is lost. -/
def NoneLost : Prop := ∀ pair ∈ s.unevaluated, s.Saved batchSize pair

end State

end Sentry.Rules.Delayed
