import Sentry.Library.Machine
import Mathlib.Data.Finset.Basic

/-!
# Following the leaders of a commit log

`consumers/synchronized.py`. A synchronized consumer returns a message only when all the groups it
follows have committed past it; one that comes too early is held back, its partition paused in the
wrapped consumer and sought back to it. The wrapped consumer is a parameter (`Consumer`), with
documented behaviour assumed of it (`LawfulConsumer`).

A `poll` takes three steps, and the commit log and the callbacks of a rebalance come between them.
The trace records what can be seen from outside, and an observer follows it (`Observed`).
-/

namespace Sentry.Consumers

open Library

variable {Group Partition σ χ : Type*} [DecidableEq Group] [DecidableEq Partition]

/-- The interface of a consumer. `log` are the offsets of a partition that hold a message, a mapping
of partitions to offsets is given entry by entry, and `poll` depends on what the broker does. -/
structure Consumer (Partition σ χ : Type*) where
  init : σ
  log : Partition → Set ℕ
  tell : σ → Partition → Option ℕ
  paused : σ → List Partition
  pause : σ → List Partition → σ
  resume : σ → List Partition → σ
  seek : σ → Partition → ℕ → σ
  assign : σ → Partition → ℕ → σ
  revoke : σ → Partition → σ
  poll : σ → χ → Option (Partition × ℕ) × σ

/-- `o` is the first message of the partition at or after the position `k`. -/
def NextMessage (log : Set ℕ) (k o : ℕ) : Prop :=
  k ≤ o ∧ o ∈ log ∧ ∀ i, k ≤ i → i < o → i ∉ log

/-- The documented behaviour of a consumer. Nothing is assigned at the beginning; pausing, resuming
and seeking assigned partitions do just that; a rebalance touches only its own partition and drops
the pause of it; `poll` returns the next message of a partition that is assigned and not paused, and
moves behind it. -/
structure LawfulConsumer (c : Consumer Partition σ χ) : Prop where
  tell_init : c.tell c.init = fun _ ↦ none
  tell_pause : ∀ s ps, c.tell (c.pause s ps) = c.tell s
  mem_paused_pause : ∀ s ps p, (∀ q ∈ ps, (c.tell s q).isSome) →
    (p ∈ c.paused (c.pause s ps) ↔ p ∈ ps ∨ p ∈ c.paused s)
  tell_resume : ∀ s ps, c.tell (c.resume s ps) = c.tell s
  mem_paused_resume : ∀ s ps p, p ∈ c.paused (c.resume s ps) ↔ p ∉ ps ∧ p ∈ c.paused s
  tell_seek : ∀ s p o, (c.tell s p).isSome →
    c.tell (c.seek s p o) = Function.update (c.tell s) p (some o)
  paused_seek : ∀ s p o, c.paused (c.seek s p o) = c.paused s
  tell_assign : ∀ s p o, c.tell (c.assign s p o) = Function.update (c.tell s) p (some o)
  mem_paused_assign : ∀ s p o q, q ∈ c.paused (c.assign s p o) ↔ q ≠ p ∧ q ∈ c.paused s
  tell_revoke : ∀ s p, c.tell (c.revoke s p) = Function.update (c.tell s) p none
  mem_paused_revoke : ∀ s p q, q ∈ c.paused (c.revoke s p) ↔ q ≠ p ∧ q ∈ c.paused s
  paused_poll : ∀ s choice, c.paused (c.poll s choice).2 = c.paused s
  tell_poll_none : ∀ s choice, (c.poll s choice).1 = none → c.tell (c.poll s choice).2 = c.tell s
  poll_some : ∀ s choice p o, (c.poll s choice).1 = some (p, o) →
    p ∉ c.paused s ∧ (∃ k, c.tell s p = some k ∧ NextMessage (c.log p) k o) ∧
      c.tell (c.poll s choice).2 = Function.update (c.tell s) p (some (o + 1))

/-- What can be seen from outside. -/
inductive Entry (Group Partition : Type*)
  | committed (group : Group) (p : Partition) (offset : ℤ)
  | assigned (p : Partition) (offset : ℕ)
  | revoked (p : Partition)
  | paused (ps : List Partition)
  | resumed (ps : List Partition)
  | sought (p : Partition) (offset : ℕ)
  | returned (p : Partition) (offset : ℕ)
  deriving DecidableEq

/-- Where `poll` stands. -/
inductive PollPhase (Partition : Type*)
  | idle
  | polling
  | checking (p : Partition) (offset : ℕ)

structure SynchronizedConsumer (Group Partition σ : Type*) where
  consumer : σ
  remoteOffsets : Group → Partition → Option ℤ
  paused : Finset Partition
  phase : PollPhase Partition
  trace : List (Entry Group Partition)

/-- The steps of the commit log thread, of `poll`, of the callbacks of a rebalance, and of the
caller. -/
inductive ConsumerEvent (Group Partition χ : Type*)
  | commitRecord (group : Group) (p : Partition) (offset : ℤ)
  | pollStarts
  | pollReturns (choice : χ)
  | checks
  | assigned (p : Partition) (offset : ℕ)
  | revoked (p : Partition)
  | pause (ps : List Partition)
  | resume (ps : List Partition)
  | seek (p : Partition) (offset : ℕ)

namespace SynchronizedConsumer

def remoteOffset (groups : List Group) (remoteOffsets : Group → Partition → Option ℤ)
    (p : Partition) : ℤ :=
  ((groups.map fun group ↦ (remoteOffsets group p).getD 0).min?).getD 0

/-- The partitions that `poll` resumes: paused, but not by the caller, and behind the leaders. The
partitions that are paused are assigned, so that they have a local offset. -/
def resumePartitions (c : Consumer Partition σ χ) (groups : List Group)
    (s : SynchronizedConsumer Group Partition σ) : List Partition :=
  (c.paused s.consumer).filter fun p ↦
    decide (p ∉ s.paused) &&
      match c.tell s.consumer p with
      | none => false
      | some localOffset => decide ((localOffset : ℤ) < remoteOffset groups s.remoteOffsets p)

/-- The callbacks and the caller run on the thread of `poll`: not between the `poll` of the wrapped
consumer and the check of its message. -/
def unlessChecking (s next : SynchronizedConsumer Group Partition σ) :
    SynchronizedConsumer Group Partition σ :=
  match s.phase with
  | .checking _ _ => s
  | _ => next

/-- One step. Pausing and resuming partitions that are not assigned raise `ConsumerError`. -/
def step (c : Consumer Partition σ χ) (groups : List Group)
    (s : SynchronizedConsumer Group Partition σ) :
    ConsumerEvent Group Partition χ → SynchronizedConsumer Group Partition σ
  | .commitRecord group p offset =>
    { s with
      remoteOffsets :=
        if group ∈ groups then
          Function.update s.remoteOffsets group
            (Function.update (s.remoteOffsets group) p (some offset))
        else s.remoteOffsets
      trace := s.trace ++ [.committed group p offset] }
  | .pollStarts =>
    match s.phase with
    | .idle =>
      { s with
        consumer :=
          if resumePartitions c groups s = [] then s.consumer
          else c.resume s.consumer (resumePartitions c groups s)
        phase := .polling }
    | _ => s
  | .pollReturns choice =>
    match s.phase with
    | .polling =>
      { s with
        consumer := (c.poll s.consumer choice).2
        phase :=
          match (c.poll s.consumer choice).1 with
          | none => .idle
          | some (p, offset) => .checking p offset }
    | _ => s
  | .checks =>
    match s.phase with
    | .checking p offset =>
      if remoteOffset groups s.remoteOffsets p ≤ offset then
        { s with
          consumer := c.seek (c.pause s.consumer [p]) p offset
          phase := .idle }
      else
        { s with
          phase := .idle
          trace := s.trace ++ [.returned p offset] }
    | _ => s
  | .assigned p offset =>
    s.unlessChecking
      { s with
        consumer := c.assign s.consumer p offset
        paused := s.paused.erase p
        trace := s.trace ++ [.assigned p offset] }
  | .revoked p =>
    s.unlessChecking
      { s with
        consumer := c.revoke s.consumer p
        paused := s.paused.erase p
        trace := s.trace ++ [.revoked p] }
  | .pause ps =>
    if ∀ p ∈ ps, (c.tell s.consumer p).isSome then
      s.unlessChecking
        { s with
          consumer := c.pause s.consumer ps
          paused := s.paused ∪ ps.toFinset
          trace := s.trace ++ [.paused ps] }
    else s
  | .resume ps =>
    if ∀ p ∈ ps, (c.tell s.consumer p).isSome then
      s.unlessChecking
        { s with
          paused := s.paused \ ps.toFinset
          trace := s.trace ++ [.resumed ps] }
    else s
  | .seek p offset =>
    if (c.tell s.consumer p).isSome then
      s.unlessChecking
        { s with
          consumer := c.seek s.consumer p offset
          trace := s.trace ++ [.sought p offset] }
    else s

end SynchronizedConsumer

/-- The synchronized consumer from its creation. -/
def synchronizedConsumer (c : Consumer Partition σ χ) (groups : List Group) :
    Machine (SynchronizedConsumer Group Partition σ) (ConsumerEvent Group Partition χ) where
  init := ⟨c.init, fun _ _ ↦ none, ∅, .idle, []⟩
  step := SynchronizedConsumer.step c groups

/-- What an observer of the trace knows: the last offset that each group has committed, the
partitions the caller has paused, and the position of each assigned partition: where it was assigned
or sought, or behind the last message returned since. -/
structure Observed (Group Partition : Type*) where
  committed : Group → Partition → Option ℤ
  paused : Finset Partition
  position : Partition → Option ℕ

def Observed.see (observed : Observed Group Partition) :
    Entry Group Partition → Observed Group Partition
  | .committed group p offset =>
    { observed with
      committed := Function.update observed.committed group
        (Function.update (observed.committed group) p (some offset)) }
  | .assigned p offset =>
    { observed with
      paused := observed.paused.erase p
      position := Function.update observed.position p (some offset) }
  | .revoked p =>
    { observed with
      paused := observed.paused.erase p
      position := Function.update observed.position p none }
  | .paused ps => { observed with paused := observed.paused ∪ ps.toFinset }
  | .resumed ps => { observed with paused := observed.paused \ ps.toFinset }
  | .sought p offset =>
    { observed with position := Function.update observed.position p (some offset) }
  | .returned p offset =>
    { observed with position := Function.update observed.position p (some (offset + 1)) }

/-- The observer of a trace. -/
def observer (Group Partition : Type*) [DecidableEq Group] [DecidableEq Partition] :
    Machine (Observed Group Partition) (Entry Group Partition) where
  init := ⟨fun _ _ ↦ none, ∅, fun _ ↦ none⟩
  step := Observed.see

/-- A message may be returned when it is strictly below the last offset of every leader (0 for a
leader that has not committed), its partition is not paused by the caller, and it is the next
message of the partition. -/
def Allowed (log : Partition → Set ℕ) (groups : List Group)
    (observed : Observed Group Partition) : Entry Group Partition → Prop
  | .returned p offset =>
    (groups ≠ [] ∧ ∀ group ∈ groups, (offset : ℤ) < (observed.committed group p).getD 0) ∧
      p ∉ observed.paused ∧
      ∃ k, observed.position p = some k ∧ NextMessage (log p) k offset
  | _ => True

end Sentry.Consumers
