import Sentry.Library.Machine
import Mathlib.Algebra.Order.Field.Rat

/-!
# Webhook delivery

`hybridcloud/tasks/deliver_webhooks.py` and `hybridcloud/models/webhookpayload.py`, for the payloads
of one mailbox. A run of `schedule_webhook_delivery` pushes the first 300 payloads back and starts a
task, `drain_mailbox` or from 100 payloads on `drain_mailbox_parallel`, which delivers payloads
slice by slice until none is left.

One event is one query or one request, with the work up to the next. Times are minutes since
`THE_PAST`. The batch and the time of its push stay with a task, which does not know them.
-/

namespace Sentry.HybridCloud.Webhooks

open Library

/-- `THE_PAST` -/
def thePast : ℚ := 0

def maxMailboxDrain : ℕ := 300

/-- `BACKOFF_INTERVAL`, in minutes. -/
def backoffInterval : ℚ := 3

def backoffRate : ℚ := 7 / 5

/-- `BATCH_SCHEDULE_OFFSET` -/
def batchScheduleOffset : ℚ := backoffInterval

def maxAttempts : ℕ := 10

/-- `MAX_DELIVERY_AGE`, of three days. -/
def maxDeliveryAge : ℚ := 3 * 24 * 60

/-- `WebhookPayload`, without what its request consists of. -/
structure WebhookPayload where
  id : ℕ
  dateAdded : ℚ
  scheduleFor : ℚ
  attempts : ℕ

/-- `schedule_next_attempt`, on the record in memory. -/
def WebhookPayload.scheduleNextAttempt (now : ℚ) (payload : WebhookPayload) : WebhookPayload :=
  { payload with
    attempts := payload.attempts + 1
    scheduleFor := max (now + min (backoffInterval * backoffRate ^ (payload.attempts + 1)) 60)
      payload.scheduleFor }

abbrev Rows := List WebhookPayload

def Rows.ids (rows : Rows) : List ℕ := rows.map (·.id)

/-- `payload.delete()` -/
def Rows.delete (rows : Rows) (id : ℕ) : Rows := rows.filter (·.id ≠ id)

/-- `self.update(attempts=…, schedule_for=…)`, from a record in memory. -/
def Rows.updateSchedule (rows : Rows) (payload : WebhookPayload) : Rows :=
  rows.map fun row ↦
    if row.id = payload.id then
      { row with attempts := payload.attempts, scheduleFor := payload.scheduleFor }
    else row

def Rows.startingAt (rows : Rows) (id limit : ℕ) : Rows := (rows.filter (id ≤ ·.id)).take limit

/-- The update of `schedule_for` for the rows with given ids. -/
def Rows.pushBack (rows : Rows) (ids : List ℕ) (time : ℚ) : Rows :=
  rows.map fun row ↦ if row.id ∈ ids then { row with scheduleFor := time } else row

/-- How far the delivery of a record is: read from the database; its next attempt scheduled; its
request answered, or not. -/
inductive Stage
  | fetched
  | attempted
  | delivered
  | failed
  deriving DecidableEq

/-- Where a task stands: in the queue; to discard payloads that are too old; at work, with its
deadline, the records of its slice that are left, and whether a request has failed; at its end. -/
inductive Phase
  | queued
  | discarding
  | running (deadline : ℚ) (slice : List (WebhookPayload × Stage)) (requestFailed : Bool)
  | finished

/-- A task `drain_mailbox` or `drain_mailbox_parallel`, with the batch for which it was started. -/
structure Drain where
  payloadId : ℕ
  parallel : Bool
  batch : List ℕ
  scheduledAt : ℚ
  phase : Phase

def Phase.slice : Phase → List (WebhookPayload × Stage)
  | .running _ slice _ => slice
  | _ => []

def Drain.held (drain : Drain) : List ℕ := drain.phase.slice.map (·.1.id)

/-- A run of `schedule_webhook_delivery`: it has selected nothing, or the head of the mailbox. -/
inductive Schedule
  | idle
  | selected (id : ℕ)

/-- The clock, the rows and the next id, the runs and the tasks, and which task has sent which
payload. -/
structure State where
  now : ℚ
  rows : Rows
  nextId : ℕ
  schedules : ℕ → Schedule
  drains : ℕ → Option Drain
  sent : List (ℕ × ℕ)

/-- The clock moves; a payload arrives; a run selects a mailbox and starts a task; a task begins,
discards old payloads (the limit of the query leaves their choice to the database), fetches a slice,
and for a record schedules the next attempt, sends the request, and deletes it or tries again
later. -/
inductive Event
  | clock (time : ℚ)
  | arrive
  | select (run : ℕ)
  | schedule (run task : ℕ)
  | begin (task : ℕ)
  | discard (task : ℕ) (ids : List ℕ)
  | fetch (task : ℕ)
  | attempt (task : ℕ)
  | send (task id : ℕ) (answered : Bool)
  | settle (task id : ℕ)

namespace State

variable (s : State)

def setDrain (t : ℕ) (drain : Drain) : State :=
  { s with drains := Function.update s.drains t (some drain) }

def setPhase (t : ℕ) (drain : Drain) (phase : Phase) : State :=
  s.setDrain t { drain with phase := phase }

/-- `create_from_request` -/
def arrive : State :=
  { s with
    rows := s.rows ++ [⟨s.nextId, s.now, thePast, 0⟩]
    nextId := s.nextId + 1 }

def select (run : ℕ) : State :=
  match s.rows.head? with
  | some head =>
    if head.scheduleFor ≤ s.now then
      { s with schedules := Function.update s.schedules run (.selected head.id) }
    else s
  | none => s

/-- The update of the batch, and the start of a task under a new id. -/
def schedule (run t : ℕ) : State :=
  match s.schedules run, s.drains t with
  | .selected id, none =>
    { s with
      rows := s.rows.pushBack (s.rows.startingAt id maxMailboxDrain).ids
        (s.now + batchScheduleOffset)
      schedules := Function.update s.schedules run .idle
      drains := Function.update s.drains t (some
        { payloadId := id
          parallel := maxMailboxDrain / 3 ≤ (s.rows.startingAt id maxMailboxDrain).length
          batch := (s.rows.startingAt id maxMailboxDrain).ids
          scheduledAt := s.now
          phase := .queued }) }
  | _, _ => s

/-- `WebhookPayload.objects.get`, and the look at the age of the payload. -/
def begin (t : ℕ) : State :=
  match s.drains t with
  | some drain =>
    match drain.phase with
    | .queued =>
      match s.rows.find? (·.id = drain.payloadId) with
      | none => s.setPhase t drain .finished
      | some payload =>
        s.setPhase t drain
          (if drain.parallel ∧ payload.dateAdded < s.now - maxDeliveryAge then .discarding
          else .running (s.now + batchScheduleOffset) [] false)
    | _ => s
  | none => s

def discard (t : ℕ) (ids : List ℕ) : State :=
  match s.drains t with
  | some drain =>
    match drain.phase with
    | .discarding =>
      { s with
        rows := s.rows.filter fun row ↦ ¬ (row.id ∈ ids.take 10000 ∧ drain.payloadId ≤ row.id ∧
          row.dateAdded ≤ s.now - maxDeliveryAge) }.setPhase t drain
        (.running (s.now + batchScheduleOffset) [] false)
    | _ => s
  | none => s

def nextSlice (workerThreads : ℕ) (drain : Drain) : Rows :=
  s.rows.startingAt drain.payloadId (if drain.parallel then workerThreads else 100)

def fetch (workerThreads t : ℕ) : State :=
  match s.drains t with
  | some drain =>
    match drain.phase with
    | .running deadline [] requestFailed =>
      if requestFailed ∨ deadline ≤ s.now ∨ s.nextSlice workerThreads drain = [] then
        s.setPhase t drain .finished
      else
        s.setPhase t drain
          (.running deadline ((s.nextSlice workerThreads drain).map fun row ↦ (row, .fetched))
            false)
    | _ => s
  | none => s

/-- `deliver_message`, up to the request: a payload without attempts left is deleted. -/
def attempt (t : ℕ) : State :=
  match s.drains t with
  | some drain =>
    match drain.parallel, drain.phase with
    | false, .running deadline ((payload, .fetched) :: rest) requestFailed =>
      if maxAttempts ≤ payload.attempts then
        { s with rows := s.rows.delete payload.id }.setPhase t drain
          (.running deadline rest requestFailed)
      else
        { s with
          rows := s.rows.updateSchedule (payload.scheduleNextAttempt s.now) }.setPhase t drain
          (.running deadline ((payload.scheduleNextAttempt s.now, .attempted) :: rest)
            requestFailed)
    | _, _ => s
  | none => s

/-- The slice when the request of a record is answered, or has failed. -/
def answer (id : ℕ) (answered : Bool) (slice : List (WebhookPayload × Stage)) :
    List (WebhookPayload × Stage) :=
  slice.map fun delivery ↦
    if delivery.1.id = id then (delivery.1, if answered then .delivered else .failed) else delivery

/-- `perform_request`: for the first record of the slice, whose failure ends the task, or in
parallel for any record. -/
def send (t id : ℕ) (answered : Bool) : State :=
  match s.drains t with
  | some drain =>
    match drain.parallel, drain.phase with
    | false, .running deadline ((payload, .attempted) :: rest) requestFailed =>
      { s with sent := (t, payload.id) :: s.sent }.setPhase t drain
        (if answered then .running deadline ((payload, .delivered) :: rest) requestFailed
        else .finished)
    | true, .running deadline slice requestFailed =>
      if ∃ delivery ∈ slice, delivery.1.id = id ∧ delivery.2 = .fetched then
        { s with sent := (t, id) :: s.sent }.setPhase t drain
          (.running deadline (answer id answered slice) requestFailed)
      else s
    | _, _ => s
  | none => s

/-- What follows the request: a delivered payload is deleted; after a failure in parallel, one
without attempts left is deleted, and any other is tried again later. -/
def settle (t id : ℕ) : State :=
  match s.drains t with
  | some drain =>
    match drain.phase with
    | .running deadline slice requestFailed =>
      match slice.find? (·.1.id = id) with
      | some (_, .delivered) =>
        { s with rows := s.rows.delete id }.setPhase t drain
          (.running deadline (slice.filter (·.1.id ≠ id)) requestFailed)
      | some (payload, .failed) =>
        if maxAttempts ≤ payload.attempts then
          { s with rows := s.rows.delete id }.setPhase t drain
            (.running deadline (slice.filter (·.1.id ≠ id)) requestFailed)
        else
          { s with
            rows := s.rows.updateSchedule (payload.scheduleNextAttempt s.now) }.setPhase t drain
            (.running deadline (slice.filter (·.1.id ≠ id)) true)
      | _ => s
    | _ => s
  | none => s

/-- One step. -/
def step (workerThreads : ℕ) : Event → State
  | .clock time => if s.now ≤ time then { s with now := time } else s
  | .arrive => s.arrive
  | .select run => s.select run
  | .schedule run t => s.schedule run t
  | .begin t => s.begin t
  | .discard t ids => s.discard t ids
  | .fetch t => s.fetch workerThreads t
  | .attempt t => s.attempt t
  | .send t id answered => s.send t id answered
  | .settle t id => s.settle t id

end State

/-- The stored payloads of a mailbox, with increasing ids. -/
structure Backlog where
  rows : Rows
  sorted : rows.ids.Pairwise (· < ·)

def Backlog.nextId (backlog : Backlog) : ℕ := backlog.rows.ids.foldr (fun id n ↦ max (id + 1) n) 0

/-- Any runs and tasks, from the stored payloads on. -/
def delivery (workerThreads : ℕ) (start : ℚ) (backlog : Backlog) : Machine State Event where
  init := ⟨start, backlog.rows, backlog.nextId, fun _ ↦ .idle, fun _ ↦ none, []⟩
  step s event := s.step workerThreads event

/-- No payload was sent by two tasks. -/
def State.SentOnce (s : State) : Prop :=
  ∀ t t' id, (t, id) ∈ s.sent → (t', id) ∈ s.sent → t = t'

/-- A task is done, at the latest, when the batch schedule offset is over, which is before its
deadline; and every request is answered. -/
def InTime (s : State) : Event → Prop
  | .clock time => ∀ t drain, s.drains t = some drain → drain.phase ≠ .finished →
      time < drain.scheduledAt + batchScheduleOffset
  | .send _ _ answered => answered = true
  | _ => True

end Sentry.HybridCloud.Webhooks
