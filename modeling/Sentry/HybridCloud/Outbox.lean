import Sentry.Library.Machine
import Mathlib.Data.List.MinMax
import Mathlib.Data.List.Nodup

/-!
# Draining an outbox

`hybridcloud/models/outbox.py`. An outbox row gets its id at the insert and becomes visible at the
commit. `drain_shard` locks the first row of a shard, signals the row with the highest id in the
group of that row, deletes the smaller ids of the group in batches of 100, and last the signalled
row itself. Each of its queries sees the rows committed by then, less those that its own transaction
has deleted; a batch is fetched without an order, which the event brings.

The trace records the commits, the signals that were started, the completed calls of `process` and
the deleted rows. What a step can do is said once (`effect_step`).
-/

namespace Sentry.HybridCloud

open Library List

/-! ### Rows and queries -/

inductive OutboxScope
  | organization
  | user
  | webhook
  | auditLog
  | userIp
  | integration
  | app
  | team
  | provision
  | subscription
  | relocation
  deriving DecidableEq

/-- The sharding columns. A region outbox has no region name, and `ρ` is then `Unit`. -/
structure ShardKey (ρ : Type*) where
  regionName : ρ
  shardScope : OutboxScope
  shardIdentifier : ℤ
  deriving DecidableEq

/-- The coalesced columns. -/
structure CoalescedKey (ρ : Type*) where
  shard : ShardKey ρ
  category : ℕ
  objectIdentifier : ℤ
  deriving DecidableEq

/-- A row of an outbox. -/
structure OutboxBase (ρ π : Type*) where
  id : ℕ
  key : CoalescedKey ρ
  payload : π
  deriving DecidableEq

/-- The options `hybrid_cloud.authentication.disabled_organization_shards` and
`disabled_user_shards`. -/
structure Options where
  disabledOrganizationShards : List ℤ
  disabledUserShards : List ℤ

variable {ρ π : Type*} [DecidableEq ρ]

def shouldSkipShard (options : Options) (shard : ShardKey ρ) : Bool :=
  match shard.shardScope with
  | .organization => shard.shardIdentifier ∈ options.disabledOrganizationShards
  | .user => shard.shardIdentifier ∈ options.disabledUserShards
  | _ => false

def selectedMessagesInShard (rows : List (OutboxBase ρ π)) (shard : ShardKey ρ)
    (latestShardRow : Option (OutboxBase ρ π)) : List (OutboxBase ρ π) :=
  rows.filter fun row ↦ row.key.shard = shard ∧ ∀ latest ∈ latestShardRow, row.id ≤ latest.id

def selectCoalescedMessages (rows : List (OutboxBase ρ π)) (key : CoalescedKey ρ) :
    List (OutboxBase ρ π) :=
  rows.filter fun row ↦ row.key = key

/-- The row with the smallest id. -/
def first (rows : List (OutboxBase ρ π)) : Option (OutboxBase ρ π) := rows.argmin (·.id)

def last (rows : List (OutboxBase ρ π)) : Option (OutboxBase ρ π) := rows.argmax (·.id)

def deleteIds (batch : List ℕ) (coalescedId : ℕ) : List ℕ :=
  batch.filter fun itemId ↦ itemId < coalescedId

/-! ### The drainer and the writers -/

/-- A call of `drain_shard`. Without a latest row it flushes all rows of the shard. -/
structure Drain (ρ π : Type*) where
  shard : ShardKey ρ
  latestShardRow : Option (OutboxBase ρ π)
  deriving DecidableEq

/-- Where the drainer stands: not draining; at the top of the loop of `drain_shard`; with the first
row of the shard locked; with the row to signal selected; sending its signal; deleting the smaller
ids of its group, some of which its transaction has deleted. -/
inductive DrainPhase (ρ π : Type*)
  | idle
  | looping (drain : Drain ρ π)
  | locked (drain : Drain ρ π) (shardRow : OutboxBase ρ π)
  | selected (drain : Drain ρ π) (coalesced : OutboxBase ρ π)
  | sending (drain : Drain ρ π) (coalesced : OutboxBase ρ π)
  | cleaning (drain : Drain ρ π) (coalesced : OutboxBase ρ π) (deleted : List ℕ)
  deriving DecidableEq

/-- What is recorded of a row. -/
inductive TraceKind
  | committed
  | signalStarted
  | deleted
  | processed
  deriving DecidableEq

/-- An event of the trace. -/
structure TraceEvent (ρ π : Type*) where
  kind : TraceKind
  row : OutboxBase ρ π
  deriving DecidableEq

/-- The sequence of ids, the rows of open writer transactions, the rows that are visible, the
drainer, and the trace. -/
structure OutboxState (ρ π : Type*) where
  nextId : ℕ
  uncommitted : List (OutboxBase ρ π)
  rows : List (OutboxBase ρ π)
  phase : DrainPhase ρ π
  trace : List (TraceEvent ρ π)
  deriving DecidableEq

/-- The steps of the writers and of the drainer. -/
inductive OutboxEvent (ρ π : Type*)
  | insert (key : CoalescedKey ρ) (payload : π)
  | commit (id : ℕ)
  | rollback (id : ℕ)
  | drainShard (shard : ShardKey ρ) (flushAll : Bool)
  | processShard
  | lockNotAvailable
  | processCoalesced
  | sendSignal
  | signalReturned
  | signalRaised
  | fetchBatch (order : List ℕ)
  | operationalError

/-- The row that the open transaction of the drainer is about, once it is selected. -/
def DrainPhase.coalesced : DrainPhase ρ π → Option (OutboxBase ρ π)
  | .selected _ coalesced | .sending _ coalesced | .cleaning _ coalesced _ => some coalesced
  | _ => none

def DrainPhase.signalled : DrainPhase ρ π → Option (OutboxBase ρ π)
  | .sending _ coalesced | .cleaning _ coalesced _ => some coalesced
  | _ => none

def DrainPhase.beingSent : DrainPhase ρ π → Option (OutboxBase ρ π)
  | .sending _ coalesced => some coalesced
  | _ => none

def DrainPhase.deleted : DrainPhase ρ π → List ℕ
  | .cleaning _ _ deleted => deleted
  | _ => []

namespace OutboxState

def insert (s : OutboxState ρ π) (key : CoalescedKey ρ) (payload : π) : OutboxState ρ π :=
  { s with nextId := s.nextId + 1, uncommitted := s.uncommitted ++ [⟨s.nextId, key, payload⟩] }

def rollback (s : OutboxState ρ π) (id : ℕ) : OutboxState ρ π :=
  { s with uncommitted := s.uncommitted.filter fun row ↦ row.id ≠ id }

def commitRow (s : OutboxState ρ π) (row : OutboxBase ρ π) : OutboxState ρ π :=
  { s with
    uncommitted := s.uncommitted.filter fun other ↦ other.id ≠ row.id
    rows := s.rows ++ [row]
    trace := s.trace ++ [⟨.committed, row⟩] }

def commit (s : OutboxState ρ π) (id : ℕ) : OutboxState ρ π :=
  match s.uncommitted.find? fun row ↦ row.id = id with
  | some row => s.commitRow row
  | none => s

def setPhase (s : OutboxState ρ π) (phase : DrainPhase ρ π) : OutboxState ρ π :=
  { s with phase := phase }

/-- The beginning of `drain_shard`. Without `flush_all` only the rows up to the latest one are
processed, and there is nothing to do when there is none. -/
def drainShard (s : OutboxState ρ π) (shard : ShardKey ρ) (flushAll : Bool) : OutboxState ρ π :=
  match s.phase with
  | .idle =>
    if flushAll then s.setPhase (.looping ⟨shard, none⟩)
    else
      match last (selectedMessagesInShard s.rows shard none) with
      | none => s
      | some latest => s.setPhase (.looping ⟨shard, some latest⟩)
  | _ => s

/-- `process_shard`: begins a transaction and locks the first row of the shard. The loop ends when
there is none. -/
def processShard (s : OutboxState ρ π) : OutboxState ρ π :=
  match s.phase with
  | .looping drain =>
    match first (selectedMessagesInShard s.rows drain.shard drain.latestShardRow) with
    | none => s.setPhase .idle
    | some shardRow => s.setPhase (.locked drain shardRow)
  | _ => s

/-- `process_shard` finds the first row locked by another process. -/
def lockNotAvailable (s : OutboxState ρ π) : OutboxState ρ π :=
  match s.phase with
  | .looping _ => s.setPhase .idle
  | _ => s

/-- `process_coalesced` up to its yield, and the check of `process`: a skipped shard is cleaned up
without a signal. -/
def processCoalesced (options : Options) (s : OutboxState ρ π) : OutboxState ρ π :=
  match s.phase with
  | .locked drain shardRow =>
    match last (selectCoalescedMessages s.rows shardRow.key) with
    | none => s.setPhase .idle
    | some coalesced =>
      if shouldSkipShard options shardRow.key.shard then s.setPhase (.cleaning drain coalesced [])
      else s.setPhase (.selected drain coalesced)
  | _ => s

/-- `send_signal` starts. -/
def sendSignal (s : OutboxState ρ π) : OutboxState ρ π :=
  match s.phase with
  | .selected drain coalesced =>
    { s with phase := .sending drain coalesced, trace := s.trace ++ [⟨.signalStarted, coalesced⟩] }
  | _ => s

/-- `send_signal` returns. -/
def signalReturned (s : OutboxState ρ π) : OutboxState ρ π :=
  match s.phase with
  | .sending drain coalesced => s.setPhase (.cleaning drain coalesced [])
  | _ => s

/-- `send_signal` raises: `OutboxFlushError` ends the transaction and `drain_shard`. -/
def signalRaised (s : OutboxState ρ π) : OutboxState ρ π :=
  match s.phase with
  | .sending _ _ => s.setPhase .idle
  | _ => s

/-- A query of the drainer raises: its transaction is rolled back and `drain_shard` ends. -/
def operationalError (s : OutboxState ρ π) : OutboxState ρ π := s.setPhase .idle

/-- The ids of the group of a row that the drainer sees while its transaction has deleted some. -/
def visibleIds (s : OutboxState ρ π) (coalesced : OutboxBase ρ π) (deleted : List ℕ) : List ℕ :=
  (selectCoalescedMessages (s.rows.filter fun row ↦ row.id ∉ deleted) coalesced.key).map (·.id)

/-- The commit of a transaction that has deleted the ids `removed`. -/
def commitDeletes (s : OutboxState ρ π) (removed : List ℕ) (phase : DrainPhase ρ π)
    (completed : List (TraceEvent ρ π)) : OutboxState ρ π :=
  { s with
    rows := s.rows.filter fun row ↦ row.id ∉ removed
    phase := phase
    trace :=
      s.trace ++ (s.rows.filter fun row ↦ row.id ∈ removed).map (⟨.deleted, ·⟩) ++ completed }

/-- One round of the fetch and delete loop, with the order in which the query returns the rows of
the group. A batch with no smaller id ends it: the signalled row is deleted, unless the shard is
skipped, and the transaction commits. `drain_shard` goes on exactly when `process` has returned
true. -/
def fetchBatch (options : Options) (s : OutboxState ρ π) (order : List ℕ) : OutboxState ρ π :=
  match s.phase with
  | .cleaning drain coalesced deleted =>
    if order.Perm (s.visibleIds coalesced deleted) then
      if deleteIds (order.take 100) coalesced.id = [] then
        if shouldSkipShard options coalesced.key.shard then s.commitDeletes deleted .idle []
        else s.commitDeletes (coalesced.id :: deleted) (.looping drain) [⟨.processed, coalesced⟩]
      else
        s.setPhase
          (.cleaning drain coalesced (deleted ++ deleteIds (order.take 100) coalesced.id))
    else s
  | _ => s

end OutboxState

/-- Writers and a drainer on an empty outbox. -/
def outbox (ρ π : Type*) [DecidableEq ρ] (options : Options) :
    Machine (OutboxState ρ π) (OutboxEvent ρ π) where
  init := ⟨1, [], [], .idle, []⟩
  step s
    | .insert key payload => s.insert key payload
    | .commit id => s.commit id
    | .rollback id => s.rollback id
    | .drainShard shard flushAll => s.drainShard shard flushAll
    | .processShard => s.processShard
    | .lockNotAvailable => s.lockNotAvailable
    | .processCoalesced => s.processCoalesced options
    | .sendSignal => s.sendSignal
    | .signalReturned => s.signalReturned
    | .signalRaised => s.signalRaised
    | .fetchBatch order => s.fetchBatch options order
    | .operationalError => s.operationalError

/-! ### What a step can do -/

/-- The effect of a step on the rows, the drainer and the trace. -/
inductive Effect (options : Options) (s : OutboxState ρ π) :
    OutboxEvent ρ π → OutboxState ρ π → Prop
  | none (event : OutboxEvent ρ π) : Effect options s event s
  | insert (key : CoalescedKey ρ) (payload : π) :
    Effect options s (.insert key payload) (s.insert key payload)
  | rollback (id : ℕ) : Effect options s (.rollback id) (s.rollback id)
  | commit (row : OutboxBase ρ π) (hrow : row ∈ s.uncommitted) :
    Effect options s (.commit row.id) (s.commitRow row)
  /-- The drainer moves to a phase without a selected row. -/
  | move (event : OutboxEvent ρ π) (phase : DrainPhase ρ π) (hphase : phase.coalesced = .none) :
    Effect options s event (s.setPhase phase)
  | select (drain : Drain ρ π) (coalesced : OutboxBase ρ π)
    (hlast : last (selectCoalescedMessages s.rows coalesced.key) = some coalesced) :
    Effect options s .processCoalesced (s.setPhase (.selected drain coalesced))
  | skip (drain : Drain ρ π) (coalesced : OutboxBase ρ π)
    (hlast : last (selectCoalescedMessages s.rows coalesced.key) = some coalesced)
    (hskip : shouldSkipShard options coalesced.key.shard) :
    Effect options s .processCoalesced (s.setPhase (.cleaning drain coalesced []))
  | start (drain : Drain ρ π) (coalesced : OutboxBase ρ π)
    (hphase : s.phase = .selected drain coalesced) :
    Effect options s .sendSignal { s with
      phase := .sending drain coalesced, trace := s.trace ++ [⟨.signalStarted, coalesced⟩] }
  | return (drain : Drain ρ π) (coalesced : OutboxBase ρ π)
    (hphase : s.phase = .sending drain coalesced) :
    Effect options s .signalReturned (s.setPhase (.cleaning drain coalesced []))
  | deleteBatch (drain : Drain ρ π) (coalesced : OutboxBase ρ π) (deleted order : List ℕ)
    (hphase : s.phase = .cleaning drain coalesced deleted)
    (horder : order.Perm (s.visibleIds coalesced deleted)) :
    Effect options s (.fetchBatch order) (s.setPhase
      (.cleaning drain coalesced (deleted ++ deleteIds (order.take 100) coalesced.id)))
  | complete (drain : Drain ρ π) (coalesced : OutboxBase ρ π) (deleted order : List ℕ)
    (hphase : s.phase = .cleaning drain coalesced deleted)
    (horder : order.Perm (s.visibleIds coalesced deleted))
    (hempty : deleteIds (order.take 100) coalesced.id = [])
    (hskip : shouldSkipShard options coalesced.key.shard = false) :
    Effect options s (.fetchBatch order)
      (s.commitDeletes (coalesced.id :: deleted) (.looping drain) [⟨.processed, coalesced⟩])
  | completeSkipped (drain : Drain ρ π) (coalesced : OutboxBase ρ π) (deleted order : List ℕ)
    (hphase : s.phase = .cleaning drain coalesced deleted)
    (hskip : shouldSkipShard options coalesced.key.shard) :
    Effect options s (.fetchBatch order) (s.commitDeletes deleted .idle [])

variable {coalesced : OutboxBase ρ π} {phase : DrainPhase ρ π}

omit [DecidableEq ρ] in
theorem signalled_of_beingSent (h : coalesced ∈ phase.beingSent) : coalesced ∈ phase.signalled := by
  cases phase with
  | sending drain row => exact h
  | _ => cases h

omit [DecidableEq ρ] in
theorem coalesced_of_signalled (h : coalesced ∈ phase.signalled) : coalesced ∈ phase.coalesced := by
  cases phase with
  | sending | cleaning => exact h
  | _ => cases h

variable {rows : List (OutboxBase ρ π)} {row : OutboxBase ρ π} {key : CoalescedKey ρ}

theorem mem_selectCoalescedMessages
    :
    row ∈ selectCoalescedMessages rows key ↔ row ∈ rows ∧ row.key = key := by
  simp [selectCoalescedMessages]

theorem mem_of_last
    (h : last (selectCoalescedMessages rows key) = some row) : row ∈ rows ∧ row.key = key :=
  mem_selectCoalescedMessages.mp (argmax_mem h)

theorem id_le_of_last {coalesced row : OutboxBase ρ π}
    (h : last (selectCoalescedMessages rows key) = some coalesced) (hrow : row ∈ rows)
    (hkey : row.key = key) : row.id ≤ coalesced.id :=
  le_of_mem_argmax (mem_selectCoalescedMessages.mpr ⟨hrow, hkey⟩) h

theorem effect_processCoalesced (options : Options) (s : OutboxState ρ π) :
    Effect options s .processCoalesced (s.processCoalesced options) := by
  unfold OutboxState.processCoalesced
  split
  · next drain shardRow _ =>
    split
    · exact .move _ _ rfl
    · next coalesced hlast =>
      have hkey : coalesced.key = shardRow.key := (mem_of_last hlast).2
      rw [← hkey] at hlast ⊢
      split_ifs with hskip
      · exact .skip drain coalesced hlast hskip
      · exact .select drain coalesced hlast
  · exact .none _

theorem effect_fetchBatch (options : Options) (s : OutboxState ρ π) (order : List ℕ) :
    Effect options s (.fetchBatch order) (s.fetchBatch options order) := by
  unfold OutboxState.fetchBatch
  split
  · next drain coalesced deleted hphase =>
    split_ifs with horder hempty hskip
    · exact .completeSkipped drain coalesced deleted order hphase hskip
    · exact .complete drain coalesced deleted order hphase horder hempty (by simpa using hskip)
    · exact .deleteBatch drain coalesced deleted order hphase horder
    · exact .none _
  · exact .none _

theorem effect_step (options : Options) (s : OutboxState ρ π) (event : OutboxEvent ρ π) :
    Effect options s event ((outbox ρ π options).step s event) := by
  cases event with
  | insert key payload => exact .insert key payload
  | rollback id => exact .rollback id
  | commit id =>
    simp only [outbox, OutboxState.commit]
    split
    · next row hfind =>
      have hid : row.id = id := by simpa using find?_some hfind
      exact hid ▸ .commit row (mem_of_find?_eq_some hfind)
    · exact .none _
  | drainShard shard flushAll =>
    simp only [outbox, OutboxState.drainShard]
    split
    · split_ifs
      · exact .move _ _ rfl
      · split
        · exact .none _
        · exact .move _ _ rfl
    · exact .none _
  | processShard =>
    simp only [outbox, OutboxState.processShard]
    split
    · split
      · exact .move _ _ rfl
      · exact .move _ _ rfl
    · exact .none _
  | lockNotAvailable =>
    simp only [outbox, OutboxState.lockNotAvailable]
    split
    · exact .move _ _ rfl
    · exact .none _
  | processCoalesced => exact effect_processCoalesced options s
  | sendSignal =>
    simp only [outbox, OutboxState.sendSignal]
    split
    · next drain coalesced hphase => exact .start drain coalesced hphase
    · exact .none _
  | signalReturned =>
    simp only [outbox, OutboxState.signalReturned]
    split
    · next drain coalesced hphase => exact .return drain coalesced hphase
    · exact .none _
  | signalRaised =>
    simp only [outbox, OutboxState.signalRaised]
    split
    · exact .move _ _ rfl
    · exact .none _
  | fetchBatch order => exact effect_fetchBatch options s order
  | operationalError => exact .move _ _ rfl

/-! ### Rows of a run -/

/-- The rows of the events of one kind, in the order of the trace. -/
def rowsOf (kind : TraceKind) (trace : List (TraceEvent ρ π)) : List (OutboxBase ρ π) :=
  (trace.filter fun event ↦ event.kind = kind).map (·.row)

omit [DecidableEq ρ] in
theorem mem_rowsOf {kind : TraceKind} {trace : List (TraceEvent ρ π)} :
    row ∈ rowsOf kind trace ↔ ⟨kind, row⟩ ∈ trace := by
  rw [rowsOf, mem_map]
  constructor
  · rintro ⟨⟨eventKind, eventRow⟩, hevent, rfl⟩
    obtain ⟨hmem, hkind⟩ := mem_filter.mp hevent
    have hkind : eventKind = kind := by simpa using hkind
    exact hkind ▸ hmem
  · exact fun hrow ↦ ⟨_, mem_filter.mpr ⟨hrow, by simp⟩, rfl⟩

omit [DecidableEq ρ] in
theorem rowsOf_append (kind : TraceKind) (trace events : List (TraceEvent ρ π)) :
    rowsOf kind (trace ++ events) = rowsOf kind trace ++ rowsOf kind events := by
  rw [rowsOf, filter_append, map_append, rowsOf, rowsOf]

/-- Rows have different ids, below the next one of the sequence. The selected row is visible, and
what its transaction has deleted are smaller ids of visible rows of its group. -/
structure WellFormed (s : OutboxState ρ π) : Prop where
  distinct : (s.rows ++ s.uncommitted).Pairwise fun row other ↦ row.id ≠ other.id
  lt : ∀ row ∈ s.rows ++ s.uncommitted, row.id < s.nextId
  visible : ∀ coalesced ∈ s.phase.coalesced, coalesced ∈ s.rows
  deleted : ∀ coalesced ∈ s.phase.coalesced, ∀ id ∈ s.phase.deleted,
    id < coalesced.id ∧ ∃ row ∈ s.rows, row.id = id ∧ row.key = coalesced.key

variable {s : OutboxState ρ π}

omit [DecidableEq ρ] in
theorem WellFormed.eq_of_id (h : WellFormed s) {row other : OutboxBase ρ π}
    (hrow : row ∈ s.rows) (hother : other ∈ s.rows) (hid : row.id = other.id) : row = other := by
  have hnodup : (s.rows.map (·.id)).Nodup :=
    pairwise_map.mpr (pairwise_append.mp h.distinct).1
  exact inj_on_of_nodup_map hnodup hrow hother hid

theorem mem_visibleIds {deleted : List ℕ} {id : ℕ} :
    id ∈ s.visibleIds coalesced deleted ↔
      ∃ row ∈ s.rows, row.key = coalesced.key ∧ row.id ∉ deleted ∧ row.id = id := by
  simp only [OutboxState.visibleIds, mem_map, mem_selectCoalescedMessages, mem_filter,
    decide_not, Bool.not_eq_true', decide_eq_false_iff_not]
  constructor
  · rintro ⟨row, ⟨⟨hrow, hdeleted⟩, hkey⟩, hid⟩
    exact ⟨row, hrow, hkey, hdeleted, hid⟩
  · rintro ⟨row, hrow, hkey, hdeleted, hid⟩
    exact ⟨row, ⟨⟨hrow, hdeleted⟩, hkey⟩, hid⟩

theorem exists_row_of_mem_deleteIds
    {deleted order : List ℕ} (horder : order.Perm (s.visibleIds coalesced deleted)) {id : ℕ}
    (hid : id ∈ deleteIds (order.take 100) coalesced.id) :
    id < coalesced.id ∧ ∃ row ∈ s.rows, row.id = id ∧ row.key = coalesced.key := by
  obtain ⟨hbatch, hlt⟩ := mem_filter.mp hid
  obtain ⟨row, hrow, hkey, -, hrowId⟩ :=
    mem_visibleIds.mp (horder.mem_iff.mp (mem_of_mem_take hbatch))
  exact ⟨by simpa using hlt, row, hrow, hrowId, hkey⟩

omit [DecidableEq ρ] in
theorem wellFormed_insert (h : WellFormed s) (key : CoalescedKey ρ)
    (payload : π) : WellFormed (s.insert key payload) where
  distinct := by
    rw [OutboxState.insert, ← append_assoc, pairwise_append]
    refine ⟨h.distinct, pairwise_singleton _ _, fun row hrow other hother ↦ ?_⟩
    rw [mem_singleton.mp hother]
    exact (h.lt row hrow).ne
  lt row hrow := by
    rw [OutboxState.insert, ← append_assoc, mem_append, mem_singleton] at hrow
    rcases hrow with hrow | rfl
    · exact (h.lt row hrow).trans (Nat.lt_succ_self _)
    · exact Nat.lt_succ_self _
  visible := h.visible
  deleted := h.deleted

omit [DecidableEq ρ] in
theorem wellFormed_rollback (h : WellFormed s) (id : ℕ) : WellFormed (s.rollback id) where
  distinct := h.distinct.sublist (filter_sublist.append_left s.rows)
  lt row hrow := h.lt row ((filter_sublist.append_left s.rows).subset hrow)
  visible := h.visible
  deleted := h.deleted

omit [DecidableEq ρ] in
theorem wellFormed_commitRow (h : WellFormed s)
    (hrow : row ∈ s.uncommitted) : WellFormed (s.commitRow row) where
  distinct := by
    obtain ⟨hrows, huncommitted, hdisjoint⟩ := pairwise_append.mp h.distinct
    refine pairwise_append.mpr ⟨?_, huncommitted.filter _, ?_⟩
    · refine pairwise_append.mpr
        ⟨hrows, pairwise_singleton _ _, fun other hother _ hmem ↦ ?_⟩
      exact mem_singleton.mp hmem ▸ hdisjoint other hother row hrow
    · intro other hother open_ hopen
      obtain ⟨hmem, hne⟩ := mem_filter.mp hopen
      rcases mem_append.mp hother with hother | hother
      · exact hdisjoint other hother open_ hmem
      · rw [mem_singleton.mp hother]
        exact fun hid ↦ by simp [hid] at hne
  lt other hother := by
    refine h.lt other ?_
    simp only [OutboxState.commitRow, mem_append, mem_singleton] at hother ⊢
    rcases hother with (hother | rfl) | hother
    · exact .inl hother
    · exact .inr hrow
    · exact .inr (mem_of_mem_filter hother)
  visible coalesced hcoalesced := mem_append_left _ (h.visible coalesced hcoalesced)
  deleted coalesced hcoalesced id hid := by
    obtain ⟨hlt, other, hother, hrest⟩ := h.deleted coalesced hcoalesced id hid
    exact ⟨hlt, other, mem_append_left _ hother, hrest⟩

omit [DecidableEq ρ] in
/-- Assumes: a selected row in the new phase is visible, and what the new phase has deleted are
smaller ids of its group. -/
theorem wellFormed_setPhase (h : WellFormed s) (phase : DrainPhase ρ π)
    (hvisible : ∀ coalesced ∈ phase.coalesced, coalesced ∈ s.rows)
    (hdeleted : ∀ coalesced ∈ phase.coalesced, ∀ id ∈ phase.deleted,
      id < coalesced.id ∧ ∃ row ∈ s.rows, row.id = id ∧ row.key = coalesced.key) :
    WellFormed (s.setPhase phase) where
  distinct := h.distinct
  lt := h.lt
  visible := hvisible
  deleted := hdeleted

omit [DecidableEq ρ] in
theorem wellFormed_commitDeletes (h : WellFormed s) (removed : List ℕ)
    (hphase : phase.coalesced = none)
    (completed : List (TraceEvent ρ π)) : WellFormed (s.commitDeletes removed phase completed) where
  distinct := h.distinct.sublist (filter_sublist.append_right s.uncommitted)
  lt row hrow := h.lt row ((filter_sublist.append_right s.uncommitted).subset hrow)
  visible coalesced hcoalesced := by
    rw [OutboxState.commitDeletes, hphase] at hcoalesced
    cases hcoalesced
  deleted coalesced hcoalesced := by
    rw [OutboxState.commitDeletes, hphase] at hcoalesced
    cases hcoalesced

theorem wellFormed_effect {options : Options} {s t : OutboxState ρ π} {event : OutboxEvent ρ π}
    (h : WellFormed s) (heffect : Effect options s event t) : WellFormed t := by
  cases heffect with
  | none => exact h
  | insert key payload => exact wellFormed_insert h key payload
  | rollback id => exact wellFormed_rollback h id
  | commit row hrow => exact wellFormed_commitRow h hrow
  | move _ phase hphase =>
    refine wellFormed_setPhase h phase (fun coalesced hcoalesced ↦ ?_)
      (fun coalesced hcoalesced ↦ ?_) <;> simp [hphase] at hcoalesced
  | select drain coalesced hlast =>
    refine wellFormed_setPhase h _ ?_ (fun _ _ id hid ↦ by cases hid)
    rintro _ ⟨⟩
    exact (mem_of_last hlast).1
  | skip drain coalesced hlast =>
    refine wellFormed_setPhase h _ ?_ (fun _ _ id hid ↦ by cases hid)
    rintro _ ⟨⟩
    exact (mem_of_last hlast).1
  | start drain coalesced hphase =>
    have hvisible := h.visible coalesced (by rw [hphase]; rfl)
    exact ⟨h.distinct, h.lt, by rintro _ ⟨⟩; exact hvisible, fun _ _ id hid ↦ by cases hid⟩
  | «return» drain coalesced hphase =>
    have hvisible := h.visible coalesced (by rw [hphase]; rfl)
    exact wellFormed_setPhase h _ (by rintro _ ⟨⟩; exact hvisible) fun _ _ id hid ↦ by cases hid
  | deleteBatch drain coalesced deleted order hphase horder =>
    have hvisible := h.visible coalesced (by rw [hphase]; rfl)
    refine wellFormed_setPhase h _ (by rintro _ ⟨⟩; exact hvisible) ?_
    rintro _ ⟨⟩ id hid
    rcases mem_append.mp hid with hid | hid
    · exact h.deleted coalesced (by rw [hphase]; rfl) id (by rw [hphase]; exact hid)
    · exact exists_row_of_mem_deleteIds horder hid
  | complete | completeSkipped =>
    exact wellFormed_commitDeletes h _ rfl _

theorem wellFormed_run (options : Options) (events : List (OutboxEvent ρ π)) :
    WellFormed ((outbox ρ π options).run events) := by
  refine (outbox ρ π options).run_invariant ?_ (fun s event h ↦ ?_) events
  · exact ⟨List.Pairwise.nil, by simp [outbox], by simp [outbox, DrainPhase.coalesced],
      by simp [outbox, DrainPhase.coalesced]⟩
  · exact wellFormed_effect h (effect_step options s event)

/-- No shard is disabled. -/
def noneDisabled : Options := ⟨[], []⟩

omit [DecidableEq ρ] in
theorem shouldSkipShard_noneDisabled (shard : ShardKey ρ) :
    shouldSkipShard noneDisabled shard = false := by
  unfold shouldSkipShard
  split <;> rfl

/-- The updates of one organization member. -/
def memberKey : CoalescedKey Unit := ⟨⟨(), .organization, 1⟩, 3, 1⟩

end Sentry.HybridCloud
