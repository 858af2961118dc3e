import Sentry.Library.Machine
import Mathlib.Data.List.MinMax

/-!
# Cascades across silos, from tombstones

`deletions/tasks/hybrid_cloud.py` and `ModelDeletionTask.chunk` of `deletions/base.py`, for one
`HybridCloudForeignKey` field. A run takes a batch of rows behind the stored watermark, deletes
those with a tombstone for their key or sets their key to null, and stores the watermark; when no
rows are left it does the same with tombstones.

Ids are given at the insert and become visible at the commit. The steps of the machine are these and
the statements of any number of runs, each of which can fail; where the database may pick rows, the
event brings the choice. Transaction ids, metrics and creation times are left out.
-/

namespace Sentry.Deletions

open Library

/-- A row of the model, with the value of its foreign key. -/
structure ModelRow where
  id : ℕ
  foreignKey : Option ℤ
  id_pos : 0 < id

/-- A row of the tombstone table. -/
structure Tombstone where
  id : ℕ
  tableName : String
  objectIdentifier : ℤ
  id_pos : 0 < id

/-- `on_delete` of a field. -/
inductive OnDelete
  | cascade
  | setNull
  | doNothing
  deriving DecidableEq

/-- A `HybridCloudForeignKey` with what its cascade depends on: whether its model and the tombstones
are in the same database, `get_batch_size`, and `chunk_size` and `query_limit` of the deletion task
of the model. -/
structure HybridCloudForeignKey where
  foreignTableName : String
  onDelete : OnDelete
  sameDb : Bool
  batchSize : ℕ
  chunkSize : ℕ
  queryLimit : ℕ
  queryLimit_pos : 0 < queryLimit

def Tombstone.IsFor (field : HybridCloudForeignKey) (t : Tombstone) (r : ModelRow) : Prop :=
  t.tableName = field.foreignTableName ∧ r.foreignKey = some t.objectIdentifier

instance (field : HybridCloudForeignKey) (t : Tombstone) (r : ModelRow) :
    Decidable (t.IsFor field r) := inferInstanceAs (Decidable (_ ∧ _))

/-- The two reconciliations, which are called with `row_after_tombstone` true and false. -/
inductive Watermark
  | row
  | tombstone
  deriving DecidableEq

structure WatermarkBatch where
  low : ℕ
  up : ℕ
  hasMore : Bool

def WatermarkBatch.Contains (batch : WatermarkBatch) (id : ℕ) : Prop :=
    batch.low < id ∧ id ≤ batch.up

instance (batch : WatermarkBatch) (id : ℕ) : Decidable (batch.Contains id) :=
  inferInstanceAs (Decidable (_ ∧ _))

/-- `_chunk_watermark_batch` with the aggregates of the ids that are visible. -/
def chunkWatermarkBatch (batchSize lower : ℕ) (ids : List ℕ) : WatermarkBatch :=
  let low := if lower = 0 then ids.min?.getD 1 - 1 else lower
  let upper := ids.max?.getD 0
  let batchUpper := min upper (low + batchSize)
  { low := low
    up := if batchUpper ≤ upper then batchUpper else upper
    hasMore := batchUpper < upper }

/-- The join of `_get_model_ids_for_tombstone_cascade`, in one database. -/
def joinIds (field : HybridCloudForeignKey) (watermark : Watermark) (batch : WatermarkBatch)
    (rows : List ModelRow) (tombstones : List Tombstone) : List ℕ :=
  rows.flatMap fun r ↦
    (tombstones.filter fun t ↦ t.IsFor field r ∧ batch.Contains (match watermark with
      | .row => r.id
      | .tombstone => t.id)).map fun _ ↦ r.id

/-- The first query of `get_ids_cross_db_for_row_watermark`: the rows of the batch. -/
def rowPairs (batch : WatermarkBatch) (rows : List ModelRow) : List (ℕ × Option ℤ) :=
  (rows.filter fun r ↦ batch.Contains r.id).map fun r ↦ (r.id, r.foreignKey)

/-- The second query, for the tombstones of their keys, and the rows affected by it. -/
def rowIdsOfTombstones (field : HybridCloudForeignKey) (pairs : List (ℕ × Option ℤ))
    (tombstones : List Tombstone) : List ℕ :=
  (tombstones.filter fun t ↦ t.tableName = field.foreignTableName).flatMap fun t ↦
    (pairs.filter fun pair ↦ pair.2 = some t.objectIdentifier).map Prod.fst

/-- The first query of `get_ids_cross_db_for_tombstone_watermark`: the objects of the tombstones of
the batch. -/
def tombstoneObjects (field : HybridCloudForeignKey) (batch : WatermarkBatch)
    (tombstones : List Tombstone) : List ℤ :=
  (tombstones.filter fun t ↦ batch.Contains t.id ∧ t.tableName = field.foreignTableName).map
    Tombstone.objectIdentifier

/-- The second query, for the rows with these keys. -/
def rowIdsOfObjects (objectIds : List ℤ) (rows : List ModelRow) : List ℕ :=
  (rows.filter fun r ↦ ∃ key ∈ objectIds, r.foreignKey = some key).map ModelRow.id

/-- Where a run is: before which statement, with what it has read. -/
inductive Stage
  /-- `client.get`. -/
  | getWatermark (watermark : Watermark)
  /-- `client.set` of an initial watermark, since there was none. -/
  | initWatermark (watermark : Watermark)
  /-- The aggregate query. -/
  | aggregate (watermark : Watermark) (lower : ℕ)
  /-- The join, or the first of the two queries. -/
  | select (watermark : Watermark) (batch : WatermarkBatch)
  /-- The second query of the row watermark. -/
  | selectTombstones (batch : WatermarkBatch) (pairs : List (ℕ × Option ℤ))
  /-- The second query of the tombstone watermark. -/
  | selectRows (batch : WatermarkBatch) (objectIds : List ℤ)
  /-- The update of `SET_NULL`. -/
  | update (watermark : Watermark) (batch : WatermarkBatch) (toDelete : List ℕ)
  /-- The query of `chunk`. -/
  | chunk (watermark : Watermark) (batch : WatermarkBatch) (toDelete : List ℕ) (remaining : ℕ)
  /-- In `delete_bulk`. -/
  | deleteBulk (watermark : Watermark) (batch : WatermarkBatch) (toDelete : List ℕ)
      (remaining : ℕ) (queryset : List ℕ)
  /-- `set_watermark`. -/
  | setWatermark (watermark : Watermark) (batch : WatermarkBatch)

def Stage.afterReconciliation (watermark : Watermark) (hasMore : Bool) : Option Stage :=
  match watermark with
  | .row => if hasMore then none else some (.getWatermark .tombstone)
  | .tombstone => none

/-- The loop of `chunk`: with nothing remaining there is more work to do. -/
def Stage.chunkLoop (watermark : Watermark) (batch : WatermarkBatch) (toDelete : List ℕ)
    (remaining : ℕ) : Option Stage :=
  if 0 < remaining then some (.chunk watermark batch toDelete remaining)
  else Stage.afterReconciliation watermark true

/-- With the ids selected, what `on_delete` says. -/
def Stage.afterSelect (field : HybridCloudForeignKey) (watermark : Watermark)
    (batch : WatermarkBatch) (toDelete : List ℕ) : Option Stage :=
  match field.onDelete with
  | .cascade => Stage.chunkLoop watermark batch toDelete field.chunkSize
  | .setNull => some (.update watermark batch toDelete)
  | .doNothing => some (.setWatermark watermark batch)

/-- Rows and tombstones, visible and not yet committed, the last ids, the watermarks in Redis, and
the runs. -/
structure CascadeState where
  rows : List ModelRow
  tombstones : List Tombstone
  pendingRows : List ModelRow
  pendingTombstones : List Tombstone
  lastRowId : ℕ
  lastTombstoneId : ℕ
  rowWatermark : Option ℕ
  tombstoneWatermark : Option ℕ
  runs : ℕ → Option Stage

/-- What can happen. -/
inductive CascadeEvent
  | insertRow (foreignKey : Option ℤ)
  | insertTombstone (tableName : String) (objectIdentifier : ℤ)
  /-- A transaction commits with these rows and tombstones. -/
  | commit (rowIds tombstoneIds : List ℕ)
  | starts (run : ℕ)
  /-- The next statement of a run; `choice` are the rows picked by it, if it picks any. -/
  | statement (run : ℕ) (choice : List ℕ)
  | fails (run : ℕ)

namespace CascadeState

def watermark (s : CascadeState) : Watermark → Option ℕ
  | .row => s.rowWatermark
  | .tombstone => s.tombstoneWatermark

/-- `client.set` of a watermark. -/
def storeWatermark (s : CascadeState) (value : ℕ) : Watermark → CascadeState
  | .row => { s with rowWatermark := some value }
  | .tombstone => { s with tombstoneWatermark := some value }

def ids (s : CascadeState) : Watermark → List ℕ
  | .row => s.rows.map ModelRow.id
  | .tombstone => s.tombstones.map Tombstone.id

def setStage (s : CascadeState) (run : ℕ) (stage : Option Stage) : CascadeState :=
  { s with runs := Function.update s.runs run stage }

def statement (field : HybridCloudForeignKey) (s : CascadeState) (run : ℕ) (choice : List ℕ) :
    Stage → CascadeState
  | .getWatermark watermark =>
    match s.watermark watermark with
    | none => s.setStage run (some (.initWatermark watermark))
    | some lower => s.setStage run (some (.aggregate watermark lower))
  | .initWatermark watermark =>
    (s.storeWatermark 0 watermark).setStage run (some (.aggregate watermark 0))
  | .aggregate watermark lower =>
    let batch := chunkWatermarkBatch field.batchSize lower (s.ids watermark)
    s.setStage run (if batch.low < batch.up then some (.select watermark batch)
      else Stage.afterReconciliation watermark batch.hasMore)
  | .select watermark batch =>
    if field.sameDb then
      s.setStage run (Stage.afterSelect field watermark batch
        (joinIds field watermark batch s.rows s.tombstones))
    else
      match watermark with
      | .row => s.setStage run (some (.selectTombstones batch (rowPairs batch s.rows)))
      | .tombstone =>
        s.setStage run (some (.selectRows batch (tombstoneObjects field batch s.tombstones)))
  | .selectTombstones batch pairs =>
    s.setStage run
      (Stage.afterSelect field .row batch (rowIdsOfTombstones field pairs s.tombstones))
  | .selectRows batch objectIds =>
    s.setStage run (Stage.afterSelect field .tombstone batch (rowIdsOfObjects objectIds s.rows))
  | .update watermark batch toDelete =>
    setStage { s with rows := s.rows.map fun r ↦
        if r.id ∈ toDelete then { r with foreignKey := none } else r } run
      (some (.setWatermark watermark batch))
  | .chunk watermark batch toDelete remaining =>
    let found := (s.ids .row).filter fun id ↦ id ∈ toDelete
    let queryset := ((found.filter fun id ↦ id ∈ choice) ++
      found.filter fun id ↦ id ∉ choice).take field.queryLimit
    s.setStage run (if queryset = [] then some (.setWatermark watermark batch)
      else some (.deleteBulk watermark batch toDelete remaining queryset))
  | .deleteBulk watermark batch toDelete remaining queryset =>
    -- An empty choice ends `delete_bulk`, which may leave rows for the next time.
    if choice = [] then
      s.setStage run (Stage.chunkLoop watermark batch toDelete (remaining - field.queryLimit))
    else { s with rows := s.rows.filter fun r ↦ ¬(r.id ∈ queryset ∧ r.id ∈ choice) }
  | .setWatermark watermark batch =>
    (s.storeWatermark batch.up watermark).setStage run
      (Stage.afterReconciliation watermark batch.hasMore)

/-- One step. -/
def step (field : HybridCloudForeignKey) (s : CascadeState) : CascadeEvent → CascadeState
  | .insertRow foreignKey =>
    { s with
      pendingRows := s.pendingRows ++ [⟨s.lastRowId + 1, foreignKey, Nat.succ_pos _⟩]
      lastRowId := s.lastRowId + 1 }
  | .insertTombstone tableName objectIdentifier =>
    { s with
      pendingTombstones := s.pendingTombstones ++
        [⟨s.lastTombstoneId + 1, tableName, objectIdentifier, Nat.succ_pos _⟩]
      lastTombstoneId := s.lastTombstoneId + 1 }
  | .commit rowIds tombstoneIds =>
    { s with
      rows := s.rows ++ s.pendingRows.filter fun r ↦ r.id ∈ rowIds
      pendingRows := s.pendingRows.filter fun r ↦ r.id ∉ rowIds
      tombstones := s.tombstones ++ s.pendingTombstones.filter fun t ↦ t.id ∈ tombstoneIds
      pendingTombstones := s.pendingTombstones.filter fun t ↦ t.id ∉ tombstoneIds }
  | .starts run =>
    match s.runs run with
    | none => s.setStage run (some (.getWatermark .row))
    | some _ => s
  | .statement run choice =>
    match s.runs run with
    | none => s
    | some stage => s.statement field run choice stage
  | .fails run => s.setStage run none

end CascadeState

/-- The machine of a field, from empty tables and without stored watermarks. -/
def cascades (field : HybridCloudForeignKey) : Machine CascadeState CascadeEvent where
  init := ⟨[], [], [], [], 0, 0, none, none, fun _ ↦ none⟩
  step := CascadeState.step field

end Sentry.Deletions
