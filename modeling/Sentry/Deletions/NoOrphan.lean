import Sentry.Deletions.TombstoneCascade

/-!
# When the cascades leave no orphan

A reconciliation has passed a row and a tombstone for its key when its stored watermark has passed
them or a run is about to store such a watermark (`CascadeState.Passed`). A statement never makes a
visible pair passed (`passed_of_statement`). But a row or tombstone with a smaller id can become
visible behind the watermark, and a pair of which this is so in both passes is left for good. If
every commit is in time for one of them, none is (`no_orphan_of_commitsInTime`).
-/

namespace Sentry.Deletions

open Library List

/-! ### The two selecting queries -/

section Queries

variable (field : HybridCloudForeignKey) (batch : WatermarkBatch) (rows : List ModelRow)
  (tombstones : List Tombstone)

variable {id : ℕ}

theorem mem_joinIds {watermark : Watermark} :
    id ∈ joinIds field watermark batch rows tombstones ↔
      ∃ r ∈ rows, ∃ t ∈ tombstones, t.IsFor field r ∧
        batch.Contains (match watermark with | .row => r.id | .tombstone => t.id) ∧ r.id = id := by
  simp only [joinIds, mem_flatMap, mem_map, mem_filter, decide_eq_true_eq]
  constructor
  · rintro ⟨r, hr, t, ⟨ht, hfor, hbatch⟩, hid⟩
    exact ⟨r, hr, t, ht, hfor, hbatch, hid⟩
  · rintro ⟨r, hr, t, ht, hfor, hbatch, hid⟩
    exact ⟨r, hr, t, ⟨ht, hfor, hbatch⟩, hid⟩

theorem mem_rowPairs {pair : ℕ × Option ℤ} :
    pair ∈ rowPairs batch rows ↔ ∃ r ∈ rows, batch.Contains r.id ∧ (r.id, r.foreignKey) = pair := by
  simp [rowPairs, and_assoc]

theorem mem_rowIdsOfTombstones {pairs : List (ℕ × Option ℤ)} :
    id ∈ rowIdsOfTombstones field pairs tombstones ↔
      ∃ t ∈ tombstones, t.tableName = field.foreignTableName ∧
        (id, some t.objectIdentifier) ∈ pairs := by
  simp [rowIdsOfTombstones, and_assoc]

theorem mem_tombstoneObjects {key : ℤ} :
    key ∈ tombstoneObjects field batch tombstones ↔
      ∃ t ∈ tombstones, batch.Contains t.id ∧ t.tableName = field.foreignTableName ∧
        t.objectIdentifier = key := by
  simp [tombstoneObjects, and_assoc]

theorem mem_rowIdsOfObjects {objectIds : List ℤ} :
    id ∈ rowIdsOfObjects objectIds rows ↔
      ∃ r ∈ rows, (∃ key ∈ objectIds, r.foreignKey = some key) ∧ r.id = id := by
  simp [rowIdsOfObjects, and_assoc]

theorem mem_rowIdsOfTombstones_rowPairs :
    id ∈ rowIdsOfTombstones field (rowPairs batch rows) tombstones ↔
      id ∈ joinIds field .row batch rows tombstones := by
  simp only [mem_rowIdsOfTombstones, mem_rowPairs, mem_joinIds, Tombstone.IsFor]
  constructor
  · rintro ⟨t, ht, htable, r, hr, hbatch, hpair⟩
    obtain ⟨hid, hkey⟩ := Prod.mk.inj hpair
    exact ⟨r, hr, t, ht, ⟨htable, hkey⟩, hbatch, hid⟩
  · rintro ⟨r, hr, t, ht, ⟨htable, hkey⟩, hbatch, hid⟩
    exact ⟨t, ht, htable, r, hr, hbatch, by rw [hid, hkey]⟩

theorem mem_rowIdsOfObjects_tombstoneObjects :
    id ∈ rowIdsOfObjects (tombstoneObjects field batch tombstones) rows ↔
      id ∈ joinIds field .tombstone batch rows tombstones := by
  simp only [mem_rowIdsOfObjects, mem_tombstoneObjects, mem_joinIds, Tombstone.IsFor]
  constructor
  · rintro ⟨r, hr, ⟨key, ⟨t, ht, hbatch, htable, rfl⟩, hkey⟩, hid⟩
    exact ⟨r, hr, t, ht, ⟨htable, hkey⟩, hbatch, hid⟩
  · rintro ⟨r, hr, t, ht, ⟨htable, hkey⟩, hbatch, hid⟩
    exact ⟨r, hr, ⟨t.objectIdentifier, ⟨t, ht, hbatch, htable, rfl⟩, hkey⟩, hid⟩

end Queries

/-! ### What a reconciliation has passed -/

def Watermark.idOf (r : ModelRow) (t : Tombstone) : Watermark → ℕ
  | .row => r.id
  | .tombstone => t.id

def Stage.Passed (watermark : Watermark) (r : ModelRow) (t : Tombstone) : Stage → Prop
  | .getWatermark _ => False
  | .initWatermark _ => False
  | .aggregate w lower => w = watermark ∧ w.idOf r t ≤ lower
  | .select w batch => w = watermark ∧ w.idOf r t ≤ batch.low
  | .selectTombstones batch pairs =>
    watermark = .row ∧ r.id ≤ batch.up ∧ (r.id, r.foreignKey) ∉ pairs
  | .selectRows batch objectIds =>
    watermark = .tombstone ∧ t.id ≤ batch.up ∧ t.objectIdentifier ∉ objectIds
  | .update w batch toDelete => w = watermark ∧ w.idOf r t ≤ batch.up ∧ r.id ∉ toDelete
  | .chunk w batch toDelete _ => w = watermark ∧ w.idOf r t ≤ batch.up ∧ r.id ∉ toDelete
  | .deleteBulk w batch toDelete _ _ => w = watermark ∧ w.idOf r t ≤ batch.up ∧ r.id ∉ toDelete
  | .setWatermark w batch => w = watermark ∧ w.idOf r t ≤ batch.up

namespace CascadeState

def Passed (s : CascadeState) (watermark : Watermark) (r : ModelRow) (t : Tombstone) : Prop :=
  (∃ value, s.watermark watermark = some value ∧ watermark.idOf r t ≤ value) ∨
    ∃ run stage, s.runs run = some stage ∧ stage.Passed watermark r t

/-- No row is left with a visible tombstone for its key behind both stored watermarks. -/
def NoOrphan (field : HybridCloudForeignKey) (s : CascadeState) : Prop :=
  ∀ r ∈ s.rows, ∀ t ∈ s.tombstones, t.IsFor field r →
    ∀ low, s.rowWatermark = some low → ∀ low', s.tombstoneWatermark = some low' →
      ¬(r.id ≤ low ∧ t.id ≤ low')

def NonePassedByBoth (field : HybridCloudForeignKey) (s : CascadeState) : Prop :=
  ∀ r ∈ s.rows, ∀ t ∈ s.tombstones, t.IsFor field r → ¬(s.Passed .row r t ∧ s.Passed .tombstone r t)

theorem NonePassedByBoth.noOrphan {field : HybridCloudForeignKey} {s : CascadeState}
    (h : s.NonePassedByBoth field) : s.NoOrphan field := by
  intro r hr t ht hfor low hlow low' hlow' hboth
  apply h r hr t ht hfor
  exact ⟨Or.inl ⟨low, hlow, hboth.1⟩, Or.inl ⟨low', hlow', hboth.2⟩⟩

def KeepsUnpassed (field : HybridCloudForeignKey) (s s' : CascadeState) : Prop :=
  ∀ r ∈ s'.rows, ∀ t ∈ s'.tombstones, t.IsFor field r →
    r ∈ s.rows ∧ t ∈ s.tombstones ∧ ∀ watermark, s'.Passed watermark r t → s.Passed watermark r t

theorem KeepsUnpassed.nonePassedByBoth {field : HybridCloudForeignKey} {s s' : CascadeState}
    (h : KeepsUnpassed field s s') (hs : s.NonePassedByBoth field) : s'.NonePassedByBoth field := by
  intro r hr t ht hfor hboth
  obtain ⟨hr', ht', hpassed⟩ := h r hr t ht hfor
  exact hs r hr' t ht' hfor ⟨hpassed .row hboth.1, hpassed .tombstone hboth.2⟩

end CascadeState

/-! ### One statement -/

theorem le_lower_of_le_low {batchSize lower id : ℕ} {ids : List ℕ} (hid : id ∈ ids) (hpos : 0 < id)
    (h : id ≤ (chunkWatermarkBatch batchSize lower ids).low) : id ≤ lower := by
  by_cases hlower : lower = 0
  · have hlow : id ≤ ids.min?.getD 1 - 1 := by simpa [chunkWatermarkBatch, hlower] using h
    cases hmin : ids.min? with
    | none => simp [min?_eq_none_iff.mp hmin] at hid
    | some least =>
      have hleast : least ≤ id := (min?_eq_some_iff.mp hmin).2 id hid
      rw [hmin, Option.getD_some] at hlow
      have hlt : least - 1 < id :=
        (Nat.sub_le_sub_right hleast 1).trans_lt (Nat.sub_lt hpos Nat.one_pos)
      exact absurd hlow (not_le.mpr hlt)
  · simpa [chunkWatermarkBatch, hlower] using h

namespace Stage

variable {watermark w : Watermark} {r : ModelRow} {t : Tombstone} {batch : WatermarkBatch}
  {toDelete : List ℕ} {stage : Stage}

theorem not_passed_afterReconciliation {hasMore : Bool}
    (h : afterReconciliation watermark hasMore = some stage) : ¬stage.Passed w r t := by
  cases watermark with
  | row =>
    cases hasMore with
    | false =>
      obtain rfl := Option.some.inj h
      exact id
    | true => exact absurd h (by simp [afterReconciliation])
  | tombstone => exact absurd h (by simp [afterReconciliation])

theorem passed_chunkLoop {remaining : ℕ}
    (h : chunkLoop watermark batch toDelete remaining = some stage) (hpassed : stage.Passed w r t) :
    watermark = w ∧ watermark.idOf r t ≤ batch.up ∧ r.id ∉ toDelete := by
  unfold chunkLoop at h
  by_cases hremaining : 0 < remaining
  · rw [if_pos hremaining] at h
    obtain rfl := Option.some.inj h
    exact hpassed
  · rw [if_neg hremaining] at h
    exact absurd hpassed (not_passed_afterReconciliation h)

theorem passed_afterSelect {field : HybridCloudForeignKey} (hfield : field.onDelete ≠ .doNothing)
    (h : afterSelect field watermark batch toDelete = some stage) (hpassed : stage.Passed w r t) :
    watermark = w ∧ watermark.idOf r t ≤ batch.up ∧ r.id ∉ toDelete := by
  unfold afterSelect at h
  cases hdelete : field.onDelete with
  | cascade =>
    rw [hdelete] at h
    exact passed_chunkLoop h hpassed
  | setNull =>
    rw [hdelete] at h
    obtain rfl := Option.some.inj h
    exact hpassed
  | doNothing => exact absurd hdelete hfield

end Stage

namespace CascadeState

variable {field : HybridCloudForeignKey} {s : CascadeState} {run : ℕ} {r : ModelRow} {t : Tombstone}
  {w : Watermark}

variable {next : Option Stage}

theorem passed_setStage (h : (s.setStage run next).Passed w r t) :
    s.Passed w r t ∨ ∃ stage, next = some stage ∧ stage.Passed w r t := by
  rcases h with hstored | ⟨run', stage, hstage, hpassed⟩
  · exact Or.inl (Or.inl (by cases w <;> exact hstored))
  · by_cases hrun : run' = run
    · subst hrun
      exact Or.inr ⟨stage, by simpa [setStage] using hstage, hpassed⟩
    · refine Or.inl (Or.inr ⟨run', stage, ?_, hpassed⟩)
      simpa [setStage, Function.update_of_ne hrun] using hstage

theorem passed_storeWatermark {watermark : Watermark} {value : ℕ}
    (h : (s.storeWatermark value watermark).Passed w r t) :
    s.Passed w r t ∨ (watermark = w ∧ w.idOf r t ≤ value) := by
  rcases h with ⟨stored, hstored, hle⟩ | hrun
  · by_cases hw : watermark = w
    · subst hw
      have hvalue : value = stored := by
        cases watermark <;> exact Option.some.inj hstored
      exact Or.inr ⟨rfl, hvalue ▸ hle⟩
    · refine Or.inl (Or.inl ⟨stored, ?_, hle⟩)
      cases watermark <;> cases w <;> first | exact absurd rfl hw | exact hstored
  · exact Or.inl (Or.inr (by cases watermark <;> exact hrun))

theorem keepsUnpassed_setStage
    (h : ∀ r ∈ s.rows, ∀ t ∈ s.tombstones, t.IsFor field r → ∀ w stage, next = some stage →
      stage.Passed w r t → s.Passed w r t) :
    KeepsUnpassed field s (s.setStage run next) := by
  intro r hr t ht hfor
  refine ⟨hr, ht, fun w hpassed ↦ ?_⟩
  rcases passed_setStage hpassed with hs | ⟨stage, hstage, hpassed⟩
  · exact hs
  · exact h r hr t ht hfor w stage hstage hpassed

theorem passed_of_run {stage : Stage} (hrun : s.runs run = some stage) (h : stage.Passed w r t) :
    s.Passed w r t :=
  Or.inr ⟨run, stage, hrun, h⟩

theorem idOf_pos (w : Watermark) (r : ModelRow) (t : Tombstone) : 0 < w.idOf r t := by
  cases w with
  | row => exact r.id_pos
  | tombstone => exact t.id_pos

theorem idOf_mem_ids (hr : r ∈ s.rows) (ht : t ∈ s.tombstones) : w.idOf r t ∈ s.ids w := by
  cases w with
  | row => exact mem_map_of_mem hr
  | tombstone => exact mem_map_of_mem ht

theorem keepsUnpassed_storeWatermark {watermark : Watermark} {value : ℕ}
    (hvalue : ∀ r t, watermark.idOf r t ≤ value → s.Passed watermark r t)
    (hnext : ∀ r t w stage, next = some stage → stage.Passed w r t →
      watermark = w ∧ watermark.idOf r t ≤ value) :
    KeepsUnpassed field s ((s.storeWatermark value watermark).setStage run next) := by
  have hrows : (s.storeWatermark value watermark).rows = s.rows := by cases watermark <;> rfl
  have htombstones : (s.storeWatermark value watermark).tombstones = s.tombstones := by
    cases watermark <;> rfl
  intro r hr t ht _
  refine ⟨hrows ▸ hr, htombstones ▸ ht, fun w hpassed ↦ ?_⟩
  have hstored : s.Passed w r t ∨ (watermark = w ∧ w.idOf r t ≤ value) := by
    rcases passed_setStage hpassed with hs | ⟨stage, hstage, hpassed⟩
    · exact passed_storeWatermark hs
    · obtain ⟨rfl, hle⟩ := hnext r t w stage hstage hpassed
      exact Or.inr ⟨rfl, hle⟩
  rcases hstored with hs | ⟨rfl, hle⟩
  · exact hs
  · exact hvalue r t hle

variable {choice : List ℕ} {watermark : Watermark} {batch : WatermarkBatch} {toDelete : List ℕ}

theorem keepsUnpassed_getWatermark :
    KeepsUnpassed field s (s.statement field run choice (.getWatermark watermark)) := by
  cases hstored : s.watermark watermark with
  | none =>
    simp only [statement, hstored]
    apply keepsUnpassed_setStage
    intro r _ t _ _ w stage hstage hpassed
    obtain rfl := Option.some.inj hstage
    exact absurd hpassed id
  | some lower =>
    simp only [statement, hstored]
    apply keepsUnpassed_setStage
    intro r _ t _ _ w stage hstage hpassed
    obtain rfl := Option.some.inj hstage
    obtain ⟨rfl, hle⟩ := hpassed
    exact Or.inl ⟨lower, hstored, hle⟩

theorem keepsUnpassed_initWatermark :
    KeepsUnpassed field s (s.statement field run choice (.initWatermark watermark)) := by
  apply keepsUnpassed_storeWatermark
  · intro r t hle
    exact absurd hle (not_le.mpr (idOf_pos watermark r t))
  · intro r t w stage hstage hpassed
    obtain rfl := Option.some.inj hstage
    exact ⟨hpassed.1, hpassed.1 ▸ hpassed.2⟩

theorem keepsUnpassed_aggregate {lower : ℕ}
    (hrun : s.runs run = some (.aggregate watermark lower)) :
    KeepsUnpassed field s (s.statement field run choice (.aggregate watermark lower)) := by
  apply keepsUnpassed_setStage
  intro r hr t ht _ w stage hstage hpassed
  by_cases hbatch : (chunkWatermarkBatch field.batchSize lower (s.ids watermark)).low <
      (chunkWatermarkBatch field.batchSize lower (s.ids watermark)).up
  · rw [if_pos hbatch] at hstage
    obtain rfl := Option.some.inj hstage
    obtain ⟨rfl, hle⟩ := hpassed
    exact passed_of_run hrun
      ⟨rfl, le_lower_of_le_low (idOf_mem_ids hr ht) (idOf_pos watermark r t) hle⟩
  · rw [if_neg hbatch] at hstage
    exact absurd hpassed (Stage.not_passed_afterReconciliation hstage)

theorem keepsUnpassed_select (hfield : field.onDelete ≠ .doNothing)
    (hrun : s.runs run = some (.select watermark batch)) :
    KeepsUnpassed field s (s.statement field run choice (.select watermark batch)) := by
  -- A visible pair that the query does not select is behind the low bound of the batch.
  have hlow : ∀ r t, watermark.idOf r t ≤ batch.up → ¬batch.Contains (watermark.idOf r t) →
      s.Passed watermark r t := by
    intro r t hup hout
    exact passed_of_run hrun ⟨rfl, not_lt.mp fun hlt ↦ hout ⟨hlt, hup⟩⟩
  simp only [statement]
  by_cases hdb : field.sameDb = true
  · rw [if_pos hdb]
    apply keepsUnpassed_setStage
    intro r hr t ht hfor w stage hstage hpassed
    obtain ⟨rfl, hup, hout⟩ := Stage.passed_afterSelect hfield hstage hpassed
    apply hlow r t hup
    intro hbatch
    apply hout
    refine (mem_joinIds field batch s.rows s.tombstones).mpr ⟨r, hr, t, ht, hfor, ?_, rfl⟩
    cases watermark <;> exact hbatch
  · rw [if_neg hdb]
    cases watermark with
    | row =>
      apply keepsUnpassed_setStage
      intro r hr t ht hfor w stage hstage hpassed
      obtain rfl := Option.some.inj hstage
      obtain ⟨rfl, hup, hout⟩ := hpassed
      apply hlow r t hup
      intro hbatch
      exact hout ((mem_rowPairs batch s.rows).mpr ⟨r, hr, hbatch, rfl⟩)
    | tombstone =>
      apply keepsUnpassed_setStage
      intro r hr t ht hfor w stage hstage hpassed
      obtain rfl := Option.some.inj hstage
      obtain ⟨rfl, hup, hout⟩ := hpassed
      apply hlow r t hup
      intro hbatch
      exact hout ((mem_tombstoneObjects field batch s.tombstones).mpr ⟨t, ht, hbatch, hfor.1, rfl⟩)

theorem keepsUnpassed_selectTombstones (hfield : field.onDelete ≠ .doNothing)
    {pairs : List (ℕ × Option ℤ)} (hrun : s.runs run = some (.selectTombstones batch pairs)) :
    KeepsUnpassed field s (s.statement field run choice (.selectTombstones batch pairs)) := by
  apply keepsUnpassed_setStage
  intro r hr t ht hfor w stage hstage hpassed
  obtain ⟨rfl, hup, hout⟩ := Stage.passed_afterSelect hfield hstage hpassed
  refine passed_of_run hrun ⟨rfl, hup, fun hpair ↦ hout ?_⟩
  rw [hfor.2] at hpair
  exact (mem_rowIdsOfTombstones field s.tombstones).mpr ⟨t, ht, hfor.1, hpair⟩

theorem keepsUnpassed_selectRows (hfield : field.onDelete ≠ .doNothing) {objectIds : List ℤ}
    (hrun : s.runs run = some (.selectRows batch objectIds)) :
    KeepsUnpassed field s (s.statement field run choice (.selectRows batch objectIds)) := by
  apply keepsUnpassed_setStage
  intro r hr t ht hfor w stage hstage hpassed
  obtain ⟨rfl, hup, hout⟩ := Stage.passed_afterSelect hfield hstage hpassed
  refine passed_of_run hrun ⟨rfl, hup, fun hkey ↦ hout ?_⟩
  exact (mem_rowIdsOfObjects s.rows).mpr ⟨r, hr, ⟨t.objectIdentifier, hkey, hfor.2⟩, rfl⟩

theorem keepsUnpassed_update (hrun : s.runs run = some (.update watermark batch toDelete)) :
    KeepsUnpassed field s (s.statement field run choice (.update watermark batch toDelete)) := by
  intro r hr t ht hfor
  -- A row that still has its key is not among those set to null.
  have hkept : r ∈ s.rows ∧ r.id ∉ toDelete := by
    obtain ⟨old, hold, hrow⟩ := mem_map.mp hr
    by_cases hid : old.id ∈ toDelete
    · rw [if_pos hid] at hrow
      subst hrow
      exact absurd hfor.2 (by simp)
    · rw [if_neg hid] at hrow
      subst hrow
      exact ⟨hold, hid⟩
  refine ⟨hkept.1, ht, fun w hpassed ↦ ?_⟩
  rcases passed_setStage hpassed with hs | ⟨stage, hstage, hpassed⟩
  · cases w <;> exact hs
  · obtain rfl := Option.some.inj hstage
    exact passed_of_run hrun ⟨hpassed.1, hpassed.2, hkept.2⟩

theorem keepsUnpassed_chunk {remaining : ℕ}
    (hrun : s.runs run = some (.chunk watermark batch toDelete remaining)) :
    KeepsUnpassed field s
      (s.statement field run choice (.chunk watermark batch toDelete remaining)) := by
  apply keepsUnpassed_setStage
  intro r hr t ht hfor w stage hstage hpassed
  split at hstage
  next hempty =>
    obtain rfl := Option.some.inj hstage
    refine passed_of_run hrun ⟨hpassed.1, hpassed.2, fun hid ↦ ?_⟩
    have hfound : r.id ∈ (s.ids .row).filter fun id ↦ id ∈ toDelete :=
      mem_filter.mpr ⟨mem_map_of_mem hr, by simpa using hid⟩
    rw [take_eq_nil_iff] at hempty
    obtain hlimit | happend := hempty
    · exact absurd hlimit field.queryLimit_pos.ne'
    · obtain ⟨hin, hout⟩ := append_eq_nil_iff.mp happend
      by_cases hchoice : r.id ∈ choice
      · exact filter_eq_nil_iff.mp hin r.id hfound (by simpa using hchoice)
      · exact filter_eq_nil_iff.mp hout r.id hfound (by simpa using hchoice)
  next =>
    obtain rfl := Option.some.inj hstage
    exact passed_of_run hrun hpassed

theorem keepsUnpassed_deleteBulk {remaining : ℕ} {queryset : List ℕ}
    (hrun : s.runs run = some (.deleteBulk watermark batch toDelete remaining queryset)) :
    KeepsUnpassed field s
      (s.statement field run choice (.deleteBulk watermark batch toDelete remaining queryset)) := by
  simp only [statement]
  by_cases hchoice : choice = []
  · rw [if_pos hchoice]
    apply keepsUnpassed_setStage
    intro r hr t ht hfor w stage hstage hpassed
    exact passed_of_run hrun (Stage.passed_chunkLoop hstage hpassed)
  · rw [if_neg hchoice]
    intro r hr t ht hfor
    exact ⟨mem_of_mem_filter hr, ht, fun w hpassed ↦ by cases w <;> exact hpassed⟩

theorem keepsUnpassed_setWatermark (hrun : s.runs run = some (.setWatermark watermark batch)) :
    KeepsUnpassed field s (s.statement field run choice (.setWatermark watermark batch)) := by
  apply keepsUnpassed_storeWatermark
  · intro r t hle
    exact passed_of_run hrun ⟨rfl, hle⟩
  · intro r t w stage hstage hpassed
    exact absurd hpassed (Stage.not_passed_afterReconciliation hstage)

theorem keepsUnpassed_statement (hfield : field.onDelete ≠ .doNothing) {stage : Stage}
    (hrun : s.runs run = some stage) :
    KeepsUnpassed field s (s.statement field run choice stage) := by
  cases stage with
  | getWatermark watermark => exact keepsUnpassed_getWatermark
  | initWatermark watermark => exact keepsUnpassed_initWatermark
  | aggregate watermark lower => exact keepsUnpassed_aggregate hrun
  | select watermark batch => exact keepsUnpassed_select hfield hrun
  | selectTombstones batch pairs => exact keepsUnpassed_selectTombstones hfield hrun
  | selectRows batch objectIds => exact keepsUnpassed_selectRows hfield hrun
  | update watermark batch toDelete => exact keepsUnpassed_update hrun
  | chunk watermark batch toDelete remaining => exact keepsUnpassed_chunk hrun
  | deleteBulk watermark batch toDelete remaining queryset => exact keepsUnpassed_deleteBulk hrun
  | setWatermark watermark batch => exact keepsUnpassed_setWatermark hrun

end CascadeState

/-! ### Runs -/

/-- A commit is in time if no pair that it makes visible has been passed by both reconciliations. -/
def CommitsInTime (field : HybridCloudForeignKey) (s : CascadeState) : CascadeEvent → Prop
  | .commit rowIds tombstoneIds =>
    ∀ r ∈ (s.step field (.commit rowIds tombstoneIds)).rows,
      ∀ t ∈ (s.step field (.commit rowIds tombstoneIds)).tombstones, t.IsFor field r →
        ¬(r ∈ s.rows ∧ t ∈ s.tombstones) → ¬(s.Passed .row r t ∧ s.Passed .tombstone r t)
  | _ => True

namespace CascadeState

variable {field : HybridCloudForeignKey}

theorem keepsUnpassed_step (hfield : field.onDelete ≠ .doNothing) (s : CascadeState)
    {event : CascadeEvent} (hevent : ∀ rowIds tombstoneIds, event ≠ .commit rowIds tombstoneIds) :
    KeepsUnpassed field s (s.step field event) := by
  cases event with
  | insertRow foreignKey => exact fun r hr t ht _ ↦ ⟨hr, ht, fun w h ↦ by cases w <;> exact h⟩
  | insertTombstone tableName objectIdentifier =>
    exact fun r hr t ht _ ↦ ⟨hr, ht, fun w h ↦ by cases w <;> exact h⟩
  | commit rowIds tombstoneIds => exact absurd rfl (hevent rowIds tombstoneIds)
  | starts run =>
    cases hrun : s.runs run with
    | none =>
      simp only [step, hrun]
      apply keepsUnpassed_setStage
      intro r _ t _ _ w stage hstage hpassed
      obtain rfl := Option.some.inj hstage
      exact absurd hpassed id
    | some stage =>
      simp only [step, hrun]
      exact fun r hr t ht _ ↦ ⟨hr, ht, fun w h ↦ h⟩
  | statement run choice =>
    cases hrun : s.runs run with
    | none =>
      simp only [step, hrun]
      exact fun r hr t ht _ ↦ ⟨hr, ht, fun w h ↦ h⟩
    | some stage =>
      simp only [step, hrun]
      exact keepsUnpassed_statement hfield hrun
  | fails run =>
    apply keepsUnpassed_setStage
    intro r _ t _ _ w stage hstage
    exact absurd hstage (by simp)

theorem passed_commit_iff {s : CascadeState} {rowIds tombstoneIds : List ℕ} {w : Watermark}
    {r : ModelRow} {t : Tombstone} :
    (s.step field (.commit rowIds tombstoneIds)).Passed w r t ↔ s.Passed w r t := by
  cases w <;> exact Iff.rfl

theorem nonePassedByBoth_commit_iff {s : CascadeState} (hs : s.NonePassedByBoth field)
    {rowIds tombstoneIds : List ℕ} :
    (s.step field (.commit rowIds tombstoneIds)).NonePassedByBoth field ↔
      CommitsInTime field s (.commit rowIds tombstoneIds) := by
  constructor
  · intro h r hr t ht hfor _ hboth
    exact h r hr t ht hfor ⟨passed_commit_iff.mpr hboth.1, passed_commit_iff.mpr hboth.2⟩
  · intro h r hr t ht hfor hboth
    have hboth' : s.Passed .row r t ∧ s.Passed .tombstone r t :=
      ⟨passed_commit_iff.mp hboth.1, passed_commit_iff.mp hboth.2⟩
    by_cases hvisible : r ∈ s.rows ∧ t ∈ s.tombstones
    · exact hs r hvisible.1 t hvisible.2 hfor hboth'
    · exact h r hr t ht hfor hvisible hboth'

theorem nonePassedByBoth_step_iff (hfield : field.onDelete ≠ .doNothing) (s : CascadeState)
    (event : CascadeEvent) (hs : s.NonePassedByBoth field) :
    (s.step field event).NonePassedByBoth field ↔ CommitsInTime field s event := by
  cases event with
  | commit rowIds tombstoneIds => exact nonePassedByBoth_commit_iff hs
  | insertRow | insertTombstone | starts | statement | fails =>
    refine iff_of_true ?_ trivial
    exact (keepsUnpassed_step hfield s (fun _ _ ↦ CascadeEvent.noConfusion)).nonePassedByBoth hs

end CascadeState

theorem forall_prefix_nonePassedByBoth_iff {field : HybridCloudForeignKey}
    (hfield : field.onDelete ≠ .doNothing) (events : List CascadeEvent) :
    (∀ first, first <+: events → ((cascades field).run first).NonePassedByBoth field) ↔
      (cascades field).EveryStep (CommitsInTime field) (cascades field).init events :=
  (cascades field).forall_prefix_iff_everyStep
    (CascadeState.nonePassedByBoth_step_iff hfield)
    (fun r hr ↦ absurd hr (by simp [cascades])) events

/-- In every run whose commits are in time, no visible row is left with a visible tombstone for its
key behind the stored watermarks; and the lookups across databases select the rows of the join. -/
theorem no_orphan_of_commitsInTime (field : HybridCloudForeignKey)
    (hfield : field.onDelete ≠ .doNothing) (events : List CascadeEvent)
    (hcommits : (cascades field).EveryStep (CommitsInTime field) (cascades field).init events) :
    (∀ first, first <+: events → ((cascades field).run first).NoOrphan field) ∧
      ∀ batch rows tombstones id,
        (id ∈ joinIds field .row batch rows tombstones ↔
          id ∈ rowIdsOfTombstones field (rowPairs batch rows) tombstones) ∧
        (id ∈ joinIds field .tombstone batch rows tombstones ↔
          id ∈ rowIdsOfObjects (tombstoneObjects field batch tombstones) rows) := by
  constructor
  · intro first hfirst
    exact ((forall_prefix_nonePassedByBoth_iff hfield events).mpr hcommits first hfirst).noOrphan
  · intro batch rows tombstones id
    exact ⟨(mem_rowIdsOfTombstones_rowPairs field batch rows tombstones).symm,
      (mem_rowIdsOfObjects_tombstoneObjects field batch rows tombstones).symm⟩

/-- A field of rows that are deleted with their organization, in one database with the tombstones.
-/
def organizationField : HybridCloudForeignKey :=
  ⟨"sentry_organization", .cascade, true, 500, 100, 100, by decide⟩

def statements (run : ℕ) (choices : List (List ℕ)) : List CascadeEvent :=
  choices.map (.statement run)

/-- Row 1 of organization 7, row 2 and the tombstone of the organization commit. A first run deletes
row 1, and a second one passes what is left. -/
def rowOfTombstone : List CascadeEvent :=
  [.insertRow (some 7), .insertRow none, .commit [1, 2] [],
    .insertTombstone "sentry_organization" 7, .commit [] [1], .starts 0] ++
    statements 0 [[], [], [], [], [], [1], []] ++
    [.starts 1] ++ statements 1 [[], [], [], [], [], [], [], [], [], [], []]

theorem rowOfTombstone_leaves_no_orphan :
    (∀ first, first <+: rowOfTombstone →
        ((cascades organizationField).run first).NoOrphan organizationField) ∧
      ((cascades organizationField).run rowOfTombstone).rowWatermark = some 2 ∧
      ((cascades organizationField).run rowOfTombstone).tombstoneWatermark = some 1 ∧
      ((cascades organizationField).run rowOfTombstone).rows.map ModelRow.id = [2] := by
  have hcommits : (cascades organizationField).EveryStep (CommitsInTime organizationField)
      (cascades organizationField).init rowOfTombstone := by
    refine ⟨trivial, trivial, ?_, trivial, ?_, trivial, trivial, trivial, trivial, trivial, trivial,
      trivial, trivial, trivial, trivial, trivial, trivial, trivial, trivial, trivial, trivial,
        trivial,
      trivial, trivial, trivial, trivial⟩
    · intro r _ t ht
      exact absurd ht not_mem_nil
    · intro r _ t _ _ _ hboth
      rcases hboth.1 with ⟨value, hvalue, _⟩ | ⟨run, stage, hrun, _⟩
      · cases hvalue
      · cases hrun
  exact ⟨(no_orphan_of_commitsInTime organizationField (by decide) rowOfTombstone hcommits).1,
    rfl, rfl, rfl⟩

/-- Rows 1 and 2 are inserted, row 1 for organization 7, and row 2 commits with the tombstone of the
organization. A run passes both, and then row 1 commits. -/
def lateSmallerRow : List CascadeEvent :=
  [.insertRow (some 7), .insertRow none, .insertTombstone "sentry_organization" 7, .commit [2] [1],
    .starts 0] ++ statements 0 [[], [], [], [], [], [], [], [], [], [], [], []] ++ [.commit [1] []]

/-- Row 1 is left with its tombstone behind both watermarks. -/
theorem lateSmallerRow_orphan :
    organizationField.onDelete = .cascade ∧
      ¬((cascades organizationField).run lateSmallerRow).NoOrphan organizationField := by
  refine ⟨rfl, fun h ↦ ?_⟩
  have hrows : ((cascades organizationField).run lateSmallerRow).rows =
      [⟨2, none, by decide⟩, ⟨1, some 7, by decide⟩] := rfl
  have htombstones : ((cascades organizationField).run lateSmallerRow).tombstones =
      [⟨1, "sentry_organization", 7, by decide⟩] := rfl
  exact h ⟨1, some 7, by decide⟩ (by rw [hrows]; simp)
    ⟨1, "sentry_organization", 7, by decide⟩ (by rw [htombstones]; simp)
    ⟨rfl, rfl⟩ 2 rfl 1 rfl (by decide)

end Sentry.Deletions
