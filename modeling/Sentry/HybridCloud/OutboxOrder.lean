import Sentry.HybridCloud.Outbox
import Mathlib.Data.List.Perm.Subperm

/-!
# The order of the signals of an outbox group

After `process` has signalled the row `c`, its loop deletes the rows of the group with smaller ids
in batches of 100 without an order, and stops at the first batch that has none. So older rows can
remain when there are 100 rows from `c` on, and with fewer none does (`alwaysCleansUp_iff`); the
loop ends (`length_le_of_fetches`).

The signals do not go backwards even then: where an older row remains, so does a newer one
(`exists_newer_of_complete`). Over a run whose writers commit newer rows, or any rows while a signal
is being sent, the ids processed for a group are strictly increasing
(`processed_increasing_and_alwaysCleansUp_iff`).
-/

namespace Sentry.HybridCloud

open Library List

variable {ρ π : Type*} [DecidableEq ρ]

/-! ### Cleaning up a group -/

/-- The rows of the group of `coalesced` from it on. -/
def rowsFrom (s : OutboxState ρ π) (coalesced : OutboxBase ρ π) : List (OutboxBase ρ π) :=
  (selectCoalescedMessages s.rows coalesced.key).filter fun row ↦ coalesced.id ≤ row.id

/-- The condition on a step: the drainer cleans up, and fetches a batch in an order in which the
query can return the rows. -/
def FetchReturns (s : OutboxState ρ π) : OutboxEvent ρ π → Prop
  | .fetchBatch order =>
    match s.phase with
    | .cleaning _ coalesced deleted => order.Perm (s.visibleIds coalesced deleted)
    | _ => False
  | _ => False

/-- Whatever the batches, once the transaction is complete no row of the group up to `coalesced`
remains. -/
def AlwaysCleansUp (options : Options) (s : OutboxState ρ π) (coalesced : OutboxBase ρ π) : Prop :=
  ∀ orders : List (List ℕ),
    (((outbox ρ π options).runFrom s (orders.map .fetchBatch)).phase.signalled = none →
      ∀ row ∈ ((outbox ρ π options).runFrom s (orders.map .fetchBatch)).rows,
        row.key = coalesced.key → coalesced.id < row.id)

theorem forall_le_or_of_deleteIds_eq_nil {order : List ℕ} {coalescedId : ℕ}
    (h : deleteIds (order.take 100) coalescedId = []) :
    (∀ id ∈ order, coalescedId ≤ id) ∨ 100 ≤ (order.filter fun id ↦ coalescedId ≤ id).length := by
  have hbatch : ∀ id ∈ order.take 100, coalescedId ≤ id := by
    simpa [deleteIds, filter_eq_nil_iff] using h
  by_cases hlength : order.length ≤ 100
  · left
    rwa [take_of_length_le hlength] at hbatch
  · right
    have hall : (order.take 100).filter (fun id ↦ coalescedId ≤ id) = order.take 100 :=
      filter_eq_self.mpr fun id hid ↦ by simpa using hbatch id hid
    calc 100 = (order.take 100).length := by rw [length_take]; omega
      _ = ((order.take 100).filter fun id ↦ coalescedId ≤ id).length := by rw [hall]
      _ ≤ (order.filter fun id ↦ coalescedId ≤ id).length :=
        ((take_sublist 100 order).filter _).length_le

variable {coalesced : OutboxBase ρ π} {s : OutboxState ρ π} {deleted order : List ℕ}

theorem length_filter_visibleIds_le (horder : order.Perm (s.visibleIds coalesced deleted)) :
    (order.filter fun id ↦ coalesced.id ≤ id).length ≤ (rowsFrom s coalesced).length := by
  rw [(horder.filter _).length_eq, OutboxState.visibleIds, filter_map, length_map]
  exact ((filter_sublist.filter _).filter _).length_le

theorem nodup_visibleIds (h : WellFormed s) (coalesced : OutboxBase ρ π)
    (deleted : List ℕ) : (s.visibleIds coalesced deleted).Nodup := by
  have hrows : s.rows.Pairwise fun row other ↦ row.id ≠ other.id :=
    (pairwise_append.mp h.distinct).1
  exact pairwise_map.mpr ((hrows.filter _).filter _)

variable {row : OutboxBase ρ π}

/-- Assumes: a batch with nothing to delete. If an older row of the group is left, then so is a
newer one. -/
theorem exists_newer_of_complete (h : WellFormed s)
    (horder : order.Perm (s.visibleIds coalesced deleted))
    (hempty : deleteIds (order.take 100) coalesced.id = []) (hrow : row ∈ s.rows)
    (hkey : row.key = coalesced.key) (hkept : row.id ∉ coalesced.id :: deleted) :
    ∃ newer ∈ s.rows, newer.key = coalesced.key ∧ newer.id ∉ coalesced.id :: deleted ∧
      coalesced.id < newer.id := by
  obtain ⟨hne, hdeleted⟩ := not_or.mp (mem_cons.not.mp hkept)
  rcases forall_le_or_of_deleteIds_eq_nil hempty with hall | hmany
  · have hid : row.id ∈ order :=
      horder.mem_iff.mpr (mem_visibleIds.mpr ⟨row, hrow, hkey, hdeleted, rfl⟩)
    have hle := hall row.id hid
    exact ⟨row, hrow, hkey, hkept, by omega⟩
  · have hnodup : (order.filter fun id ↦ coalesced.id ≤ id).Nodup :=
      (horder.nodup_iff.mpr (nodup_visibleIds h coalesced deleted)).filter _
    -- one of the hundred is not the signalled one
    obtain ⟨id, hid, hidNe⟩ : ∃ id ∈ order.filter fun id ↦ coalesced.id ≤ id,
        id ≠ coalesced.id := by
      by_contra! hsame
      have hlength := (hnodup.subperm fun id hid ↦ mem_singleton.mpr (hsame id hid)).length_le
      rw [length_singleton] at hlength
      omega
    obtain ⟨hidOrder, hle⟩ := mem_filter.mp hid
    obtain ⟨newer, hnewer, hnewerKey, hnewerDeleted, rfl⟩ :=
      mem_visibleIds.mp (horder.mem_iff.mp hidOrder)
    have hle : coalesced.id ≤ newer.id := by simpa using hle
    refine ⟨newer, hnewer, hnewerKey, ?_, by omega⟩
    exact fun hmem ↦ (mem_cons.mp hmem).elim hidNe hnewerDeleted

theorem runFrom_fetchBatch_of_signalled_eq_none (options : Options)
    (hphase : s.phase.signalled = none) (orders : List (List ℕ)) :
    (outbox ρ π options).runFrom s (orders.map .fetchBatch) = s := by
  induction orders with
  | nil => rfl
  | cons order rest ih =>
    have hstep : (outbox ρ π options).step s (.fetchBatch order) = s := by
      simp only [outbox, OutboxState.fetchBatch]
      split
      · next hcleaning =>
        rw [hcleaning] at hphase
        cases hphase
      · rfl
    rw [map_cons, Machine.runFrom_cons, hstep, ih]

variable {drain : Drain ρ π} {options : Options}

theorem step_fetchBatch {deleted : List ℕ} (hphase : s.phase = .cleaning drain coalesced deleted)
    (hskip : shouldSkipShard options coalesced.key.shard = false) (order : List ℕ) :
    (outbox ρ π options).step s (.fetchBatch order) =
      if order.Perm (s.visibleIds coalesced deleted) then
        if deleteIds (order.take 100) coalesced.id = [] then
          s.commitDeletes (coalesced.id :: deleted) (.looping drain) [⟨.processed, coalesced⟩]
        else
          s.setPhase
            (.cleaning drain coalesced (deleted ++ deleteIds (order.take 100) coalesced.id))
      else s := by
  simp only [outbox, OutboxState.fetchBatch, hphase, hskip, Bool.false_eq_true, if_false]

/-- Assumes: nothing is older than the signalled row, or there are fewer than 100 rows from it on.
A batch with nothing to delete then leaves only newer rows. -/
theorem lt_of_complete (horder : order.Perm (s.visibleIds coalesced deleted))
    (hempty : deleteIds (order.take 100) coalesced.id = [])
    (hfew : (∀ row ∈ s.rows, row.key = coalesced.key → coalesced.id ≤ row.id) ∨
      (rowsFrom s coalesced).length < 100) (hrow : row ∈ s.rows)
    (hkey : row.key = coalesced.key) (hkept : row.id ∉ coalesced.id :: deleted) :
    coalesced.id < row.id := by
  obtain ⟨hne, hdeleted⟩ := not_or.mp (mem_cons.not.mp hkept)
  suffices hle : coalesced.id ≤ row.id by omega
  rcases hfew with hall | hfew
  · exact hall row hrow hkey
  · have hlength := length_filter_visibleIds_le horder
    rcases forall_le_or_of_deleteIds_eq_nil hempty with hall | hmany
    · exact hall row.id
        (horder.mem_iff.mpr (mem_visibleIds.mpr ⟨row, hrow, hkey, hdeleted, rfl⟩))
    · omega

/-- Assumes: nothing is older than the signalled row, or there are fewer than 100 rows from it on.
Then the transaction leaves only newer rows. -/
theorem alwaysCleansUp {deleted : List ℕ} (hphase : s.phase = .cleaning drain coalesced deleted)
    (hskip : shouldSkipShard options coalesced.key.shard = false)
    (hfew : (∀ row ∈ s.rows, row.key = coalesced.key → coalesced.id ≤ row.id) ∨
      (rowsFrom s coalesced).length < 100) : AlwaysCleansUp options s coalesced := by
  intro orders
  induction orders generalizing s deleted with
  | nil =>
    intro hdone
    rw [map_nil, Machine.runFrom_nil, hphase] at hdone
    cases hdone
  | cons order rest ih =>
    rw [map_cons, Machine.runFrom_cons, step_fetchBatch hphase hskip]
    split_ifs with horder hempty
    · rw [runFrom_fetchBatch_of_signalled_eq_none options rfl rest]
      intro _ row hrow hkey
      obtain ⟨hrow, hkept⟩ := mem_filter.mp hrow
      exact lt_of_complete horder hempty hfew hrow hkey (by simpa using hkept)
    · exact ih rfl hfew
    · exact ih hphase hfew

section

variable (hphase : s.phase = .cleaning drain coalesced [])
  (hskip : shouldSkipShard options coalesced.key.shard = false)

include hphase hskip

/-- Assumes: nothing has been deleted yet, an older row is left, and there are at least 100 rows
from the signalled one on. With these first, the loop stops at once and the older row remains. -/
theorem not_alwaysCleansUp {older : OutboxBase ρ π}
    (holder : older ∈ s.rows) (hkey : older.key = coalesced.key) (hlt : older.id < coalesced.id)
    (hmany : 100 ≤ (rowsFrom s coalesced).length) : ¬ AlwaysCleansUp options s coalesced := by
  set ids := s.visibleIds coalesced [] with hids
  set newerFirst := ids.filter (fun id ↦ coalesced.id ≤ id) ++
    ids.filter (fun id ↦ !decide (coalesced.id ≤ id)) with hnewerFirst
  have horder : newerFirst.Perm ids := filter_append_perm _ ids
  have hlength : 100 ≤ (ids.filter fun id ↦ coalesced.id ≤ id).length := by
    have hrows : s.rows.filter (fun row ↦ row.id ∉ ([] : List ℕ)) = s.rows := by simp
    rw [hids, OutboxState.visibleIds, filter_map, length_map, hrows]
    exact hmany
  have hempty : deleteIds (newerFirst.take 100) coalesced.id = [] := by
    rw [hnewerFirst, take_append_of_le_length hlength, deleteIds, filter_eq_nil_iff]
    intro id hid
    have hle := (mem_filter.mp (mem_of_mem_take hid)).2
    simpa using hle
  intro hall
  have hclean := hall [newerFirst]
  rw [map_singleton, Machine.runFrom_cons, Machine.runFrom_nil, step_fetchBatch hphase hskip,
    if_pos horder, if_pos hempty] at hclean
  have hkept : older ∈ s.rows.filter fun row ↦ row.id ∉ coalesced.id :: ([] : List ℕ) :=
    mem_filter.mpr ⟨holder, by simpa using hlt.ne⟩
  exact (hclean rfl older hkept hkey).not_gt hlt

theorem alwaysCleansUp_iff :
    AlwaysCleansUp options s coalesced ↔
      (∀ row ∈ s.rows, row.key = coalesced.key → coalesced.id ≤ row.id) ∨
        (rowsFrom s coalesced).length < 100 := by
  refine ⟨fun hall ↦ ?_, alwaysCleansUp hphase hskip⟩
  by_contra! hnot
  obtain ⟨⟨older, holder, hkey, hlt⟩, hmany⟩ := hnot
  exact not_alwaysCleansUp hphase hskip holder hkey hlt hmany hall

end

@[simp] theorem visibleIds_setPhase (s : OutboxState ρ π) (phase : DrainPhase ρ π)
    (coalesced : OutboxBase ρ π) (deleted : List ℕ) :
    (s.setPhase phase).visibleIds coalesced deleted = s.visibleIds coalesced deleted := rfl

theorem visibleIds_append (s : OutboxState ρ π) (coalesced : OutboxBase ρ π)
    (deleted batch : List ℕ) :
    s.visibleIds coalesced (deleted ++ batch) =
      (s.visibleIds coalesced deleted).filter fun id ↦ id ∉ batch := by
  simp only [OutboxState.visibleIds, selectCoalescedMessages, filter_map, filter_filter]
  congr 1
  refine filter_congr fun row _ ↦ ?_
  simp only [mem_append, Function.comp, not_or, Bool.decide_and]
  ac_rfl

theorem length_visibleIds_lt (horder : order.Perm (s.visibleIds coalesced deleted))
    (hsome : deleteIds (order.take 100) coalesced.id ≠ []) :
    (s.visibleIds coalesced (deleted ++ deleteIds (order.take 100) coalesced.id)).length <
      (s.visibleIds coalesced deleted).length := by
  obtain ⟨id, hid⟩ := exists_mem_of_ne_nil _ hsome
  have hvisible : id ∈ s.visibleIds coalesced deleted :=
    horder.mem_iff.mp (mem_of_mem_take (mem_of_mem_filter hid))
  rw [visibleIds_append, length_filter_lt_length_iff_exists]
  exact ⟨id, hvisible, by simpa using hid⟩

theorem length_le_of_fetches {deleted : List ℕ}
    (hphase : s.phase = .cleaning drain coalesced deleted)
    (hskip : shouldSkipShard options coalesced.key.shard = false) (orders : List (List ℕ))
    (hreturns : (outbox ρ π options).EveryStep FetchReturns s (orders.map .fetchBatch)) :
    orders.length ≤ (s.visibleIds coalesced deleted).length + 1 := by
  induction orders generalizing s deleted with
  | nil => exact Nat.zero_le _
  | cons order rest ih =>
    rw [map_cons, Machine.everyStep_cons, step_fetchBatch hphase hskip] at hreturns
    obtain ⟨horder, hrest⟩ := hreturns
    simp only [FetchReturns, hphase] at horder
    rw [if_pos horder] at hrest
    by_cases hempty : deleteIds (order.take 100) coalesced.id = []
    · rw [if_pos hempty] at hrest
      -- the drainer has gone on to the next row of the shard
      cases rest with
      | nil => exact Nat.succ_le_succ (Nat.zero_le _)
      | cons next rest => exact absurd hrest.1 id
    · rw [if_neg hempty] at hrest
      have hfewer := length_visibleIds_lt horder hempty
      have hlength := ih (s := s.setPhase _) rfl hrest
      rw [visibleIds_setPhase] at hlength
      rw [length_cons]
      omega

/-! ### Runs -/

/-- The condition on a step: a writer commits a row while a signal for its group is being sent, or
a row newer than every row of its group whose signal was started. -/
def AddsNewer (s : OutboxState ρ π) : OutboxEvent ρ π → Prop
  | .commit id => ∀ row ∈ s.uncommitted, row.id = id →
      (∃ coalesced ∈ s.phase.beingSent, coalesced.key = row.key) ∨
        ∀ started ∈ rowsOf .signalStarted s.trace, started.key = row.key → started.id < row.id
  | _ => True

instance decidableAddsNewer (s : OutboxState ρ π) :
    (event : OutboxEvent ρ π) → Decidable (AddsNewer s event)
  | .commit id => inferInstanceAs (Decidable (∀ row ∈ s.uncommitted, row.id = id →
      (∃ coalesced ∈ s.phase.beingSent, coalesced.key = row.key) ∨
        ∀ started ∈ rowsOf .signalStarted s.trace, started.key = row.key → started.id < row.id))
  | .insert _ _ | .rollback _ | .drainShard _ _ | .processShard | .lockNotAvailable
  | .processCoalesced | .sendSignal | .signalReturned | .signalRaised | .fetchBatch _
  | .operationalError => isTrue trivial

def Surpasses (rel : ℕ → ℕ → Prop) (rows earlier : List (OutboxBase ρ π)) : Prop :=
  ∀ past ∈ earlier, ∀ row ∈ rows, row.key = past.key →
    ∃ newest ∈ rows, newest.key = past.key ∧ rel past.id newest.id

/-- Signals were started for rows that never get older, and processed for rows that get newer. The
visible rows of a group reach up to those started, and beyond those processed, and so does the
selected row. -/
structure OrderInvariant (s : OutboxState ρ π) : Prop where
  wellFormed : WellFormed s
  started : (rowsOf .signalStarted s.trace).Pairwise fun past row ↦
    past.key = row.key → past.id ≤ row.id
  processed : (rowsOf .processed s.trace).Pairwise fun past row ↦
    past.key = row.key → past.id < row.id
  processed_started : rowsOf .processed s.trace ⊆ rowsOf .signalStarted s.trace
  signalled_started : ∀ coalesced ∈ s.phase.signalled, coalesced ∈ rowsOf .signalStarted s.trace
  started_le : Surpasses (· ≤ ·) s.rows (rowsOf .signalStarted s.trace)
  processed_lt : Surpasses (· < ·) s.rows (rowsOf .processed s.trace)
  started_le_coalesced : ∀ coalesced ∈ s.phase.coalesced,
    ∀ past ∈ rowsOf .signalStarted s.trace, past.key = coalesced.key → past.id ≤ coalesced.id
  processed_lt_coalesced : ∀ coalesced ∈ s.phase.coalesced,
    ∀ past ∈ rowsOf .processed s.trace, past.key = coalesced.key → past.id < coalesced.id

variable {rel : ℕ → ℕ → Prop}

omit [DecidableEq ρ] in
theorem Surpasses.append_row {rows earlier : List (OutboxBase ρ π)} (h : Surpasses rel rows earlier)
    (hrow : (∃ visible ∈ rows, visible.key = row.key) ∨
      ∀ past ∈ earlier, past.key = row.key → rel past.id row.id) :
    Surpasses rel (rows ++ [row]) earlier := by
  intro past hpast other hother hkey
  by_cases hvisible : ∃ visible ∈ rows, visible.key = past.key
  · obtain ⟨visible, hmem, hvisibleKey⟩ := hvisible
    obtain ⟨newest, hnewest, hrest⟩ := h past hpast visible hmem hvisibleKey
    exact ⟨newest, mem_append_left _ hnewest, hrest⟩
  · have hother : other = row := by
      rcases mem_append.mp hother with hother | hother
      · exact absurd ⟨other, hother, hkey⟩ hvisible
      · exact mem_singleton.mp hother
    subst hother
    refine ⟨other, mem_append_right _ (mem_singleton_self other), hkey, ?_⟩
    rcases hrow with ⟨visible, hmem, hvisibleKey⟩ | hrow
    · exact absurd ⟨visible, hmem, hvisibleKey.trans hkey⟩ hvisible
    · exact hrow past hpast hkey.symm

omit [DecidableEq ρ] in
/-- Assumes: all rows that go are of the group of `coalesced`, and if a row of that group is kept
then so is one newer than `coalesced`. The earlier rows of the group are related to every row newer
than `coalesced`. -/
theorem Surpasses.filter {rows earlier : List (OutboxBase ρ π)} (h : Surpasses rel rows earlier)
    {removed : List ℕ} (hremoved : ∀ row ∈ rows, row.id ∈ removed → row.key = coalesced.key)
    (hnewer : ∀ row ∈ rows, row.key = coalesced.key → row.id ∉ removed →
      ∃ newer ∈ rows, newer.key = coalesced.key ∧ newer.id ∉ removed ∧ coalesced.id < newer.id)
    (hrel : ∀ past ∈ earlier, past.key = coalesced.key → ∀ id, coalesced.id < id → rel past.id id) :
    Surpasses rel (rows.filter fun row ↦ row.id ∉ removed) earlier := by
  have hmem {row : OutboxBase ρ π} : row ∈ rows.filter (fun row ↦ row.id ∉ removed) ↔
      row ∈ rows ∧ row.id ∉ removed := by simp
  intro past hpast row hrow hkey
  obtain ⟨hrow, hkept⟩ := hmem.mp hrow
  by_cases hgroup : past.key = coalesced.key
  · obtain ⟨newer, hnewerMem, hnewerKey, hnewerKept, hlt⟩ :=
      hnewer row hrow (hkey.trans hgroup) hkept
    exact ⟨newer, hmem.mpr ⟨hnewerMem, hnewerKept⟩, hnewerKey.trans hgroup.symm,
      hrel past hpast hgroup newer.id hlt⟩
  · obtain ⟨newest, hnewest, hnewestKey, hrest⟩ := h past hpast row hrow hkey
    refine ⟨newest, hmem.mpr ⟨hnewest, fun hmemRemoved ↦ hgroup ?_⟩, hnewestKey, hrest⟩
    exact hnewestKey.symm.trans (hremoved newest hnewest hmemRemoved)

omit [DecidableEq ρ] in
theorem rowsOf_commitRow {kind : TraceKind} (hkind : kind ≠ .committed) (s : OutboxState ρ π)
    (row : OutboxBase ρ π) : rowsOf kind (s.commitRow row).trace = rowsOf kind s.trace := by
  have hnone : rowsOf kind [⟨.committed, row⟩] = [] := by simp [rowsOf, hkind.symm]
  rw [OutboxState.commitRow, rowsOf_append, hnone, append_nil]

omit [DecidableEq ρ] in
/-- Assumes: the row is committed while a signal for its group is being sent, or is newer than the
rows of its group whose signals were started. The invariant is kept. -/
theorem orderInvariant_commitRow (h : OrderInvariant s) (hrow : row ∈ s.uncommitted)
    (hnewer : (∃ coalesced ∈ s.phase.beingSent, coalesced.key = row.key) ∨
      ∀ past ∈ rowsOf .signalStarted s.trace, past.key = row.key → past.id < row.id) :
    OrderInvariant (s.commitRow row) := by
  have hstarted : rowsOf .signalStarted (s.commitRow row).trace = rowsOf .signalStarted s.trace :=
    rowsOf_commitRow (by decide) s row
  have hprocessed : rowsOf .processed (s.commitRow row).trace = rowsOf .processed s.trace :=
    rowsOf_commitRow (by decide) s row
  -- the row for which a signal is being sent is visible
  have hsplit : (∃ visible ∈ s.rows, visible.key = row.key) ∨
      ∀ past ∈ rowsOf .signalStarted s.trace, past.key = row.key → past.id < row.id := by
    refine hnewer.imp_left ?_
    rintro ⟨coalesced, hsent, hkey⟩
    have hvisible := h.wellFormed.visible coalesced
      (coalesced_of_signalled (signalled_of_beingSent hsent))
    exact ⟨coalesced, hvisible, hkey⟩
  exact
    { wellFormed := wellFormed_commitRow h.wellFormed hrow
      started := hstarted ▸ h.started
      processed := hprocessed ▸ h.processed
      processed_started := by rw [hstarted, hprocessed]; exact h.processed_started
      signalled_started := by rw [hstarted]; exact h.signalled_started
      started_le := by
        rw [hstarted]
        exact h.started_le.append_row
          (hsplit.imp_right fun hlt past hpast hkey ↦ (hlt past hpast hkey).le)
      processed_lt := by
        rw [hprocessed]
        exact h.processed_lt.append_row
          (hsplit.imp_right fun hlt past hpast ↦ hlt past (h.processed_started hpast))
      started_le_coalesced := by rw [hstarted]; exact h.started_le_coalesced
      processed_lt_coalesced := by rw [hprocessed]; exact h.processed_lt_coalesced }

omit [DecidableEq ρ] in
/-- Assumes: the signal for the signalled row of the new phase was started, and the selected row of
the new phase reaches up to the rows started and beyond those processed. -/
theorem orderInvariant_setPhase (h : OrderInvariant s)
    {phase : DrainPhase ρ π} (hwell : WellFormed (s.setPhase phase))
    (hsignalled : ∀ coalesced ∈ phase.signalled, coalesced ∈ rowsOf .signalStarted s.trace)
    (hcoalesced : ∀ coalesced ∈ phase.coalesced,
      (∀ past ∈ rowsOf .signalStarted s.trace, past.key = coalesced.key → past.id ≤ coalesced.id) ∧
        ∀ past ∈ rowsOf .processed s.trace, past.key = coalesced.key → past.id < coalesced.id) :
    OrderInvariant (s.setPhase phase) where
  wellFormed := hwell
  started := h.started
  processed := h.processed
  processed_started := h.processed_started
  signalled_started := hsignalled
  started_le := h.started_le
  processed_lt := h.processed_lt
  started_le_coalesced coalesced hmem := (hcoalesced coalesced hmem).1
  processed_lt_coalesced coalesced hmem := (hcoalesced coalesced hmem).2

theorem orderInvariant_select (h : OrderInvariant s)
    (hlast : last (selectCoalescedMessages s.rows coalesced.key) = some coalesced)
    (hwell : WellFormed (s.setPhase (.selected drain coalesced))) :
    OrderInvariant (s.setPhase (.selected drain coalesced)) := by
  have hvisible : coalesced ∈ s.rows := (mem_of_last hlast).1
  refine orderInvariant_setPhase h hwell (fun _ hmem ↦ by cases hmem) ?_
  rintro _ ⟨⟩
  constructor
  · intro past hpast hkey
    obtain ⟨newest, hnewest, hnewestKey, hle⟩ :=
      h.started_le past hpast coalesced hvisible hkey.symm
    exact hle.trans (id_le_of_last hlast hnewest (hnewestKey.trans hkey))
  · intro past hpast hkey
    obtain ⟨newest, hnewest, hnewestKey, hlt⟩ :=
      h.processed_lt past hpast coalesced hvisible hkey.symm
    exact hlt.trans_le (id_le_of_last hlast hnewest (hnewestKey.trans hkey))

omit [DecidableEq ρ] in
theorem orderInvariant_start (h : OrderInvariant s) (hphase : s.phase = .selected drain coalesced)
    (hwell : WellFormed { s with
      phase := .sending drain coalesced, trace := s.trace ++ [⟨.signalStarted, coalesced⟩] }) :
    OrderInvariant { s with
      phase := .sending drain coalesced, trace := s.trace ++ [⟨.signalStarted, coalesced⟩] } := by
  have hselected : coalesced ∈ s.phase.coalesced := by rw [hphase]; rfl
  have hstarted : rowsOf .signalStarted (s.trace ++ [⟨.signalStarted, coalesced⟩]) =
      rowsOf .signalStarted s.trace ++ [coalesced] := rowsOf_append _ _ _
  have hprocessed : rowsOf .processed (s.trace ++ [⟨.signalStarted, coalesced⟩]) =
      rowsOf .processed s.trace := (rowsOf_append _ _ _).trans (append_nil _)
  have hle := h.started_le_coalesced coalesced hselected
  refine
    { wellFormed := hwell
      started := ?_
      processed := hprocessed ▸ h.processed
      processed_started := by
        rw [hstarted, hprocessed]
        exact subset_append_of_subset_left _ h.processed_started
      signalled_started := ?_
      started_le := ?_
      processed_lt := by rw [hprocessed]; exact h.processed_lt
      started_le_coalesced := ?_
      processed_lt_coalesced := ?_ }
  · rw [hstarted]
    refine pairwise_append.mpr ⟨h.started, pairwise_singleton _ _, ?_⟩
    intro past hpast other hother hkey
    rw [mem_singleton.mp hother] at hkey ⊢
    exact hle past hpast hkey
  · rw [hstarted]
    rintro _ ⟨⟩
    exact mem_append_right _ (mem_singleton_self coalesced)
  · rw [hstarted]
    intro past hpast row hrow hkey
    rcases mem_append.mp hpast with hpast | hpast
    · exact h.started_le past hpast row hrow hkey
    · rw [mem_singleton.mp hpast]
      exact ⟨coalesced, h.wellFormed.visible coalesced hselected, rfl, le_rfl⟩
  · rw [hstarted]
    rintro _ ⟨⟩ past hpast hkey
    rcases mem_append.mp hpast with hpast | hpast
    · exact hle past hpast hkey
    · rw [mem_singleton.mp hpast]
  · rw [hprocessed]
    rintro _ ⟨⟩
    exact h.processed_lt_coalesced coalesced hselected

omit [DecidableEq ρ] in
theorem rowsOf_commitDeletes {kind : TraceKind} (hkind : kind ≠ .deleted) (s : OutboxState ρ π)
    (removed : List ℕ) (phase : DrainPhase ρ π) (completed : List (TraceEvent ρ π)) :
    rowsOf kind (s.commitDeletes removed phase completed).trace =
      rowsOf kind s.trace ++ rowsOf kind completed := by
  have hnone (rows : List (OutboxBase ρ π)) : rowsOf kind (rows.map (⟨.deleted, ·⟩)) = [] := by
    simp [rowsOf, filter_eq_nil_iff, hkind.symm]
  rw [OutboxState.commitDeletes, rowsOf_append, rowsOf_append, hnone, append_nil]

theorem orderInvariant_complete (h : OrderInvariant s)
    (hphase : s.phase = .cleaning drain coalesced deleted)
    (horder : order.Perm (s.visibleIds coalesced deleted))
    (hempty : deleteIds (order.take 100) coalesced.id = []) :
    OrderInvariant (s.commitDeletes (coalesced.id :: deleted) (.looping drain)
      [⟨.processed, coalesced⟩]) := by
  have hselected : coalesced ∈ s.phase.coalesced := by rw [hphase]; rfl
  have hvisible : coalesced ∈ s.rows := h.wellFormed.visible coalesced hselected
  have hle := h.started_le_coalesced coalesced hselected
  have hlt := h.processed_lt_coalesced coalesced hselected
  set t := s.commitDeletes (coalesced.id :: deleted) (.looping drain) [⟨.processed, coalesced⟩]
  have hstarted : rowsOf .signalStarted t.trace = rowsOf .signalStarted s.trace :=
    (rowsOf_commitDeletes (by decide) s _ _ _).trans (append_nil _)
  have hprocessed : rowsOf .processed t.trace = rowsOf .processed s.trace ++ [coalesced] :=
    rowsOf_commitDeletes (by decide) s _ _ _
  have hremoved : ∀ row ∈ s.rows, row.id ∈ coalesced.id :: deleted → row.key = coalesced.key := by
    intro row hrow hid
    rcases mem_cons.mp hid with hid | hid
    · rw [h.wellFormed.eq_of_id hrow hvisible hid]
    · obtain ⟨-, other, hother, hotherId, hkey⟩ :=
        h.wellFormed.deleted coalesced hselected row.id (by rw [hphase]; exact hid)
      rw [h.wellFormed.eq_of_id hrow hother hotherId.symm, hkey]
  have hnewer : ∀ row ∈ s.rows, row.key = coalesced.key → row.id ∉ coalesced.id :: deleted →
      ∃ newer ∈ s.rows, newer.key = coalesced.key ∧ newer.id ∉ coalesced.id :: deleted ∧
        coalesced.id < newer.id :=
    fun row hrow ↦ exists_newer_of_complete h.wellFormed horder hempty hrow
  refine
    { wellFormed := wellFormed_commitDeletes h.wellFormed _ rfl _
      started := hstarted ▸ h.started
      processed := ?_
      processed_started := ?_
      signalled_started := fun _ hmem ↦ by cases hmem
      started_le := ?_
      processed_lt := ?_
      started_le_coalesced := fun _ hmem ↦ by cases hmem
      processed_lt_coalesced := fun _ hmem ↦ by cases hmem }
  · rw [hprocessed]
    refine pairwise_append.mpr ⟨h.processed, pairwise_singleton _ _, ?_⟩
    intro past hpast other hother hkey
    rw [mem_singleton.mp hother] at hkey ⊢
    exact hlt past hpast hkey
  · rw [hprocessed, hstarted]
    refine append_subset.mpr ⟨h.processed_started, ?_⟩
    exact cons_subset.mpr
      ⟨h.signalled_started coalesced (by rw [hphase]; rfl), nil_subset _⟩
  · rw [hstarted]
    exact h.started_le.filter hremoved hnewer fun past hpast hkey id hid ↦
      (hle past hpast hkey).trans hid.le
  · rw [hprocessed]
    have hpast := h.processed_lt.filter hremoved hnewer fun past hpast hkey id hid ↦
      (hlt past hpast hkey).trans hid
    intro past hmem row hrow hkey
    rcases mem_append.mp hmem with hmem | hmem
    · exact hpast past hmem row hrow hkey
    · rw [mem_singleton.mp hmem] at hkey ⊢
      obtain ⟨hrow, hkept⟩ := mem_filter.mp hrow
      obtain ⟨newer, hnewerMem, hnewerKey, hnewerKept, hnewerLt⟩ :=
        hnewer row hrow hkey (by simpa using hkept)
      exact ⟨newer, mem_filter.mpr ⟨hnewerMem, by simpa using hnewerKept⟩, hnewerKey, hnewerLt⟩

/-- Assumes: no shard is skipped. A step that adds newer rows keeps the invariant. -/
theorem orderInvariant_effect (hskip : ∀ shard : ShardKey ρ, shouldSkipShard options shard = false)
    {s t : OutboxState ρ π} {event : OutboxEvent ρ π} (h : OrderInvariant s)
    (hadds : AddsNewer s event) (heffect : Effect options s event t) : OrderInvariant t := by
  have hwell : WellFormed t := wellFormed_effect h.wellFormed heffect
  cases heffect with
  | none => exact h
  | insert | rollback =>
    exact ⟨hwell, h.started, h.processed, h.processed_started, h.signalled_started, h.started_le,
      h.processed_lt, h.started_le_coalesced, h.processed_lt_coalesced⟩
  | commit row hrow => exact orderInvariant_commitRow h hrow (hadds row hrow rfl)
  | move _ phase hphase =>
    refine orderInvariant_setPhase h hwell (fun coalesced hmem ↦ ?_) (fun coalesced hmem ↦ ?_)
    · exact absurd (hphase ▸ coalesced_of_signalled hmem) (Option.not_mem_none coalesced)
    · rw [hphase] at hmem
      cases hmem
  | select drain coalesced hlast => exact orderInvariant_select h hlast hwell
  | skip drain coalesced hlast hskipped => simp [hskip] at hskipped
  | start drain coalesced hphase => exact orderInvariant_start h hphase hwell
  | «return» drain coalesced hphase =>
    have hselected : coalesced ∈ s.phase.coalesced := by rw [hphase]; rfl
    refine orderInvariant_setPhase h hwell ?_ ?_ <;> rintro _ ⟨⟩
    · exact h.signalled_started coalesced (by rw [hphase]; rfl)
    · exact ⟨h.started_le_coalesced coalesced hselected,
        h.processed_lt_coalesced coalesced hselected⟩
  | deleteBatch drain coalesced deleted order hphase horder =>
    have hselected : coalesced ∈ s.phase.coalesced := by rw [hphase]; rfl
    refine orderInvariant_setPhase h hwell ?_ ?_ <;> rintro _ ⟨⟩
    · exact h.signalled_started coalesced (by rw [hphase]; rfl)
    · exact ⟨h.started_le_coalesced coalesced hselected,
        h.processed_lt_coalesced coalesced hselected⟩
  | complete drain coalesced deleted order hphase horder hempty _ =>
    exact orderInvariant_complete h hphase horder hempty
  | completeSkipped drain coalesced deleted order hphase hskipped => simp [hskip] at hskipped

/-- Assumes: no shard is skipped, and the writers add newer rows. -/
theorem orderInvariant_run (hskip : ∀ shard : ShardKey ρ, shouldSkipShard options shard = false)
    {events : List (OutboxEvent ρ π)}
    (hevents : (outbox ρ π options).EveryStep AddsNewer (outbox ρ π options).init events) :
    OrderInvariant ((outbox ρ π options).run events) := by
  refine (outbox ρ π options).run_invariant_of_everyStep ?_ (fun s event h hadds ↦ ?_) hevents
  · exact
      { wellFormed := wellFormed_run options []
        started := List.Pairwise.nil
        processed := List.Pairwise.nil
        processed_started := nil_subset _
        signalled_started := by simp [outbox, DrainPhase.signalled]
        started_le := by simp [outbox, Surpasses]
        processed_lt := by simp [outbox, Surpasses]
        started_le_coalesced := by simp [outbox, DrainPhase.coalesced]
        processed_lt_coalesced := by simp [outbox, DrainPhase.coalesced] }
  · exact orderInvariant_effect hskip h hadds (effect_step options s event)

/-- The ids of the rows of one group. -/
def idsOf (key : CoalescedKey ρ) (rows : List (OutboxBase ρ π)) : List ℕ :=
  (selectCoalescedMessages rows key).map (·.id)

theorem pairwise_idsOf {rows : List (OutboxBase ρ π)}
    (h : rows.Pairwise fun past row ↦ past.key = row.key → rel past.id row.id)
    (key : CoalescedKey ρ) : (idsOf key rows).Pairwise rel := by
  refine pairwise_map.mpr (List.Pairwise.imp_of_mem ?_ (h.filter _))
  intro past row hpast hrow hrel
  exact hrel ((mem_selectCoalescedMessages.mp hpast).2.trans
    (mem_selectCoalescedMessages.mp hrow).2.symm)

/-- Assumes: no shard is skipped. When the writers of a run add newer rows, the ids processed for a
group are strictly increasing, and no signal is for an older row than one before it. Once the signal
for a row has returned, the loop ends, and whatever its batches are no row of the group up to that
row remains, if and only if nothing is older than it or there are fewer than 100 rows from it on. -/
theorem processed_increasing_and_alwaysCleansUp_iff (options : Options)
    (hskip : ∀ shard : ShardKey ρ, shouldSkipShard options shard = false)
    (events : List (OutboxEvent ρ π)) :
    ((outbox ρ π options).EveryStep AddsNewer (outbox ρ π options).init events →
      ∀ key : CoalescedKey ρ,
        (idsOf key (rowsOf .processed ((outbox ρ π options).run events).trace)).Pairwise (· < ·) ∧
        (idsOf key (rowsOf .signalStarted ((outbox ρ π options).run events).trace)).Pairwise
          (· ≤ ·)) ∧
    ∀ (drain : Drain ρ π) (coalesced : OutboxBase ρ π),
      ((outbox ρ π options).run events).phase = .cleaning drain coalesced [] →
        (∀ orders : List (List ℕ), (outbox ρ π options).EveryStep FetchReturns
            ((outbox ρ π options).run events) (orders.map .fetchBatch) →
          orders.length ≤ (((outbox ρ π options).run events).visibleIds coalesced []).length + 1) ∧
        (AlwaysCleansUp options ((outbox ρ π options).run events) coalesced ↔
          (∀ row ∈ ((outbox ρ π options).run events).rows,
            row.key = coalesced.key → coalesced.id ≤ row.id) ∨
          (rowsFrom ((outbox ρ π options).run events) coalesced).length < 100) := by
  refine ⟨fun hevents key ↦ ?_, fun drain coalesced hphase ↦ ⟨fun orders hreturns ↦ ?_, ?_⟩⟩
  · have h := orderInvariant_run hskip hevents
    exact ⟨pairwise_idsOf h.processed key, pairwise_idsOf h.started key⟩
  · exact length_le_of_fetches hphase (hskip _) orders hreturns
  · exact alwaysCleansUp_iff hphase (hskip _)

def twoRowsRun : List (OutboxEvent Unit Unit) :=
  [.insert memberKey (), .insert memberKey (), .commit 1, .commit 2,
    .drainShard memberKey.shard true, .processShard, .processCoalesced, .sendSignal]

/-- The state after its signal has returned. -/
def twoRowsSignalled : OutboxState Unit Unit :=
  (outbox Unit Unit noneDisabled).run (twoRowsRun ++ [.signalReturned])

theorem twoRows_alwaysCleansUp :
    (idsOf memberKey (rowsOf .signalStarted twoRowsSignalled.trace)).Pairwise (· ≤ ·) ∧
      AlwaysCleansUp noneDisabled twoRowsSignalled ⟨2, memberKey, ()⟩ := by
  obtain ⟨hordered, hcleans⟩ := processed_increasing_and_alwaysCleansUp_iff noneDisabled
    shouldSkipShard_noneDisabled (twoRowsRun ++ [.signalReturned])
  have hadds : (outbox Unit Unit noneDisabled).EveryStep AddsNewer
      (outbox Unit Unit noneDisabled).init (twoRowsRun ++ [.signalReturned]) := by decide
  have hphase : twoRowsSignalled.phase =
      .cleaning ⟨memberKey.shard, none⟩ ⟨2, memberKey, ()⟩ [] := by decide
  have hfew : (rowsFrom twoRowsSignalled ⟨2, memberKey, ()⟩).length < 100 := by decide
  exact ⟨(hordered hadds memberKey).2, (hcleans _ _ hphase).2.mpr (.inr hfew)⟩

/-- While the signal is sent, a hundred rows are added, and the query returns them first. -/
def fullBatchRun : List (OutboxEvent Unit Unit) :=
  twoRowsRun ++ (List.range' 3 100).flatMap (fun id ↦ [.insert memberKey (), .commit id]) ++
    [.signalReturned, .fetchBatch (List.range' 3 100 ++ [1, 2])]

/-- Row 2 has been processed, and row 1 remains. -/
theorem fullBatch_run :
    2 ∈ idsOf memberKey
        (rowsOf .processed ((outbox Unit Unit noneDisabled).run fullBatchRun).trace) ∧
      1 ∈ idsOf memberKey ((outbox Unit Unit noneDisabled).run fullBatchRun).rows := by
  decide +kernel

end Sentry.HybridCloud
