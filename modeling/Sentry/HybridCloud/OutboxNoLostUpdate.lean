import Sentry.HybridCloud.Outbox

/-!
# No update of an outbox group is lost

A row that became visible may be deleted only after a signal for its group that started after that
(`NoLostUpdate`). A process that signals the row `c` deletes smaller ids that it finds after the
signal. All of them were visible when the signal started, unless a writer commits a smaller id
meanwhile. A run in which no writer does that loses no update (`noLostUpdate_run`); otherwise one
can be lost (`lateCommit_run`).
-/

namespace Sentry.HybridCloud

open Library List

variable {ρ π : Type*}

def DeletedAfterSignal (s : OutboxState ρ π) (row : OutboxBase ρ π) : Prop :=
  ∃ coalesced ∈ rowsOf .signalStarted s.trace, coalesced.key = row.key ∧
    [⟨.committed, row⟩, ⟨.signalStarted, coalesced⟩, ⟨.deleted, row⟩].Sublist s.trace

/-- Every committed row is still present, or has been deleted after a signal for its group that
started after the row became visible. -/
def NoLostUpdate (s : OutboxState ρ π) : Prop :=
  ∀ row ∈ rowsOf .committed s.trace, row ∈ s.rows ∨ DeletedAfterSignal s row

/-- The condition on a step: while a signal is sent and its group cleaned up, no writer commits a
row of the group with a smaller id. -/
def CommitsNewer (s : OutboxState ρ π) : OutboxEvent ρ π → Prop
  | .commit id => ∀ coalesced ∈ s.phase.signalled, ∀ row ∈ s.uncommitted, row.id = id →
      row.key = coalesced.key → coalesced.id < row.id
  | _ => True

instance [DecidableEq ρ] [DecidableEq π] (s : OutboxState ρ π) (row : OutboxBase ρ π) :
    Decidable (DeletedAfterSignal s row) :=
  inferInstanceAs (Decidable (∃ _ ∈ _, _ ∧ _))

instance [DecidableEq ρ] [DecidableEq π] (s : OutboxState ρ π) : Decidable (NoLostUpdate s) :=
  inferInstanceAs (Decidable (∀ _ ∈ _, _ ∨ _))

instance decidableCommitsNewer [DecidableEq ρ] (s : OutboxState ρ π) :
    (event : OutboxEvent ρ π) → Decidable (CommitsNewer s event)
  | .commit id => inferInstanceAs (Decidable (∀ coalesced ∈ s.phase.signalled,
      ∀ row ∈ s.uncommitted, row.id = id → row.key = coalesced.key → coalesced.id < row.id))
  | .insert _ _ | .rollback _ | .drainShard _ _ | .processShard | .lockNotAvailable
  | .processCoalesced | .sendSignal | .signalReturned | .signalRaised | .fetchBatch _
  | .operationalError => isTrue trivial

/-- No update is lost so far, every visible row was committed, and the rows that the open
transaction may delete were all visible when its signal started. -/
structure SignalInvariant (s : OutboxState ρ π) : Prop where
  wellFormed : WellFormed s
  noLostUpdate : NoLostUpdate s
  committed : ∀ row ∈ s.rows, ⟨.committed, row⟩ ∈ s.trace
  signalled : ∀ coalesced ∈ s.phase.signalled, ∀ row ∈ s.rows, row.key = coalesced.key →
    row.id ≤ coalesced.id → [⟨.committed, row⟩, ⟨.signalStarted, coalesced⟩].Sublist s.trace

theorem DeletedAfterSignal.append {s t : OutboxState ρ π} {row : OutboxBase ρ π}
    (h : DeletedAfterSignal s row) {events : List (TraceEvent ρ π)}
    (htrace : t.trace = s.trace ++ events) : DeletedAfterSignal t row := by
  obtain ⟨coalesced, hcoalesced, hkey, hsublist⟩ := h
  refine ⟨coalesced, ?_, hkey, ?_⟩
  · rw [mem_rowsOf] at hcoalesced ⊢
    exact htrace ▸ mem_append_left _ hcoalesced
  · exact htrace ▸ hsublist.trans (sublist_append_left _ _)

/-- Assumes: the trace grows by events that commit no row, and every visible row that goes is
deleted after a signal. Then no update is lost. -/
theorem NoLostUpdate.append {s t : OutboxState ρ π} (h : NoLostUpdate s)
    {events : List (TraceEvent ρ π)} (htrace : t.trace = s.trace ++ events)
    (hevents : ∀ row, ⟨.committed, row⟩ ∉ events)
    (hrows : ∀ row ∈ s.rows, row ∈ t.rows ∨ DeletedAfterSignal t row) : NoLostUpdate t := by
  intro row hrow
  rw [mem_rowsOf, htrace, mem_append] at hrow
  rcases h row (mem_rowsOf.mpr (hrow.resolve_right (hevents row))) with hvisible | hdeleted
  · exact hrows row hvisible
  · exact .inr (hdeleted.append htrace)

variable {s : OutboxState ρ π}

/-- Assumes: a writer commits a row that is newer than the signalled one when it is of the same
group. The invariant is kept. -/
theorem signalInvariant_commitRow (h : SignalInvariant s)
    {row : OutboxBase ρ π} (hrow : row ∈ s.uncommitted)
    (hnewer : ∀ coalesced ∈ s.phase.signalled, row.key = coalesced.key → coalesced.id < row.id) :
    SignalInvariant (s.commitRow row) where
  wellFormed := wellFormed_commitRow h.wellFormed hrow
  noLostUpdate other hother := by
    have htrace : (s.commitRow row).trace = s.trace ++ [⟨.committed, row⟩] := rfl
    rw [mem_rowsOf, htrace, mem_append, mem_singleton] at hother
    rcases hother with hother | hother
    · rcases h.noLostUpdate other (mem_rowsOf.mpr hother) with hvisible | hdeleted
      · exact .inl (mem_append_left _ hvisible)
      · exact .inr (hdeleted.append htrace)
    · cases hother
      exact .inl (mem_append_right _ (mem_singleton_self row))
  committed other hother := by
    rcases mem_append.mp hother with hother | hother
    · exact mem_append_left _ (h.committed other hother)
    · rw [mem_singleton.mp hother]
      exact mem_append_right _ (mem_singleton_self _)
  signalled coalesced hcoalesced other hother hkey hle := by
    rcases mem_append.mp hother with hother | hother
    · exact (h.signalled coalesced hcoalesced other hother hkey hle).trans
        (sublist_append_left _ _)
    · rw [mem_singleton.mp hother] at hkey hle
      exact absurd (hnewer coalesced hcoalesced hkey) (Nat.not_lt.mpr hle)

theorem signalInvariant_setPhase (h : SignalInvariant s)
    {phase : DrainPhase ρ π} (hwell : WellFormed (s.setPhase phase))
    (hphase : phase.signalled = none ∨ phase.signalled = s.phase.signalled) :
    SignalInvariant (s.setPhase phase) where
  wellFormed := hwell
  noLostUpdate := h.noLostUpdate
  committed := h.committed
  signalled coalesced hcoalesced := by
    rcases hphase with hphase | hphase
    · exact absurd (hphase ▸ hcoalesced : coalesced ∈ (none : Option _)) (by simp)
    · exact h.signalled coalesced (hphase ▸ hcoalesced)

theorem signalInvariant_start (h : SignalInvariant s) {drain : Drain ρ π}
    {coalesced : OutboxBase ρ π}
    (hwell : WellFormed { s with
      phase := .sending drain coalesced, trace := s.trace ++ [⟨.signalStarted, coalesced⟩] }) :
    SignalInvariant { s with
      phase := .sending drain coalesced, trace := s.trace ++ [⟨.signalStarted, coalesced⟩] } where
  wellFormed := hwell
  noLostUpdate := h.noLostUpdate.append rfl (by simp) fun row hrow ↦ .inl hrow
  committed row hrow := mem_append_left _ (h.committed row hrow)
  signalled := by
    rintro _ ⟨⟩ row hrow - -
    exact (singleton_sublist.mpr (h.committed row hrow)).append (List.Sublist.refl _)

theorem signalInvariant_complete (h : SignalInvariant s)
    {drain : Drain ρ π} {coalesced : OutboxBase ρ π} {deleted : List ℕ}
    (hphase : s.phase = .cleaning drain coalesced deleted) :
    SignalInvariant
      (s.commitDeletes (coalesced.id :: deleted) (.looping drain) [⟨.processed, coalesced⟩]) where
  wellFormed := wellFormed_commitDeletes h.wellFormed _ rfl _
  noLostUpdate := by
    refine h.noLostUpdate.append (append_assoc _ _ _) (by simp) fun row hrow ↦ ?_
    by_cases hremoved : row.id ∈ coalesced.id :: deleted
    · right
      have hcoalesced : coalesced ∈ s.rows :=
        h.wellFormed.visible coalesced (by rw [hphase]; rfl)
      have hgroup : row.key = coalesced.key ∧ row.id ≤ coalesced.id := by
        rcases mem_cons.mp hremoved with hid | hid
        · rw [h.wellFormed.eq_of_id hrow hcoalesced hid]
          exact ⟨rfl, le_rfl⟩
        · obtain ⟨hlt, other, hother, hotherId, hkey⟩ := h.wellFormed.deleted coalesced
            (by rw [hphase]; rfl) row.id (by rw [hphase]; exact hid)
          rw [h.wellFormed.eq_of_id hrow hother hotherId.symm] at hlt ⊢
          exact ⟨hkey, hlt.le⟩
      have hsignal : [⟨.committed, row⟩, ⟨.signalStarted, coalesced⟩].Sublist s.trace :=
        h.signalled coalesced (by rw [hphase]; rfl) row hrow hgroup.1 hgroup.2
      refine ⟨coalesced, ?_, hgroup.1.symm, ?_⟩
      · refine mem_rowsOf.mpr (mem_append_left _ (mem_append_left _ ?_))
        exact hsignal.subset (by simp)
      · refine (hsignal.append (singleton_sublist.mpr ?_)).trans
          (sublist_append_left _ _)
        exact mem_map_of_mem (mem_filter.mpr ⟨hrow, by simpa using hremoved⟩)
    · exact .inl (mem_filter.mpr ⟨hrow, by simpa using hremoved⟩)
  committed row hrow :=
    mem_append_left _ (mem_append_left _ (h.committed row (mem_of_mem_filter hrow)))
  signalled coalesced hcoalesced := by cases hcoalesced

section

variable [DecidableEq ρ]

/-- Assumes: no shard is skipped. A step that commits no older row keeps the invariant. -/
theorem signalInvariant_effect {options : Options}
    (hskip : ∀ shard : ShardKey ρ, shouldSkipShard options shard = false) {s t : OutboxState ρ π}
    {event : OutboxEvent ρ π} (h : SignalInvariant s) (hnewer : CommitsNewer s event)
    (heffect : Effect options s event t) : SignalInvariant t := by
  have hwell : WellFormed t := wellFormed_effect h.wellFormed heffect
  cases heffect with
  | none => exact h
  | insert | rollback => exact ⟨hwell, h.noLostUpdate, h.committed, h.signalled⟩
  | commit row hrow =>
    exact signalInvariant_commitRow h hrow fun coalesced hcoalesced ↦
      hnewer coalesced hcoalesced row hrow rfl
  | move _ phase hphase =>
    refine signalInvariant_setPhase h hwell (.inl (Option.eq_none_iff_forall_not_mem.mpr ?_))
    exact fun coalesced hmem ↦ Option.not_mem_none coalesced (hphase ▸ coalesced_of_signalled hmem)
  | select drain coalesced hlast => exact signalInvariant_setPhase h hwell (.inl rfl)
  | skip drain coalesced hlast hskipped => simp [hskip] at hskipped
  | start drain coalesced hphase => exact signalInvariant_start h hwell
  | «return» drain coalesced hphase =>
    exact signalInvariant_setPhase h hwell (.inr (by rw [hphase]; rfl))
  | deleteBatch drain coalesced deleted order hphase horder =>
    exact signalInvariant_setPhase h hwell (.inr (by rw [hphase]; rfl))
  | complete drain coalesced deleted order hphase horder hempty _ =>
    exact signalInvariant_complete h hphase
  | completeSkipped drain coalesced deleted order hphase hskipped => simp [hskip] at hskipped

/-- Assumes: no shard is skipped. A run in which no writer commits a row of a group with an id
smaller than the row whose signal is being sent, or whose group is being cleaned up, loses no
update. -/
theorem noLostUpdate_run (options : Options)
    (hskip : ∀ shard : ShardKey ρ, shouldSkipShard options shard = false)
    (events : List (OutboxEvent ρ π))
    (hevents : (outbox ρ π options).EveryStep CommitsNewer (outbox ρ π options).init events) :
    NoLostUpdate ((outbox ρ π options).run events) := by
  suffices h : SignalInvariant ((outbox ρ π options).run events) from h.noLostUpdate
  refine (outbox ρ π options).run_invariant_of_everyStep ?_ (fun s event h hnewer ↦ ?_) hevents
  · exact ⟨wellFormed_run options [], by simp [NoLostUpdate, outbox, rowsOf],
      by simp [outbox], by simp [outbox, DrainPhase.signalled]⟩
  · exact signalInvariant_effect hskip h hnewer (effect_step options s event)

end

/-- Two rows of one group. The newer one commits first, and a drainer signals it; the older one
commits before the signal starts. -/
def earlyCommitRun : List (OutboxEvent Unit Unit) :=
  [.insert memberKey (), .insert memberKey (), .commit 2, .drainShard memberKey.shard true,
    .processShard, .processCoalesced, .commit 1, .sendSignal, .signalReturned, .fetchBatch [2, 1],
    .fetchBatch [2]]

theorem earlyCommit_noLostUpdate :
    NoLostUpdate ((outbox Unit Unit noneDisabled).run earlyCommitRun) :=
  noLostUpdate_run noneDisabled shouldSkipShard_noneDisabled earlyCommitRun (by decide)

/-- The same two rows, and the older one commits while the signal of the newer one is sent. -/
def lateCommitRun : List (OutboxEvent Unit Unit) :=
  [.insert memberKey (), .insert memberKey (), .commit 2, .drainShard memberKey.shard true,
    .processShard, .processCoalesced, .sendSignal, .commit 1, .signalReturned, .fetchBatch [2, 1],
    .fetchBatch [2]]

/-- The older row is deleted, and no signal has started since it became visible. -/
theorem lateCommit_run : ((outbox Unit Unit noneDisabled).run lateCommitRun).rows = [] ∧
      ¬ NoLostUpdate ((outbox Unit Unit noneDisabled).run lateCommitRun) := by
  decide

end Sentry.HybridCloud
