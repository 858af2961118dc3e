import Sentry.Digests.Store
import Sentry.Library.Machine

/-!
# The schedule of the digests

No timeline is both waiting and ready, and a timeline that has a record is in the schedule
(`Scheduled`). A record enters only by `ADD`, which schedules its timeline, and a timeline leaves
the schedule only when its sets are empty; so every command keeps this (`scheduled_execute`).
-/

namespace Sentry.Digests

open Library Function

variable {τ ρ ν : Type*} [LinearOrder τ] [LinearOrder ρ]

def digests (τ ρ ν : Type*) [LinearOrder τ] [LinearOrder ρ] :
    Machine (Store τ ρ ν) (Command τ ρ ν) where
  init := Store.empty
  step := Store.execute

/-- No timeline is both waiting and ready, and one that has a record is one of the two. -/
structure Scheduled (s : Store τ ρ ν) : Prop where
  disjoint : ∀ timelineId, timelineId ∈ s.waiting → timelineId ∉ s.ready
  scheduled : ∀ timelineId record, record ∈ s.timeline timelineId ∨ record ∈ s.digest timelineId →
    timelineId ∈ s.waiting ∨ timelineId ∈ s.ready

variable {s : Store τ ρ ν}

theorem scheduled_schedule (h : Scheduled s) (deadline : ℚ) :
    Scheduled (s.schedule deadline).1 where
  disjoint timelineId hwaiting hready := by
    obtain ⟨hkept, hwaiting⟩ := (mem_zrangeMoveSlice_source _ _ _ _).mp hwaiting
    rcases (mem_zrangeMoveSlice_destination _ _ _ _).mp hready with hmoved | hready
    · exact hkept hmoved
    · exact h.disjoint timelineId hwaiting hready
  scheduled timelineId record hrecord := by
    simp only [Store.schedule, mem_zrangeMoveSlice_source, mem_zrangeMoveSlice_destination]
    have hscheduled := h.scheduled timelineId record hrecord
    tauto

theorem scheduled_maintenance (h : Scheduled s) (deadline : ℚ) :
    Scheduled (s.maintenance deadline) where
  disjoint timelineId hwaiting hready := by
    obtain ⟨hkept, hready⟩ := (mem_zrangeMoveSlice_source _ _ _ _).mp hready
    rcases (mem_zrangeMoveSlice_destination _ _ _ _).mp hwaiting with hmoved | hwaiting
    · exact hkept hmoved
    · exact h.disjoint timelineId hwaiting hready
  scheduled timelineId record hrecord := by
    simp only [Store.maintenance, mem_zrangeMoveSlice_source, mem_zrangeMoveSlice_destination]
    have hscheduled := h.scheduled timelineId record hrecord
    tauto

theorem addTimelineToSchedule_records (s : Store τ ρ ν) (timelineId : τ)
    (timestamp increment maximum : ℚ) :
    (s.addTimelineToSchedule timelineId timestamp increment maximum).1.timeline = s.timeline ∧
      (s.addTimelineToSchedule timelineId timestamp increment maximum).1.digest = s.digest ∧
        (s.addTimelineToSchedule timelineId timestamp increment maximum).1.record = s.record := by
  unfold Store.addTimelineToSchedule
  split_ifs
  · exact ⟨rfl, rfl, rfl⟩
  · split <;> exact ⟨rfl, rfl, rfl⟩

/-- Assumes: no timeline is both waiting and ready. That stays so, the timeline is in the schedule,
and the others stay where they are. -/
theorem addTimelineToSchedule_schedule (h : ∀ other, other ∈ s.waiting → other ∉ s.ready)
    (timelineId : τ) (timestamp increment maximum : ℚ) :
    let t := (s.addTimelineToSchedule timelineId timestamp increment maximum).1
    (∀ other, other ∈ t.waiting → other ∉ t.ready) ∧
      ∀ other, (other ∈ t.waiting ∨ other ∈ t.ready) ↔
        other = timelineId ∨ other ∈ s.waiting ∨ other ∈ s.ready := by
  unfold Store.addTimelineToSchedule
  split_ifs with hready
  · refine ⟨h, fun other ↦ ⟨Or.inr, ?_⟩⟩
    rintro (rfl | hother)
    · exact Or.inr hready
    · exact hother
  · split
    · next hscore =>
      have hwaiting : timelineId ∉ s.waiting := (s.waiting.score_eq_none_iff timelineId).mp hscore
      refine ⟨fun other hother hadded ↦ ?_, fun other ↦ ?_⟩
      · rcases (SortedSet.mem_add _ _ _ _).mp hadded with rfl | hadded
        · exact hwaiting hother
        · exact h other hother hadded
      · rw [SortedSet.mem_add]
        tauto
    · next score hscore =>
      refine ⟨fun other hadded ↦ ?_, fun other ↦ ?_⟩
      · rcases (SortedSet.mem_add _ _ _ _).mp hadded with rfl | hother
        · exact hready
        · exact h other hother
      · rw [SortedSet.mem_add]
        tauto

/-- Assumes: both stores have the same schedule, and every record of the second is one of the
first, in one of its two sets. -/
theorem scheduled_of_subset {s t : Store τ ρ ν} (h : Scheduled s) (hwaiting : t.waiting = s.waiting)
    (hready : t.ready = s.ready)
    (hrecords : ∀ timelineId record, record ∈ t.timeline timelineId ∨ record ∈ t.digest timelineId →
      ∃ other, other ∈ s.timeline timelineId ∨ other ∈ s.digest timelineId) : Scheduled t where
  disjoint := by rw [hwaiting, hready]; exact h.disjoint
  scheduled timelineId record hrecord := by
    obtain ⟨other, hother⟩ := hrecords timelineId record hrecord
    rw [hwaiting, hready]
    exact h.scheduled timelineId other hother

theorem mem_truncateTimeline {truncated timelineId : τ} {capacity : ℕ}
    {record : ρ} (h : record ∈ (s.truncateTimeline truncated capacity).timeline timelineId) :
    record ∈ s.timeline timelineId := by
  simp only [Store.truncateTimeline, Store.delRecords, update_apply] at h
  split_ifs at h with hid
  · exact hid ▸ mem_of_mem_zsetTrim h
  · exact h

theorem mem_truncateDigest {truncated timelineId : τ} {capacity : ℕ} {record : ρ}
    (h : record ∈ (s.truncateDigest truncated capacity).digest timelineId) :
    record ∈ s.digest timelineId := by
  simp only [Store.truncateDigest, Store.delRecords, update_apply] at h
  split_ifs at h with hid
  · exact hid ▸ mem_of_mem_zsetTrim h
  · exact h

section

variable (h : Scheduled s)

include h

theorem scheduled_truncateTimeline (timelineId : τ)
    (capacity : ℕ) : Scheduled (s.truncateTimeline timelineId capacity) :=
  scheduled_of_subset h rfl rfl fun _ record hrecord ↦
    ⟨record, hrecord.imp_left mem_truncateTimeline⟩

theorem scheduled_truncateDigest (timelineId : τ)
    (capacity : ℕ) : Scheduled (s.truncateDigest timelineId capacity) :=
  scheduled_of_subset h rfl rfl fun _ record hrecord ↦
    ⟨record, hrecord.imp_right mem_truncateDigest⟩

theorem scheduled_addRecordToTimeline (args : AddArguments τ ρ ν) :
    Scheduled (s.addRecordToTimeline args).1 := by
  set put := s.putRecord args.timelineId args.recordId args.value args.timestamp with hput
  have hscheduled : Scheduled (put.addTimelineToSchedule args.timelineId args.timestamp
      args.delayIncrement args.delayMaximum).1 := by
    obtain ⟨htimeline, hdigest, -⟩ := addTimelineToSchedule_records put args.timelineId
      args.timestamp args.delayIncrement args.delayMaximum
    obtain ⟨hdisjoint, hmem⟩ := addTimelineToSchedule_schedule (s := put) h.disjoint
      args.timelineId args.timestamp args.delayIncrement args.delayMaximum
    refine ⟨hdisjoint, fun timelineId record hrecord ↦ (hmem timelineId).mpr ?_⟩
    rw [htimeline, hdigest] at hrecord
    by_cases hid : timelineId = args.timelineId
    · exact Or.inl hid
    · have hsame : put.timeline timelineId = s.timeline timelineId :=
        update_of_ne hid _ _
      rw [hsame] at hrecord
      exact Or.inr (h.scheduled timelineId record hrecord)
  unfold Store.addRecordToTimeline
  split_ifs
  · exact scheduled_truncateTimeline hscheduled _ _
  · exact hscheduled

theorem scheduled_renameTimeline (timelineId : τ) : Scheduled (s.renameTimeline timelineId) := by
  refine scheduled_of_subset h rfl rfl fun other record hrecord ↦ ⟨record, ?_⟩
  simp only [Store.renameTimeline, update_apply] at hrecord
  split_ifs at hrecord with hid
  · exact Or.inl (hid ▸ hrecord.resolve_left (SortedSet.not_mem_empty record))
  · exact hrecord

theorem scheduled_mergeTimeline (timelineId : τ) : Scheduled (s.mergeTimeline timelineId) := by
  refine scheduled_of_subset h rfl rfl fun other record hrecord ↦ ⟨record, ?_⟩
  simp only [Store.mergeTimeline, update_apply] at hrecord
  split_ifs at hrecord with hid
  · exact hid ▸ (SortedSet.mem_unionMax _ _ _).mp
      (hrecord.resolve_left (SortedSet.not_mem_empty record))
  · exact hrecord

theorem scheduled_snapshot (timelineId : τ)
    (timelineCapacity : ℤ) : Scheduled (s.snapshot timelineId timelineCapacity) := by
  unfold Store.snapshot
  split_ifs
  · exact h
  · exact scheduled_renameTimeline h timelineId
  · exact scheduled_truncateDigest (scheduled_mergeTimeline h timelineId) _ _
  · exact scheduled_mergeTimeline h timelineId

theorem scheduled_closeChunk (timelineId : τ)
    (recordIds : List ρ) : Scheduled (s.closeChunk timelineId recordIds) := by
  refine scheduled_of_subset h rfl rfl fun other record hrecord ↦ ⟨record, ?_⟩
  simp only [Store.closeChunk, Store.delRecords, update_apply] at hrecord
  split_ifs at hrecord with hid
  · subst hid
    exact hrecord.imp_right fun hdigest ↦ ((SortedSet.mem_removeAll _ _ _).mp hdigest).2
  · exact hrecord

theorem scheduled_reschedule (timestamp : ℚ) (timelineId : τ)
    (delayMinimum : ℚ) (recordIds : List ρ) :
    Scheduled (s.reschedule timestamp timelineId delayMinimum recordIds) := by
  unfold Store.reschedule
  split_ifs with hsome
  · refine ⟨fun other hwaiting hready ↦ ?_, fun other record hrecord ↦ ?_⟩
    · obtain ⟨hne, hready⟩ := (SortedSet.mem_remove _ _ _).mp hready
      exact h.disjoint other (((SortedSet.mem_add _ _ _ _).mp hwaiting).resolve_left hne) hready
    · have hscheduled := h.scheduled other record hrecord
      rw [SortedSet.mem_add, SortedSet.mem_remove]
      tauto
  · push Not at hsome
    have htimeline := (s.timeline timelineId).card_eq_zero_iff.mp (Nat.le_zero.mp hsome.2.1)
    have hdigest := (s.digest timelineId).card_eq_zero_iff.mp (Nat.le_zero.mp hsome.2.2)
    refine ⟨fun other hwaiting hready ↦ ?_, fun other record hrecord ↦ ?_⟩
    · exact h.disjoint other ((SortedSet.mem_remove _ _ _).mp hwaiting).2
        ((SortedSet.mem_remove _ _ _).mp hready).2
    · have hne : other ≠ timelineId := by
        rintro rfl
        exact hrecord.elim (htimeline record) (hdigest record)
      have hscheduled := h.scheduled other record hrecord
      rw [SortedSet.mem_remove, SortedSet.mem_remove]
      tauto

theorem scheduled_closeDigest (timestamp : ℚ) (timelineId : τ)
    (delayMinimum : ℚ) (recordIds : List ρ) :
    Scheduled (s.closeDigest timestamp timelineId delayMinimum recordIds) := by
  refine scheduled_reschedule ?_ _ _ _ _
  induction chunked 1000 recordIds generalizing s with
  | nil => exact h
  | cons chunk rest ih => exact ih (scheduled_closeChunk h timelineId chunk)

theorem scheduled_deleteTimeline (timelineId : τ) : Scheduled (s.deleteTimeline timelineId) := by
  have hkept := scheduled_truncateDigest (scheduled_truncateTimeline h timelineId 0) timelineId 0
  refine ⟨fun other hwaiting hready ↦ ?_, fun other record hrecord ↦ ?_⟩
  · exact hkept.disjoint other ((SortedSet.mem_remove _ _ _).mp hwaiting).2
      ((SortedSet.mem_remove _ _ _).mp hready).2
  · have hne : other ≠ timelineId := by
      rintro rfl
      simp only [Store.deleteTimeline, Store.truncateTimeline, Store.truncateDigest,
        Store.delRecords, update_self] at hrecord
      exact hrecord.elim (not_mem_zsetTrim_zero _ record) (not_mem_zsetTrim_zero _ record)
    have hscheduled := hkept.scheduled other record hrecord
    simp only [Store.deleteTimeline, SortedSet.mem_remove]
    tauto

end

theorem scheduled_execute (h : Scheduled s) (command : Command τ ρ ν) :
    Scheduled (s.execute command) := by
  cases command with
  | add args => exact scheduled_addRecordToTimeline h args
  | schedule deadline => exact scheduled_schedule h deadline
  | maintenance deadline => exact scheduled_maintenance h deadline
  | digestOpen timelineId timelineCapacity =>
    simp only [Store.execute, Store.digestTimeline]
    split_ifs
    · exact scheduled_snapshot h timelineId timelineCapacity
    · exact h
  | digestClose timestamp timelineId delayMinimum recordIds =>
    exact scheduled_closeDigest h timestamp timelineId delayMinimum recordIds
  | delete timelineId => exact scheduled_deleteTimeline h timelineId

theorem scheduled_run (commands : List (Command τ ρ ν)) :
    Scheduled ((digests τ ρ ν).run commands) := by
  refine (digests τ ρ ν).run_invariant (I := Scheduled) ?_
    (fun s command h ↦ scheduled_execute h command) commands
  exact ⟨fun timelineId h ↦ absurd h (SortedSet.not_mem_empty timelineId),
    fun timelineId record h ↦ by
      rcases h with h | h <;> exact absurd h (SortedSet.not_mem_empty record)⟩

/-- After any commands, no timeline is both waiting and ready, and one whose timeline set or digest
set is not empty is exactly one of the two. -/
theorem run_in_schedule (commands : List (Command τ ρ ν)) (timelineId : τ) :
    let s := (digests τ ρ ν).run commands
    ¬ (timelineId ∈ s.waiting ∧ timelineId ∈ s.ready) ∧
      (0 < (s.timeline timelineId).card ∨ 0 < (s.digest timelineId).card →
        Xor (timelineId ∈ s.waiting) (timelineId ∈ s.ready)) := by
  intro s
  have h : Scheduled s := scheduled_run commands
  refine ⟨fun ⟨hwaiting, hready⟩ ↦ h.disjoint timelineId hwaiting hready, fun hsome ↦ ?_⟩
  obtain ⟨record, hrecord⟩ : ∃ record, record ∈ s.timeline timelineId ∨
      record ∈ s.digest timelineId := by
    rcases hsome with htimeline | hdigest
    · obtain ⟨record, hrecord⟩ := (SortedSet.card_pos_iff _).mp htimeline
      exact ⟨record, Or.inl hrecord⟩
    · obtain ⟨record, hrecord⟩ := (SortedSet.card_pos_iff _).mp hdigest
      exact ⟨record, Or.inr hrecord⟩
  rcases h.scheduled timelineId record hrecord with hwaiting | hready
  · exact Or.inl ⟨hwaiting, h.disjoint timelineId hwaiting⟩
  · exact Or.inr ⟨hready, fun hwaiting ↦ h.disjoint timelineId hwaiting hready⟩

end Sentry.Digests
