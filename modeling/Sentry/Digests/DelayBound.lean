import Sentry.Digests.ScheduleInvariant

/-!
# The delay of a digest

A `DIGEST_CLOSE` that stores the time of the last processing leaves the timeline waiting. From then
on the timeline keeps one score, in one of the two sets of the schedule (`Between`): `SCHEDULE` and
`MAINTENANCE` move it with its score, and an `ADD` raises the score of a waiting timeline up to the
maximum delay (`delayed_execute`).
-/

namespace Sentry.Digests

open Library

variable {τ ρ ν : Type*} [LinearOrder τ] [LinearOrder ρ]

def Between (first second : SortedSet τ ℚ) (timelineId : τ) (score : ℚ) : Prop :=
  first.score timelineId = some score ∧ second.score timelineId = none ∨
    first.score timelineId = none ∧ second.score timelineId = some score

theorem Between.symm {first second : SortedSet τ ℚ} {timelineId : τ} {score : ℚ}
    (h : Between first second timelineId score) : Between second first timelineId score :=
  (h.imp And.symm And.symm).symm

theorem Between.move {source destination : SortedSet τ ℚ} {timelineId : τ} {score : ℚ}
    (h : Between source destination timelineId score) (threshold : ℚ) :
    Between (zrangeMoveSlice source destination threshold).1.1
      (zrangeMoveSlice source destination threshold).1.2 timelineId score := by
  have hkeys : ∀ entry ∈ source.rangeByScore 0 threshold, entry.1 = timelineId →
      entry.2 = score := by
    rintro ⟨id, value⟩ hentry rfl
    have hscore := (source.mem_entries_iff id value).mp (List.mem_of_mem_filter hentry)
    rcases h with ⟨hsource, -⟩ | ⟨hsource, -⟩
    · exact Option.some.inj (hscore.symm.trans hsource)
    · exact absurd (hscore.symm.trans hsource) (Option.some_ne_none value)
  rw [Between, zrangeMoveSlice_eq, SortedSet.score_removeAll, SortedSet.score_addAll _ hkeys]
  split_ifs
  · exact Or.inr ⟨rfl, rfl⟩
  · exact h

/-- An `ADD`, `SCHEDULE` or `MAINTENANCE`. An `ADD` on the timeline has the maximum delay, and an increment that
is not negative. -/
def Delays (timelineId : τ) (maximum : ℚ) : Command τ ρ ν → Prop
  | .add args => args.timelineId = timelineId → 0 ≤ args.delayIncrement ∧ args.delayMaximum = maximum
  | .schedule _ => True
  | .maintenance _ => True
  | _ => False

def Delayed (timelineId : τ) (timestamp maximum lowest : ℚ) (s : Store τ ρ ν) : Prop :=
  s.lastProcessed timelineId = some timestamp ∧
    ∃ score, lowest ≤ score ∧ score ≤ timestamp + maximum ∧
      Between s.waiting s.ready timelineId score

variable {s : Store τ ρ ν} {timelineId : τ} {timestamp maximum lowest : ℚ}

theorem delayed_addTimelineToSchedule (h : Delayed timelineId timestamp maximum lowest s) (other : τ)
    (now : ℚ) {increment delayMaximum : ℚ}
    (hdelays : other = timelineId → 0 ≤ increment ∧ delayMaximum = maximum) :
    Delayed timelineId timestamp maximum lowest
      (s.addTimelineToSchedule other now increment delayMaximum).1 := by
  obtain ⟨hprocessed, score, hlowest, hmaximum, hbetween⟩ := h
  unfold Store.addTimelineToSchedule
  split_ifs with hready
  · exact ⟨hprocessed, score, hlowest, hmaximum, hbetween⟩
  by_cases hother : timelineId = other
  · subst hother
    obtain ⟨hincrement, rfl⟩ := hdelays rfl
    rcases hbetween with ⟨hwaiting, hnone⟩ | ⟨-, hscore⟩
    · rw [hwaiting, hprocessed]
      refine ⟨hprocessed, min (score + increment) (timestamp + delayMaximum), ?_, min_le_right _ _,
        Or.inl ⟨?_, hnone⟩⟩
      · exact hlowest.trans (le_min (le_add_of_nonneg_right hincrement) hmaximum)
      · rw [SortedSet.score_add, if_pos rfl]
    · exact absurd ((s.ready.mem_iff_exists_score _).mpr ⟨score, hscore⟩) hready
  · split
    · refine ⟨hprocessed, score, hlowest, hmaximum, ?_⟩
      simpa only [Between, SortedSet.score_add, if_neg hother] using hbetween
    · refine ⟨hprocessed, score, hlowest, hmaximum, ?_⟩
      simpa only [Between, SortedSet.score_add, if_neg hother] using hbetween

theorem delayed_execute (h : Delayed timelineId timestamp maximum lowest s)
    {command : Command τ ρ ν} (hcommand : Delays timelineId maximum command) :
    Delayed timelineId timestamp maximum lowest (s.execute command) := by
  cases command with
  | add args =>
    have hscheduled := delayed_addTimelineToSchedule
      (s := s.putRecord args.timelineId args.recordId args.value args.timestamp) h args.timelineId
      args.timestamp hcommand
    show Delayed timelineId timestamp maximum lowest (s.addRecordToTimeline args).1
    unfold Store.addRecordToTimeline
    split_ifs
    all_goals exact hscheduled
  | schedule deadline =>
    obtain ⟨hprocessed, score, hlowest, hmaximum, hbetween⟩ := h
    exact ⟨hprocessed, score, hlowest, hmaximum, hbetween.move deadline⟩
  | maintenance deadline =>
    obtain ⟨hprocessed, score, hlowest, hmaximum, hbetween⟩ := h
    exact ⟨hprocessed, score, hlowest, hmaximum, (hbetween.symm.move deadline).symm⟩
  | digestOpen | digestClose | delete => exact hcommand.elim

theorem delayed_runFrom (h : Delayed timelineId timestamp maximum lowest s)
    {commands : List (Command τ ρ ν)}
    (hcommands : ∀ command ∈ commands, Delays timelineId maximum command) :
    Delayed timelineId timestamp maximum lowest ((digests τ ρ ν).runFrom s commands) := by
  induction commands generalizing s with
  | nil => exact h
  | cons command rest ih =>
    rw [List.forall_mem_cons] at hcommands
    exact ih (delayed_execute h hcommands.1) hcommands.2

theorem Delayed.score_le (h : Delayed timelineId timestamp maximum lowest s) {score : ℚ}
    (hscore : s.waiting.score timelineId = some score) :
    lowest ≤ score ∧ score ≤ timestamp + maximum ∧
      Delayed timelineId timestamp maximum score s := by
  obtain ⟨hprocessed, held, hlowest, hmaximum, hbetween⟩ := h
  rcases hbetween with ⟨hwaiting, hready⟩ | ⟨hwaiting, -⟩
  · obtain rfl := Option.some.inj (hwaiting.symm.trans hscore)
    exact ⟨hlowest, hmaximum, hprocessed, held, le_rfl, hmaximum, Or.inl ⟨hwaiting, hready⟩⟩
  · exact absurd (hscore.symm.trans hwaiting) (Option.some_ne_none score)

theorem delayed_closeDigest {delayMinimum : ℚ} (hdelays : delayMinimum ≤ maximum)
    {recordIds : List ρ}
    (hkey : (s.closeDigest timestamp timelineId delayMinimum recordIds).lastProcessed timelineId ≠
      none) :
    Delayed timelineId timestamp maximum (timestamp + delayMinimum)
      (s.closeDigest timestamp timelineId delayMinimum recordIds) := by
  unfold Store.closeDigest Store.reschedule at hkey ⊢
  split_ifs at hkey ⊢
  · refine ⟨Function.update_self _ _ _, timestamp + delayMinimum, le_rfl,
      add_le_add_right hdelays timestamp, Or.inl ⟨?_, ?_⟩⟩
    · rw [SortedSet.score_add, if_pos rfl]
    · rw [SortedSet.score_remove, if_pos rfl]
  · exact absurd (Function.update_self _ _ _) hkey

/-- Assumes: the `DIGEST_CLOSE` leaves a time of the last processing, and every command after it is
an `ADD` with the maximum delay and no negative increment, a `SCHEDULE` or a `MAINTENANCE`. Whenever
the timeline waits, its score is no later than the maximum delay after the close, and no later than
whenever it waits again. -/
theorem waiting_score_bounded (s : Store τ ρ ν) (timelineId : τ) {timestamp delayMinimum maximum : ℚ}
    (hdelays : delayMinimum ≤ maximum) (recordIds : List ρ)
    (hkey : (s.closeDigest timestamp timelineId delayMinimum recordIds).lastProcessed timelineId ≠
      none)
    (first second : List (Command τ ρ ν))
    (hcommands : ∀ command ∈ first ++ second, Delays timelineId maximum command) :
    let closed := s.closeDigest timestamp timelineId delayMinimum recordIds
    ∀ score, ((digests τ ρ ν).runFrom closed first).waiting.score timelineId = some score →
      score ≤ timestamp + maximum ∧ ∀ later,
        ((digests τ ρ ν).runFrom closed (first ++ second)).waiting.score timelineId = some later →
          score ≤ later := by
  intro closed score hscore
  rw [List.forall_mem_append] at hcommands
  have hdelayed : Delayed timelineId timestamp maximum (timestamp + delayMinimum) closed :=
    delayed_closeDigest hdelays hkey
  obtain ⟨-, hmaximum, hheld⟩ := (delayed_runFrom hdelayed hcommands.1).score_le hscore
  refine ⟨hmaximum, fun later hlater ↦ ?_⟩
  rw [Machine.runFrom_append] at hlater
  exact ((delayed_runFrom hheld hcommands.2).score_le hlater).1

theorem waiting_score_bounded_add :
    let closed := (Store.empty : Store ℕ ℕ ℕ).closeDigest 100 1 5 [1]
    ∀ score, closed.waiting.score 1 = some score → score ≤ 100 + 10 ∧ ∀ later,
      ((digests ℕ ℕ ℕ).runFrom closed
        [.add ⟨1, 2, 0, 101, 3, 10, 0, 0, 0⟩]).waiting.score 1 = some later → score ≤ later :=
  waiting_score_bounded Store.empty 1 (show (5 : ℚ) ≤ 10 by decide) [1]
    (show (Store.empty.closeDigest 100 1 5 [1]).lastProcessed 1 ≠ none by decide) []
    [.add ⟨1, 2, 0, 101, 3, 10, 0, 0, 0⟩]
    (by simpa [Delays] using show (0 : ℚ) ≤ 3 by decide)

end Sentry.Digests
