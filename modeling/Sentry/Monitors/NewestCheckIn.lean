import Sentry.Monitors.IncidentStatus
import Mathlib.Data.Int.ConditionallyCompleteOrder
import Mathlib.Order.ConditionallyCompleteLattice.Finset

/-!
# The newest check-in

`mark_ok` and `mark_failed` store the time of a check-in as the last one of its environment, unless
there has been a newer one. `mark_failed` compares the time that it stores (`newest_markFailed`),
but `mark_ok` stores when the check-in was added, and compares when it was completed
(`newest_markOk`). So the stored time is that of the latest check-in seen, if and only if no call of
`mark_ok` confuses the two (`newest_iff_everyStep`).
-/

namespace Sentry.Monitors

open Library List

def MonitorState.newest (s : MonitorState) : WithBot ℤ :=
  s.environment.lastCheckin.elim ⊥ WithBot.some

namespace MarkEvent

/-- The call of a mark. -/
def call : MarkEvent → MarkCall
  | .markOk call => call
  | .markFailed call => call

def dateSeen : MarkEvent → WithBot ℤ
  | .markOk call => call.checkin.dateAdded
  | .markFailed call => if call.checkin.status = .missed then ⊥ else call.checkin.dateAdded

/-- The check-in is completed when it was added or later. -/
def CompletedAfter (event : MarkEvent) : Prop := event.call.checkin.dateAdded ≤ event.call.ts

instance : DecidablePred CompletedAfter := fun event ↦
  inferInstanceAs (Decidable (event.call.checkin.dateAdded ≤ event.call.ts))

end MarkEvent

def latestSeen (events : List MarkEvent) : WithBot ℤ :=
  events.foldl (fun latest event ↦ max latest event.dateSeen) ⊥

/-- A call of `mark_ok` does not store an older check-in than the last one: that one is not newer
than the check-in, or it is newer than its completion. -/
def KeepsNewest (s : MonitorState) : MarkEvent → Prop
  | .markOk call =>
    ¬ ∃ last ∈ s.environment.lastCheckin, call.checkin.dateAdded < last ∧ last ≤ call.ts
  | .markFailed _ => True

instance decidableKeepsNewest (s : MonitorState) :
    (event : MarkEvent) → Decidable (KeepsNewest s event)
  | .markOk call => inferInstanceAs (Decidable
      (¬ ∃ last ∈ s.environment.lastCheckin, call.checkin.dateAdded < last ∧ last ≤ call.ts))
  | .markFailed _ => isTrue trivial

theorem hasNewerCheckin_iff (s : MonitorState) (ts : ℤ) :
    HasNewerCheckin s ts ↔ (ts : WithBot ℤ) < s.newest := by
  unfold HasNewerCheckin MonitorState.newest
  cases s.environment.lastCheckin with
  | none => simp
  | some last => simp

theorem not_keepsNewest_markOk (s : MonitorState) (call : MarkCall) :
    ¬ KeepsNewest s (.markOk call) ↔
      (call.checkin.dateAdded : WithBot ℤ) < s.newest ∧ s.newest ≤ (call.ts : ℤ) := by
  unfold KeepsNewest MonitorState.newest
  cases s.environment.lastCheckin with
  | none => simp
  | some last => simp

section OpenIncidents

variable (monitor : Monitor) {s : MonitorState} (call : MarkCall) (failureIssueThreshold : ℕ)

section

variable (h : s.openIncidents.length ≤ 1)

include h

theorem openIncidents_length_markOk : (markOk monitor s call).1.openIncidents.length ≤ 1 := by
  unfold markOk
  by_cases hrecovering : IncidentRecovering monitor s call
  · rw [if_pos hrecovering, activeIncident_eq h]
    cases s.openIncidents.head? with
    | none => simpa using h
    | some incident => simp
  · rw [if_neg hrecovering]
    simpa using h

theorem openIncidents_length_startFailing :
    (startFailing s call failureIssueThreshold).1.openIncidents.length ≤ 1 := by
  unfold startFailing
  dsimp only
  split_ifs with hok
  · exact h
  · cases (previousCheckins call failureIssueThreshold).head? with
    | none => exact h
    | some starting =>
      rw [activeIncident_eq (by simpa using h), openIncidents_setStatus]
      cases hopen : s.openIncidents with
      | nil => simp [hopen]
      | cons incident rest => simpa [hopen] using h

theorem openIncidents_length_markFailedThreshold :
    (markFailedThreshold s call failureIssueThreshold).1.openIncidents.length ≤ 1 := by
  unfold markFailedThreshold
  cases s.environment.status with
  | ok | active => exact openIncidents_length_startFailing call _ h
  | error =>
    rw [activeIncident_eq h]
    cases s.openIncidents.head? with
    | none => exact h
    | some incident => simpa using h
  | disabled | pendingDeletion | deletionInProgress => exact h

theorem openIncidents_length_markFailed :
    (markFailed monitor s call).1.openIncidents.length ≤ 1 := by
  unfold markFailed
  dsimp only
  split
  · exact h
  · split_ifs
    · exact h
    · exact openIncidents_length_markFailedThreshold call _ h

end

theorem openIncidents_length_step (s : MonitorState) (event : MarkEvent)
    (h : s.openIncidents.length ≤ 1) :
    ((marking monitor).step s event).openIncidents.length ≤ 1 := by
  cases event with
  | markOk call => exact openIncidents_length_markOk monitor call h
  | markFailed call => exact openIncidents_length_markFailed monitor call h

end OpenIncidents

section Step

variable (monitor : Monitor) {s : MonitorState} (call : MarkCall)

theorem newest_updateEnvironment (status : Option MonitorStatus) :
    (updateEnvironment monitor s call status).newest =
      if (call.ts : WithBot ℤ) < s.newest then s.newest
      else (call.checkin.dateAdded : WithBot ℤ) := by
  simp only [updateEnvironment, hasNewerCheckin_iff]
  split_ifs <;> rfl

/-- `mark_ok` stores its check-in unless the last one is newer than the completion. -/
theorem newest_markOk (h : s.openIncidents.length ≤ 1) : (markOk monitor s call).1.newest =
      if (call.ts : WithBot ℤ) < s.newest then s.newest
      else (call.checkin.dateAdded : WithBot ℤ) := by
  unfold markOk
  by_cases hrecovering : IncidentRecovering monitor s call
  · rw [if_pos hrecovering, activeIncident_eq h]
    cases s.openIncidents.head? with
    | none => exact newest_updateEnvironment monitor call _
    | some incident =>
      exact @newest_updateEnvironment monitor (s.resolveIncident call.checkin) call _
  · rw [if_neg hrecovering]
    exact newest_updateEnvironment monitor call _

theorem newest_startFailing (failureIssueThreshold : ℕ) :
    (startFailing s call failureIssueThreshold).1.newest = s.newest := by
  unfold startFailing MonitorState.newest
  dsimp only
  split_ifs
  · rfl
  · cases (previousCheckins call failureIssueThreshold).head? with
    | none => rfl
    | some starting =>
      cases (s.setStatus .error).activeIncident with
      | error e => rfl
      | ok incident =>
        cases incident with
        | none => simp [MonitorState.createIncident, MonitorState.setStatus]
        | some incident => simp [MonitorState.setStatus]

theorem newest_markFailedThreshold (failureIssueThreshold : ℕ) :
    (markFailedThreshold s call failureIssueThreshold).1.newest = s.newest := by
  unfold markFailedThreshold
  cases s.environment.status with
  | ok | active => exact newest_startFailing call _
  | error =>
    cases s.activeIncident with
    | error e => rfl
    | ok incident =>
      cases incident with
      | none => rfl
      | some incident => simp [MonitorState.newest]
  | disabled | pendingDeletion | deletionInProgress => rfl

/-- `mark_failed` stores its check-in if that is the newest one. -/
theorem newest_markFailed :
    (markFailed monitor s call).1.newest = max s.newest (MarkEvent.markFailed call).dateSeen := by
  unfold markFailed MarkEvent.dateSeen
  by_cases hmissed : call.checkin.status = .missed
  · simp only [hmissed, if_true, max_bot_right]
    cases hlast : s.environment.lastCheckin with
    | none => rfl
    | some last =>
      have hnewest : s.newest = last := by
        simp [MonitorState.newest, hlast]
      dsimp only
      split_ifs with hnewer
      · rfl
      · rw [newest_markFailedThreshold, hnewest]
        rfl
  · simp only [hmissed, if_false, hasNewerCheckin_iff]
    split_ifs with hnewer
    · exact (max_eq_left hnewer.le).symm
    · rw [newest_markFailedThreshold]
      exact (max_eq_right (not_lt.mp hnewer)).symm

theorem newest_step (event : MarkEvent) (h : s.openIncidents.length ≤ 1)
    (hafter : event.CompletedAfter) (hkeeps : KeepsNewest s event) :
    ((marking monitor).step s event).newest = max s.newest event.dateSeen := by
  cases event with
  | markFailed call => exact newest_markFailed monitor call
  | markOk call =>
    have hdate : (call.checkin.dateAdded : WithBot ℤ) ≤ call.ts := WithBot.coe_le_coe.mpr hafter
    show (markOk monitor s call).1.newest = max s.newest (call.checkin.dateAdded : WithBot ℤ)
    rw [newest_markOk monitor call h]
    split_ifs with hnewer
    · exact (max_eq_left (hdate.trans hnewer.le)).symm
    · refine (max_eq_right ?_).symm
      refine not_lt.mp fun hlt ↦ absurd hkeeps ?_
      exact (not_keepsNewest_markOk s call).mpr ⟨hlt, not_lt.mp hnewer⟩

/-- A call of `mark_ok` that stores an older check-in sets the time back. -/
theorem newest_step_lt (event : MarkEvent) (h : s.openIncidents.length ≤ 1)
    (hkeeps : ¬ KeepsNewest s event) : ((marking monitor).step s event).newest < s.newest := by
  cases event with
  | markFailed call => exact absurd trivial hkeeps
  | markOk call =>
    obtain ⟨hlt, hle⟩ := (not_keepsNewest_markOk s call).mp hkeeps
    show (markOk monitor s call).1.newest < s.newest
    rw [newest_markOk monitor call h, if_neg (not_lt.mpr hle)]
    exact hlt

end Step

/-- The stored time never decreases in a run, and is that of the latest check-in seen. -/
def NewestWins (monitor : Monitor) (events : List MarkEvent) : Prop :=
  (∀ first second, first ++ second <+: events →
    ((marking monitor).run first).newest ≤ ((marking monitor).run (first ++ second)).newest) ∧
  ∀ first, first <+: events → ((marking monitor).run first).newest = latestSeen first

theorem latestSeen_concat (events : List MarkEvent) (event : MarkEvent) :
    latestSeen (events ++ [event]) = max (latestSeen events) event.dateSeen := by
  simp [latestSeen]

theorem openIncidents_length_run (monitor : Monitor) (events : List MarkEvent) :
    ((marking monitor).run events).openIncidents.length ≤ 1 :=
  (marking monitor).run_invariant (Nat.zero_le 1) (openIncidents_length_step monitor) events

theorem newest_run (monitor : Monitor) (events : List MarkEvent)
    (hafter : ∀ event ∈ events, event.CompletedAfter)
    (hkeeps : (marking monitor).EveryStep KeepsNewest (marking monitor).init events) :
    ((marking monitor).run events).newest = latestSeen events := by
  induction events using reverseRecOn with
  | nil => rfl
  | append_singleton events event ih =>
    rw [forall_mem_append] at hafter
    rw [Machine.everyStep_concat] at hkeeps
    rw [Machine.run_concat, latestSeen_concat, ← ih hafter.1 hkeeps.1]
    exact newest_step monitor event (openIncidents_length_run monitor events)
      (hafter.2 event (mem_singleton_self event)) hkeeps.2

theorem latestSeen_le_append (first second : List MarkEvent) :
    latestSeen first ≤ latestSeen (first ++ second) := by
  induction second using reverseRecOn with
  | nil => rw [append_nil]
  | append_singleton second event ih =>
    rw [← append_assoc, latestSeen_concat]
    exact ih.trans (le_max_left _ _)

/-- The newest check-in wins in a run if and only if no call of `mark_ok` stores a check-in that is
older than the last one. -/
theorem newest_iff_everyStep (monitor : Monitor) (events : List MarkEvent)
    (hafter : ∀ event ∈ events, event.CompletedAfter) :
    NewestWins monitor events ↔
      (marking monitor).EveryStep KeepsNewest (marking monitor).init events := by
  constructor
  · intro hwins
    induction events using reverseRecOn with
    | nil => trivial
    | append_singleton events event ih =>
      rw [forall_mem_append] at hafter
      rw [Machine.everyStep_concat]
      refine ⟨ih hafter.1 ⟨?_, ?_⟩, ?_⟩
      · exact fun first second h ↦ hwins.1 first second (h.trans (prefix_append _ _))
      · exact fun first h ↦ hwins.2 first (h.trans (prefix_append _ _))
      · by_contra hkeeps
        have hlt := newest_step_lt monitor event (openIncidents_length_run monitor events) hkeeps
        have hle := hwins.1 events [event] (prefix_refl _)
        rw [Machine.run_concat] at hle
        exact absurd hlt (not_lt.mpr hle)
  · intro hsteps
    have hseen : ∀ first, first <+: events →
        ((marking monitor).run first).newest = latestSeen first := fun first hfirst ↦
      newest_run monitor first (fun event hevent ↦ hafter event (hfirst.subset hevent))
        (hsteps.of_isPrefix hfirst)
    refine ⟨fun first second hprefix ↦ ?_, hseen⟩
    rw [hseen _ hprefix, hseen first ((prefix_append first second).trans hprefix)]
    exact latestSeen_le_append first second

/-- A check-in of minute 1, and one of minute 0 that is completed at minute 2. -/
def completedLate : List MarkEvent :=
  [.markOk ⟨⟨2, 60, .ok⟩, 70, [⟨2, 60, .ok⟩, ⟨1, 0, .ok⟩], false, by decide⟩,
    .markOk ⟨⟨1, 0, .ok⟩, 120, [⟨2, 60, .ok⟩, ⟨1, 0, .ok⟩], false, by decide⟩]

theorem newest_iff_everyStep_lateOkRun : NewestWins everyMinute lateOkRun :=
  (newest_iff_everyStep everyMinute lateOkRun (by decide)).mpr (by decide)

/-- The check-in that was completed last is stored, although it is older than the last one. -/
theorem completedLate_sets_back : (∀ event ∈ completedLate, event.CompletedAfter) ∧
      ((marking everyMinute).run completedLate).environment.lastCheckin = some 0 ∧
      ((marking everyMinute).run (completedLate.take 1)).environment.lastCheckin = some 60 ∧
      ¬ NewestWins everyMinute completedLate := by
  refine ⟨by decide, by decide, by decide, fun hwins ↦ ?_⟩
  have hseen := hwins.2 completedLate (prefix_refl _)
  exact absurd hseen (by decide)

end Sentry.Monitors
