import Mathlib.Data.List.Basic

/-!
# Streaks

A history lists values, the latest first. A streak of a length is a number of latest values that all
satisfy a predicate (`Streak`). A counter that is raised by one when a value satisfies the
predicate, and set to zero otherwise, never exceeds the streak: the streak of a counter is extended
by a value that satisfies the predicate (`Streak.cons`), and is kept by a smaller counter
(`Streak.mono`).
-/

namespace Sentry.Library

variable {α : Type*}

/-- The latest `length` values of a history satisfy a predicate. -/
def Streak (p : α → Prop) (length : ℕ) (history : List α) : Prop :=
  length ≤ history.length ∧ ∀ value ∈ history.take length, p value

namespace Streak

variable {p : α → Prop} {length : ℕ} {history : List α} {value : α}

theorem zero (p : α → Prop) (history : List α) : Streak p 0 history :=
  ⟨Nat.zero_le _, fun value hvalue ↦ by simp at hvalue⟩

theorem cons (h : Streak p length history) (hvalue : p value) :
    Streak p (length + 1) (value :: history) := by
  refine ⟨Nat.succ_le_succ h.1, fun other hother ↦ ?_⟩
  rcases List.mem_cons.mp hother with rfl | hother
  · exact hvalue
  · exact h.2 other hother

theorem mono (h : Streak p length history) {shorter : ℕ} (hle : shorter ≤ length) :
    Streak p shorter history := by
  refine ⟨Nat.le_trans hle h.1, fun other hother ↦ h.2 other ?_⟩
  exact (List.take_prefix_take_left hle).subset hother

end Streak

end Sentry.Library
