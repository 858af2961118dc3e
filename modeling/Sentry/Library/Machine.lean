import Mathlib.Data.List.Infix

/-!
# Machines and their runs

A machine has an initial state and a total step function; an event that is not enabled leaves the
state unchanged. An invariant is proved from the initial state and one step (`run_invariant`). When
a step keeps it only under a condition on the state before it, `EveryStep` requires the condition of
every step of a run (`run_invariant_of_everyStep`), and when the condition is exactly what a step
needs, the invariant holds throughout a run if and only if every step meets it
(`forall_prefix_iff_everyStep`).
-/

namespace Sentry.Library

open List

/-- A state machine with a total step function. -/
structure Machine (σ ε : Type*) where
  init : σ
  step : σ → ε → σ

namespace Machine

variable {σ ε : Type*} (m : Machine σ ε)

/-- The state reached from `s` by a list of events, oldest first. -/
def runFrom (s : σ) (events : List ε) : σ := events.foldl m.step s

/-- The state reached from the initial state. -/
def run (events : List ε) : σ := m.runFrom m.init events

/-- Every step of the run from a state meets a condition on the state before it and the event. -/
def EveryStep (P : σ → ε → Prop) : σ → List ε → Prop
  | _, [] => True
  | s, event :: rest => P s event ∧ EveryStep P (m.step s event) rest

@[simp] theorem runFrom_nil (s : σ) : m.runFrom s [] = s := rfl

@[simp] theorem runFrom_cons (s : σ) (event : ε) (rest : List ε) :
    m.runFrom s (event :: rest) = m.runFrom (m.step s event) rest := rfl

theorem runFrom_append (s : σ) (first second : List ε) :
    m.runFrom s (first ++ second) = m.runFrom (m.runFrom s first) second :=
  foldl_append

theorem run_append (first second : List ε) :
    m.run (first ++ second) = m.runFrom (m.run first) second :=
  m.runFrom_append m.init first second

@[simp] theorem run_concat (events : List ε) (event : ε) :
    m.run (events ++ [event]) = m.step (m.run events) event := by
  rw [run_append, runFrom_cons, runFrom_nil]

variable {I : σ → Prop} {s : σ}

theorem runFrom_invariant (hstep : ∀ s event, I s → I (m.step s event))
    (hs : I s) (events : List ε) : I (m.runFrom s events) := by
  induction events generalizing s with
  | nil => exact hs
  | cons event rest ih => exact ih (hstep s event hs)

theorem run_invariant (hinit : I m.init)
    (hstep : ∀ s event, I s → I (m.step s event)) (events : List ε) : I (m.run events) :=
  m.runFrom_invariant hstep hinit events

@[simp] theorem everyStep_nil (P : σ → ε → Prop) (s : σ) : m.EveryStep P s [] := trivial

@[simp] theorem everyStep_cons (P : σ → ε → Prop) (s : σ) (event : ε) (rest : List ε) :
    m.EveryStep P s (event :: rest) ↔ P s event ∧ m.EveryStep P (m.step s event) rest := Iff.rfl

theorem everyStep_concat (P : σ → ε → Prop) (s : σ) (events : List ε) (event : ε) :
    m.EveryStep P s (events ++ [event]) ↔ m.EveryStep P s events ∧
      P (m.runFrom s events) event := by
  induction events generalizing s with
  | nil => simp
  | cons first rest ih => simp [ih, and_assoc]

variable {P : σ → ε → Prop}

theorem EveryStep.of_isPrefix {m : Machine σ ε} {first events : List ε}
    (h : m.EveryStep P s events) (hfirst : first <+: events) : m.EveryStep P s first := by
  induction first generalizing s events with
  | nil => trivial
  | cons event rest ih =>
    obtain ⟨later, rfl⟩ := hfirst
    exact ⟨h.1, ih h.2 (prefix_append rest later)⟩

instance decidableEveryStep (P : σ → ε → Prop) [∀ s event, Decidable (P s event)] :
    (s : σ) → (events : List ε) → Decidable (m.EveryStep P s events)
  | _, [] => isTrue trivial
  | s, event :: rest =>
    match inferInstanceAs (Decidable (P s event)), decidableEveryStep P (m.step s event) rest with
    | isTrue h, isTrue hrest => isTrue ⟨h, hrest⟩
    | isFalse h, _ => isFalse fun hall ↦ h hall.1
    | _, isFalse hrest => isFalse fun hall ↦ hrest hall.2

variable {events : List ε}

theorem runFrom_invariant_of_everyStep (hstep : ∀ s event, I s → P s event → I (m.step s event))
    (hs : I s) (hevents : m.EveryStep P s events) : I (m.runFrom s events) := by
  induction events generalizing s with
  | nil => exact hs
  | cons event rest ih => exact ih (hstep s event hs hevents.1) hevents.2

theorem run_invariant_of_everyStep (hinit : I m.init)
    (hstep : ∀ s event, I s → P s event → I (m.step s event))
    (hevents : m.EveryStep P m.init events) : I (m.run events) :=
  m.runFrom_invariant_of_everyStep hstep hinit hevents

theorem forall_prefix_of_everyStep {A P : σ → ε → Prop}
    (hstep : ∀ s event, I s → A s event → P s event → I (m.step s event)) (hs : I s)
    (hassumed : m.EveryStep A s events) (hevents : m.EveryStep P s events) :
    ∀ first, first <+: events → I (m.runFrom s first) := by
  induction events generalizing s with
  | nil => simpa using hs
  | cons event rest ih =>
    intro first hfirst
    cases first with
    | nil => exact hs
    | cons head tail =>
      obtain ⟨rfl, htail⟩ := cons_prefix_cons.mp hfirst
      exact ih (hstep s _ hs hassumed.1 hevents.1) hassumed.2 hevents.2 tail htail

/-- Assumes: the steps of the run meet an assumption, under which a step that meets the condition
keeps the invariant, and a step after which the property holds meets it. The property holds after
every prefix of the run if and only if every step of the run meets the condition. -/
theorem forall_prefix_property_iff_everyStep_of {I G : σ → Prop} {A P : σ → ε → Prop}
    (hproperty : ∀ s, I s → G s)
    (hkeep : ∀ s event, I s → A s event → P s event → I (m.step s event))
    (hneeded : ∀ s event, I s → A s event → G (m.step s event) → P s event) (hs : I s)
    (hevents : m.EveryStep A s events) :
    (∀ first, first <+: events → G (m.runFrom s first)) ↔ m.EveryStep P s events := by
  induction events generalizing s with
  | nil => simpa using hproperty s hs
  | cons event rest ih =>
    obtain ⟨hassumed, hrest⟩ := hevents
    constructor
    · intro hall
      have hevent : P s event := hneeded s event hs hassumed (hall [event] (by simp))
      refine ⟨hevent, (ih (hkeep s event hs hassumed hevent) hrest).mp fun first hfirst ↦ ?_⟩
      exact hall (event :: first) (by simpa using hfirst)
    · intro ⟨hevent, hsteps⟩ first hfirst
      cases first with
      | nil => exact hproperty s hs
      | cons head tail =>
        obtain ⟨rfl, htail⟩ := cons_prefix_cons.mp hfirst
        exact (ih (hkeep s _ hs hassumed hevent) hrest).mpr hsteps tail htail

theorem everyStep_true (s : σ) (events : List ε) : m.EveryStep (fun _ _ ↦ True) s events := by
  induction events generalizing s with
  | nil => trivial
  | cons event rest ih => exact ⟨trivial, ih _⟩

/-- Assumes: a step that meets the condition keeps the invariant, and a step after which the
property holds meets it. The property holds after every prefix of a run if and only if every step of
the run meets the condition. -/
theorem forall_prefix_property_iff_everyStep {I G : σ → Prop} (hproperty : ∀ s, I s → G s)
    (hkeep : ∀ s event, I s → P s event → I (m.step s event))
    (hneeded : ∀ s event, I s → G (m.step s event) → P s event) (hs : I s) (events : List ε) :
    (∀ first, first <+: events → G (m.runFrom s first)) ↔ m.EveryStep P s events :=
  m.forall_prefix_property_iff_everyStep_of hproperty (fun s event h _ ↦ hkeep s event h)
    (fun s event h _ ↦ hneeded s event h) hs (m.everyStep_true s events)

/-- Assumes: from a state that satisfies the invariant, a step keeps it exactly when it meets the
condition. The invariant holds after every prefix of a run if and only if every step of the run
meets the condition. -/
theorem forall_prefix_iff_everyStep (hstep : ∀ s event, I s → (I (m.step s event) ↔ P s event))
    (hs : I s) (events : List ε) :
    (∀ first, first <+: events → I (m.runFrom s first)) ↔ m.EveryStep P s events :=
  m.forall_prefix_property_iff_everyStep (fun _ h ↦ h)
    (fun s event h hevent ↦ (hstep s event h).mpr hevent)
    (fun s event h hnext ↦ (hstep s event h).mp hnext) hs events

theorem forall_later_iff_everyStep {R : σ → σ → Prop} (hrefl : ∀ s, R s s)
    (htrans : ∀ s t u, R s t → R t u → R s u) (s : σ) (events : List ε) :
    (∀ first second, first ++ second <+: events →
      R (m.runFrom s first) (m.runFrom s (first ++ second))) ↔
      m.EveryStep (fun s event ↦ R s (m.step s event)) s events := by
  induction events generalizing s with
  | nil =>
    refine ⟨fun _ ↦ trivial, fun _ first second h ↦ ?_⟩
    obtain ⟨rfl, rfl⟩ := append_eq_nil_iff.mp (prefix_nil.mp h)
    exact hrefl s
  | cons event rest ih =>
    rw [everyStep_cons, ← ih]
    constructor
    · intro h
      refine ⟨h [] [event] (by simp), fun first second hprefix ↦ ?_⟩
      exact h (event :: first) second (by simpa using hprefix)
    · rintro ⟨hevent, hrest⟩ first second hprefix
      cases first with
      | cons head first =>
        obtain ⟨rfl, htail⟩ := cons_prefix_cons.mp hprefix
        exact hrest first second htail
      | nil =>
        cases second with
        | nil => exact hrefl s
        | cons head second =>
          obtain ⟨rfl, htail⟩ := cons_prefix_cons.mp hprefix
          exact htrans _ _ _ hevent (hrest [] second htail)

theorem everyStep_congr {P Q : σ → ε → Prop} (h : ∀ s event, P s event ↔ Q s event) (s : σ)
    (events : List ε) : m.EveryStep P s events ↔ m.EveryStep Q s events := by
  rw [show P = Q from funext fun s ↦ funext fun event ↦ propext (h s event)]

/-- Assumes: a step keeps an invariant about what has held so far, if what holds before the step is
part of this. The invariant holds after a run, with what held after some prefix of the run. -/
theorem run_invariant_past {α : Type*} {Q : σ → α → Prop} {I : (α → Prop) → σ → Prop}
    (hmono : ∀ {R R' : α → Prop} {s}, (∀ a, R a → R' a) → I R s → I R' s) (hinit : ∀ R, I R m.init)
    (hstep : ∀ R s event, (∀ a, Q s a → R a) → I R s → I R (m.step s event)) (events : List ε) :
    I (fun a ↦ ∃ first, first <+: events ∧ Q (m.run first) a) (m.run events) := by
  induction events using reverseRecOn with
  | nil => exact hinit _
  | append_singleton events event ih =>
    rw [run_concat]
    refine hstep _ _ event (fun a ha ↦ ⟨events, prefix_append _ _, ha⟩) (hmono ?_ ih)
    exact fun a ⟨first, hfirst, ha⟩ ↦ ⟨first, hfirst.trans (prefix_append _ _), ha⟩

end Machine

end Sentry.Library
