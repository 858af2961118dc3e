import Mathlib.Data.List.Basic

/-!
# Refinement of one object by another

An object takes operations and answers each with an output; the concrete object can fail, the
abstract one cannot. Related states answer an operation that the abstract state admits alike and
stay related, so two related objects give the same outputs for every sequence of admitted operations
(`Refinement.outputs_eq`).
-/

namespace Sentry.Library

variable {σ τ op out ε : Type*}

def outputs (step : σ → op → Except ε (out × σ)) : σ → List op → Except ε (List out)
  | _, [] => .ok []
  | s, o :: rest =>
    match step s o with
    | .error e => .error e
    | .ok (answer, s') =>
      match outputs step s' rest with
      | .error e => .error e
      | .ok answers => .ok (answer :: answers)

/-- The outputs of an object that cannot fail. -/
def pureOutputs (step : τ → op → out × τ) : τ → List op → List out
  | _, [] => []
  | t, o :: rest => (step t o).1 :: pureOutputs step (step t o).2 rest

/-- Every operation of the sequence is admitted by the state it is applied to. -/
def Admits (step : τ → op → out × τ) (admitted : τ → op → Prop) : τ → List op → Prop
  | _, [] => True
  | t, o :: rest => admitted t o ∧ Admits step admitted (step t o).2 rest

instance decidableAdmits (step : τ → op → out × τ) (admitted : τ → op → Prop)
    [∀ t o, Decidable (admitted t o)] :
    (t : τ) → (ops : List op) → Decidable (Admits step admitted t ops)
  | _, [] => isTrue trivial
  | t, o :: rest =>
    match inferInstanceAs (Decidable (admitted t o)),
      decidableAdmits step admitted (step t o).2 rest with
    | isTrue h, isTrue hrest => isTrue ⟨h, hrest⟩
    | isFalse h, _ => isFalse fun hall ↦ h hall.1
    | _, isFalse hrest => isFalse fun hall ↦ hrest hall.2

/-- Related states answer every admitted operation alike and stay related. -/
structure Refinement (concrete : σ → op → Except ε (out × σ)) (abstract : τ → op → out × τ)
    (admitted : τ → op → Prop) where
  related : σ → τ → Prop
  step_related : ∀ {s t o}, related s t → admitted t o →
    ∃ s', concrete s o = .ok ((abstract t o).1, s') ∧ related s' (abstract t o).2

theorem Refinement.outputs_eq {concrete : σ → op → Except ε (out × σ)} {abstract : τ → op → out × τ}
    {admitted : τ → op → Prop} (r : Refinement concrete abstract admitted) {s : σ} {t : τ}
    (hst : r.related s t) {ops : List op} (hops : Admits abstract admitted t ops) :
    outputs concrete s ops = .ok (pureOutputs abstract t ops) := by
  induction ops generalizing s t with
  | nil => rfl
  | cons o rest ih =>
    obtain ⟨s', hs', hrel⟩ := r.step_related hst hops.1
    simp only [outputs, hs', pureOutputs, ih hrel hops.2]

end Sentry.Library
