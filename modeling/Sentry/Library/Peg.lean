import Sentry.Library.Characters
import Sentry.Library.Repetition
import Mathlib.Data.List.Infix
import Mathlib.Data.List.TakeWhile

/-!
# Parsing expressions

A parsing expression reads something off the beginning of a list, or fails (`Peg`), with ordered
alternatives (`<|>`), greedy repetition (`star`, `plus`) and lookahead (`ahead`, `notAhead`). Three
facts on an expression are built up as the expression is: of what class its elements are (`Reads`),
that its value prints them (`Prints`), and what it is followed by (`Ends`).
-/

namespace Sentry.Library

open List Option

abbrev Peg (σ α : Type) : Type := StateT (List σ) Option α

namespace Peg

variable {σ α β : Type}

def satisfy (p : σ → Bool) : Peg σ σ
  | [] => none
  | c :: rest => if p c then some (c, rest) else none

def spanning (p : σ → Bool) : Peg σ (List σ) := fun s ↦ some (s.takeWhile p, s.dropWhile p)

def spanning1 (p : σ → Bool) : Peg σ (List σ) := fun s ↦
  if s.takeWhile p = [] then none else some (s.takeWhile p, s.dropWhile p)

def replicate (p : σ → Bool) : ℕ → Peg σ (List σ)
  | 0 => pure []
  | n + 1 => do
    let c ← satisfy p
    let rest ← replicate p n
    return c :: rest

def literal [DecidableEq σ] (text : List σ) : Peg σ (List σ) := fun s ↦
  if text <+: s then some (text, s.drop text.length) else none

/-- `e?`. -/
def opt (e : Peg σ α) : Peg σ (Option α) := fun s ↦
  match e s with
  | some (value, rest) => some (some value, rest)
  | none => some (none, s)

/-- `&e`. -/
def ahead (e : Peg σ α) : Peg σ Unit := fun s ↦
  match e s with
  | some _ => some ((), s)
  | none => none

/-- `!e`. -/
def notAhead (e : Peg σ α) : Peg σ Unit := fun s ↦
  match e s with
  | some _ => none
  | none => some ((), s)

/-- `e*`. -/
def star (e : Peg σ α) : Peg σ (List α) := fun s ↦ some (Repetition.many e s)

/-- `e+`. -/
def plus (e : Peg σ α) : Peg σ (List α) := do
  let first ← e
  let others ← star e
  return first :: others

/-- What an expression reads, as text. -/
def text (e : Peg σ α) : Peg σ (List σ) := fun s ↦
  match e s with
  | some (_, rest) => some (s.take (s.length - rest.length), rest)
  | none => none

def endOfText : Peg σ Unit
  | [] => some ((), [])
  | _ :: _ => none

theorem pure_apply (value : α) (s : List σ) : (pure value : Peg σ α) s = some (value, s) := rfl

variable {s rest : List σ} {e : Peg σ α}

theorem bind_of_some {f : α → Peg σ β} {value : α}
    (h : e s = some (value, rest)) : (e >>= f) s = f value rest := by
  show (e s).bind (fun result ↦ f result.1 result.2) = _
  rw [h]
  rfl

theorem bind_of_none {f : α → Peg σ β} {s : List σ} (h : e s = none) : (e >>= f) s = none := by
  show (e s).bind (fun result ↦ f result.1 result.2) = _
  rw [h]
  rfl

theorem bind_eq_some {f : α → Peg σ β} {result : β} : (e >>= f) s = some (result, rest) ↔
      ∃ value left, e s = some (value, left) ∧ f value left = some (result, rest) := by
  show (e s).bind (fun result ↦ f result.1 result.2) = _ ↔ _
  rw [bind_eq_some_iff]
  exact Prod.exists

theorem map_apply (f : α → β) (e : Peg σ α) (s : List σ) :
    (f <$> e) s = (e s).map fun result ↦ (f result.1, result.2) := by
  show (e s).bind (fun result ↦ some (f result.1, result.2)) = _
  cases e s with
  | none | some => rfl

theorem orElse_apply (e e' : Peg σ α) (s : List σ) : (e <|> e') s = (e s).or (e' s) := by
  show (e s).orElse (fun _ ↦ e' s) = _
  cases e s with
  | none | some => rfl

theorem opt_of_some {value : α} (h : e s = some (value, rest)) :
    opt e s = some (some value, rest) := by
  rw [opt, h]

theorem opt_of_none {s : List σ} (h : e s = none) : opt e s = some (none, s) := by
  rw [opt, h]

theorem ahead_of_none {s : List σ} (h : e s = none) : ahead e s = none := by
  rw [ahead, h]

theorem ahead_eq_some {value : Unit}
    (h : ahead e s = some (value, rest)) : rest = s ∧ ∃ result, e s = some result := by
  unfold ahead at h
  split at h
  next result hresult =>
    rw [Option.some.injEq, Prod.mk.injEq] at h
    exact ⟨h.2.symm, result, hresult⟩
  next => nomatch h

theorem spanning_append {p : σ → Bool} {read rest : List σ} (hread : ∀ c ∈ read, p c = true)
    (hrest : ∀ c ∈ rest.head?, p c = false) : spanning p (read ++ rest) = some (read, rest) := by
  have htake : rest.takeWhile p = [] := by
    cases rest with
    | nil => rfl
    | cons c rest => rw [takeWhile_cons_of_neg (by simp [hrest c rfl])]
  have hdrop : rest.dropWhile p = rest := by
    cases rest with
    | nil => rfl
    | cons c rest => rw [dropWhile_cons_of_neg (by simp [hrest c rfl])]
  rw [spanning, takeWhile_append_of_pos hread, dropWhile_append_of_pos hread, htake,
    hdrop, append_nil]

theorem spanning1_append {p : σ → Bool} {read rest : List σ} (hne : read ≠ [])
    (hread : ∀ c ∈ read, p c = true) (hrest : ∀ c ∈ rest.head?, p c = false) :
    spanning1 p (read ++ rest) = some (read, rest) := by
  have hspanning := spanning_append hread hrest
  rw [spanning, Option.some.injEq, Prod.mk.injEq] at hspanning
  rw [spanning1, hspanning.1, hspanning.2, if_neg hne]

theorem spanning1_eq_some {p : σ → Bool} {s read rest : List σ}
    (h : spanning1 p s = some (read, rest)) :
    s = read ++ rest ∧ read ≠ [] ∧ ∀ c ∈ read, p c = true := by
  unfold spanning1 at h
  split at h
  next => nomatch h
  next hne =>
    obtain ⟨rfl, rfl⟩ := Prod.mk.inj (Option.some.inj h)
    exact ⟨takeWhile_append_dropWhile.symm, hne, fun c hc ↦ mem_takeWhile_imp hc⟩

theorem literal_append [DecidableEq σ] (read rest : List σ) :
    literal read (read ++ rest) = some (read, rest) := by
  rw [literal, if_pos (prefix_append read rest), drop_left]

theorem literal_eq_some [DecidableEq σ] {s given read rest : List σ}
    (h : literal given s = some (read, rest)) : read = given ∧ s = given ++ rest := by
  unfold literal at h
  split at h
  next hprefix =>
    rw [Option.some.injEq, Prod.mk.injEq] at h
    obtain ⟨more, rfl⟩ := hprefix
    rw [drop_left] at h
    exact ⟨h.1.symm, by rw [h.2]⟩
  next => nomatch h

def Reads (p : σ → Prop) (e : Peg σ α) : Prop :=
  ∀ ⦃s value rest⦄, e s = some (value, rest) → ∃ read, s = read ++ rest ∧ ∀ c ∈ read, p c

variable {p : σ → Prop} {e e' : Peg σ α} {f : α → Peg σ β}

theorem reads_pure (value : α) : Reads p (pure value : Peg σ α) := by
  intro s _ rest h
  rw [pure_apply, Option.some.injEq, Prod.mk.injEq] at h
  exact ⟨[], h.2, fun c hc ↦ absurd hc not_mem_nil⟩

theorem reads_failure : Reads p (failure : Peg σ α) := fun _ _ _ h ↦ nomatch h

theorem Reads.bind (he : Reads p e) (hf : ∀ value, Reads p (f value)) : Reads p (e >>= f) := by
  intro s result rest h
  obtain ⟨value, left, hvalue, hresult⟩ := bind_eq_some.mp h
  obtain ⟨read, rfl, hread⟩ := he hvalue
  obtain ⟨read', rfl, hread'⟩ := hf value hresult
  exact ⟨read ++ read', (append_assoc ..).symm, forall_mem_append.mpr ⟨hread, hread'⟩⟩

theorem Reads.orElse (he : Reads p e) (he' : Reads p e') : Reads p (e <|> e') := by
  intro s value rest h
  rw [orElse_apply, or_eq_some_iff] at h
  rcases h with h | ⟨-, h⟩
  · exact he h
  · exact he' h

theorem Reads.opt (he : Reads p e) : Reads p (opt e) := by
  intro s value rest h
  cases hresult : e s with
  | none =>
    rw [opt_of_none hresult, Option.some.injEq, Prod.mk.injEq] at h
    exact ⟨[], h.2, fun c hc ↦ absurd hc not_mem_nil⟩
  | some result =>
    rw [opt_of_some hresult, Option.some.injEq, Prod.mk.injEq] at h
    exact h.2 ▸ he hresult

theorem reads_ahead : Reads p (ahead e) := by
  intro s value rest h
  exact ⟨[], (ahead_eq_some h).1.symm, fun c hc ↦ absurd hc not_mem_nil⟩

section

variable {q : σ → Bool} (h : ∀ c, q c = true → p c)

include h

theorem reads_satisfy : Reads p (satisfy q) := by
  intro s value rest hs
  cases s with
  | nil => nomatch hs
  | cons c s =>
    rw [satisfy] at hs
    split at hs
    next hc =>
      rw [Option.some.injEq, Prod.mk.injEq] at hs
      exact ⟨[c], by rw [hs.2, singleton_append], fun c' hc' ↦ mem_singleton.mp hc' ▸ h c hc⟩
    next => nomatch hs

theorem reads_spanning : Reads p (spanning q) := by
  intro s value rest hs
  rw [spanning, Option.some.injEq, Prod.mk.injEq] at hs
  exact ⟨s.takeWhile q, by rw [← hs.2, takeWhile_append_dropWhile],
    fun c hc ↦ h c (mem_takeWhile_imp hc)⟩

theorem reads_spanning1 : Reads p (spanning1 q) := by
  intro s value rest hs
  obtain ⟨hsplit, -, hread⟩ := spanning1_eq_some hs
  exact ⟨value, hsplit, fun c hc ↦ h c (hread c hc)⟩

theorem reads_replicate (n : ℕ) : Reads p (replicate q n) := by
  induction n with
  | zero => exact reads_pure _
  | succ n ih => exact (reads_satisfy h).bind fun _ ↦ ih.bind fun _ ↦ reads_pure _

end

theorem reads_literal [DecidableEq σ] {given : List σ} (h : ∀ c ∈ given, p c) :
    Reads p (literal given) := by
  intro s value rest hs
  exact ⟨given, (literal_eq_some hs).2, h⟩

theorem text_eq_some (he : Reads p e) {s read rest : List σ} (h : text e s = some (read, rest)) :
    s = read ++ rest ∧ (∀ c ∈ read, p c) ∧ ∃ value, e s = some (value, rest) := by
  unfold text at h
  split at h
  next value left hvalue =>
    obtain ⟨htake, rfl⟩ := Prod.mk.inj (Option.some.inj h)
    obtain ⟨read', rfl, hread'⟩ := he hvalue
    have hread : read = read' := by
      rw [← htake, length_append, Nat.add_sub_cancel, take_left]
    exact ⟨by rw [hread], by rwa [hread], value, hvalue⟩
  next => nomatch h

theorem Reads.text (he : Reads p e) : Reads p (text e) := by
  intro s read rest h
  obtain ⟨hsplit, hread, -⟩ := text_eq_some he h
  exact ⟨read, hsplit, hread⟩

def Prints (before : List σ) (print : α → List σ) (e : Peg σ α) : Prop :=
  ∀ ⦃s value rest⦄, e s = some (value, rest) → before ++ s = print value ++ rest

variable {before : List σ} {print : α → List σ} {print' : β → List σ}

theorem prints_pure (print : α → List σ) (value : α) :
    Prints (print value) print (pure value : Peg σ α) := by
  intro s _ rest h
  rw [pure_apply, Option.some.injEq, Prod.mk.injEq] at h
  rw [h.1, h.2]

theorem Prints.bind (he : Prints [] print e)
    (hf : ∀ value, Prints (before ++ print value) print' (f value)) :
    Prints before print' (e >>= f) := by
  intro s result rest h
  obtain ⟨value, left, hvalue, hresult⟩ := bind_eq_some.mp h
  rw [← hf value hresult, append_assoc, ← he hvalue, nil_append]

theorem prints_text (he : Reads p e) : Prints [] id (text e) :=
  fun _ _ _ h ↦ (text_eq_some he h).1

theorem prints_literal [DecidableEq σ] (given : List σ) : Prints [] id (literal given) := by
  intro s value rest h
  obtain ⟨rfl, hsplit⟩ := literal_eq_some h
  exact hsplit

theorem prints_failure : Prints before print (failure : Peg σ α) := fun _ _ _ h ↦ nomatch h

theorem Prints.orElse (he : Prints before print e) (he' : Prints before print e') :
    Prints before print (e <|> e') := by
  intro s value rest h
  rw [orElse_apply, or_eq_some_iff] at h
  rcases h with h | ⟨-, h⟩
  · exact he h
  · exact he' h

theorem Prints.opt {e : Peg σ (List σ)} (he : Prints [] id e) :
    Prints [] (fun value ↦ value.getD []) (opt e) := by
  intro s value rest h
  cases hresult : e s with
  | none =>
    rw [opt_of_none hresult, Option.some.injEq, Prod.mk.injEq] at h
    rw [← h.1, h.2]
    rfl
  | some result =>
    rw [opt_of_some hresult, Option.some.injEq, Prod.mk.injEq] at h
    rw [← h.1, he hresult, h.2]
    rfl

theorem prints_ahead : Prints [] (fun _ ↦ []) (ahead e) := by
  intro s value rest h
  rw [(ahead_eq_some h).1]

def Ends (q : List σ → Prop) (e : Peg σ α) : Prop :=
  ∀ ⦃s value rest⦄, e s = some (value, rest) → q rest

variable {q : List σ → Prop}

theorem Ends.bind (hf : ∀ value, Ends q (f value)) : Ends q (e >>= f) := by
  intro s result rest h
  obtain ⟨value, left, -, hresult⟩ := bind_eq_some.mp h
  exact hf value hresult

theorem Ends.text (he : Ends q e) : Ends q (text e) := by
  intro s read rest h
  unfold Peg.text at h
  split at h
  next value left hvalue =>
    rw [Option.some.injEq, Prod.mk.injEq] at h
    exact h.2 ▸ he hvalue
  next => nomatch h

theorem Ends.map (he : Ends q e) (f : α → β) : Ends q (e >>= fun value ↦ pure (f value)) := by
  intro s result rest h
  obtain ⟨value, left, hvalue, hpure⟩ := bind_eq_some.mp h
  rw [pure_apply, Option.some.injEq, Prod.mk.injEq] at hpure
  exact hpure.2 ▸ he hvalue

theorem ends_ahead (h : ∀ ⦃s result⦄, e s = some result → q s) : Ends q (ahead e) := by
  intro s value rest hs
  obtain ⟨rfl, result, hresult⟩ := ahead_eq_some hs
  exact h hresult

end Peg

end Sentry.Library
