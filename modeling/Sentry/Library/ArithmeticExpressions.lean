import Mathlib.Algebra.Notation.Defs
import Mathlib.Data.List.Basic

/-!
# Arithmetic expressions

An expression is a list of operands, operators and parentheses. What it denotes (`Denotes`) follows
the usual rules, with operators of one level grouped to the left. Tokens can be read one by one
instead (`step`), with the sum and the product before the next token as functions of what is still
to come. This ends in the value (`run_of_denotes`), so it is unique (`Denotes.unique`).
-/

namespace Sentry.Library.ArithmeticExpressions

open Option

inductive Operator
  | plus
  | minus
  | multiply
  | divide
  deriving DecidableEq, Repr

inductive Token (α : Type*)
  | operand (a : α)
  | operator (operator : Operator)
  | openParen
  | closedParen

inductive Level
  | atom
  | product
  | sum

def Level.tighter : Level → Level
  | atom => atom
  | product => atom
  | sum => product

def Operator.level : Operator → Level
  | plus => .sum
  | minus => .sum
  | multiply => .product
  | divide => .product

variable {α V : Type*}

/-- The operators in their order. -/
def operators : List (Token α) → List Operator
  | [] => []
  | .operator operator :: tokens => operator :: operators tokens
  | .operand _ :: tokens => operators tokens
  | .openParen :: tokens => operators tokens
  | .closedParen :: tokens => operators tokens

theorem operators_append (tokens more : List (Token α)) :
    operators (tokens ++ more) = operators tokens ++ operators more := by
  fun_induction operators tokens <;> simp [operators, *]

variable [Add V] [Sub V] [Mul V] [Div V]

def Operator.apply : Operator → V → V → V
  | plus, v, w => v + w
  | minus, v, w => v - w
  | multiply, v, w => v * w
  | divide, v, w => v / w

variable (value : α → V)

/-- The usual rules. -/
inductive Denotes : Level → List (Token α) → V → Prop
  | operand (a : α) : Denotes .atom [.operand a] (value a)
  | parens {tokens : List (Token α)} {v : V} : Denotes .sum tokens v →
      Denotes .atom (.openParen :: tokens ++ [.closedParen]) v
  | tighter {level : Level} {tokens : List (Token α)} {v : V} : Denotes level.tighter tokens v →
      Denotes level tokens v
  | operation {operator : Operator} {left right : List (Token α)} {v w : V} :
      Denotes operator.level left v → Denotes operator.level.tighter right w →
      Denotes operator.level (left ++ .operator operator :: right) (operator.apply v w)

/-- What the sum before makes of the next product, and the product before of the next atom. -/
structure Frame (V : Type*) where
  sum : V → V
  product : V → V

/-- The frames outside of the parentheses that are open, and what has been read since: nothing that
is complete, or a product. -/
inductive State (V : Type*)
  | expecting (outer : List (Frame V)) (frame : Frame V)
  | complete (outer : List (Frame V)) (sum : V → V) (product : V)

def step : State V → Token α → Option (State V)
  | .expecting outer frame, .operand a =>
    some (.complete outer frame.sum (frame.product (value a)))
  | .expecting outer frame, .openParen => some (.expecting (frame :: outer) ⟨id, id⟩)
  | .expecting _ _, .operator _ => none
  | .expecting _ _, .closedParen => none
  | .complete outer sum product, .operator operator =>
    match operator.level with
    | .sum => some (.expecting outer ⟨operator.apply (sum product), id⟩)
    | _ => some (.expecting outer ⟨sum, operator.apply product⟩)
  | .complete (frame :: outer) sum product, .closedParen =>
    some (.complete outer frame.sum (frame.product (sum product)))
  | .complete [] _ _, .closedParen => none
  | .complete _ _ _, .operand _ => none
  | .complete _ _ _, .openParen => none

def run : State V → List (Token α) → Option (State V)
  | state, [] => some state
  | state, token :: tokens => (step value state token).bind fun next ↦ run next tokens

variable {value}

theorem run_append {tokens more : List (Token α)} {state next : State V}
    (h : run value state tokens = some next) :
    run value state (tokens ++ more) = run value next more := by
  induction tokens generalizing state with
  | nil =>
    rw [run, Option.some.injEq] at h
    rw [h, List.nil_append]
  | cons token tokens ih =>
    rw [run, bind_eq_some_iff] at h
    obtain ⟨middle, hstep, hrun⟩ := h
    rw [List.cons_append, run, hstep, bind_some, ih hrun]

def Token.begins : Token α → Bool
  | operand _ => true
  | openParen => true
  | operator _ => false
  | closedParen => false

def State.isExpecting : State V → Bool
  | expecting _ _ => true
  | complete _ _ _ => false

variable {tokens : List (Token α)}

theorem isExpecting_of_run {token : Token α} {state last : State V}
    (h : run value state (token :: tokens) = some last) :
    state.isExpecting = token.begins := by
  rw [run, bind_eq_some_iff] at h
  obtain ⟨next, hstep, -⟩ := h
  cases state with
  | expecting | complete => cases token <;> first | rfl | nomatch hstep

theorem exists_run_of_cons {token : Token α} {tokens tokens' : List (Token α)}
    {state last last' : State V} (h : run value state (token :: tokens) = some last)
    (h' : run value state (token :: tokens') = some last') :
    ∃ next, run value next tokens = some last ∧ run value next tokens' = some last' := by
  obtain ⟨next, hstep, hrun⟩ := bind_eq_some_iff.mp h
  obtain ⟨next', hstep', hrun'⟩ := bind_eq_some_iff.mp h'
  obtain rfl := Option.some.inj (hstep.symm.trans hstep')
  exact ⟨next, hrun, hrun'⟩

variable (value) in
def Runs : Level → List (Token α) → V → Prop
  | .atom, tokens, v => ∀ outer frame, run value (.expecting outer frame) tokens =
      some (.complete outer frame.sum (frame.product v))
  | .product, tokens, v => ∀ outer sum, run value (.expecting outer ⟨sum, id⟩) tokens =
      some (.complete outer sum v)
  | .sum, tokens, v => ∀ outer, ∃ sum product, run value (.expecting outer ⟨id, id⟩) tokens =
      some (.complete outer sum product) ∧ sum product = v

theorem Runs.of_tighter {level : Level} {v : V}
    (h : Runs value level.tighter tokens v) : Runs value level tokens v := by
  cases level with
  | atom => exact h
  | product => exact fun outer sum ↦ h outer ⟨sum, id⟩
  | sum => exact fun outer ↦ ⟨id, v, h outer id, rfl⟩

theorem Runs.parens {v : V} (h : Runs value .sum tokens v) :
    Runs value .atom (.openParen :: tokens ++ [.closedParen]) v := by
  intro outer frame
  obtain ⟨sum, product, hrun, rfl⟩ := h (frame :: outer)
  show run value (.expecting (frame :: outer) ⟨id, id⟩) (tokens ++ [.closedParen]) = _
  rw [run_append hrun]
  rfl

theorem Runs.operation {operator : Operator} {left right : List (Token α)} {v w : V}
    (hleft : Runs value operator.level left v)
    (hright : Runs value operator.level.tighter right w) :
    Runs value operator.level (left ++ .operator operator :: right) (operator.apply v w) := by
  cases hlevel : operator.level with
  | atom => cases operator <;> nomatch hlevel
  | product =>
    rw [hlevel] at hleft hright
    intro outer sum
    rw [run_append (hleft outer sum), run, step, hlevel]
    exact hright outer ⟨sum, operator.apply v⟩
  | sum =>
    rw [hlevel] at hleft hright
    intro outer
    obtain ⟨sum, product, hrun, rfl⟩ := hleft outer
    rw [run_append hrun, run, step, hlevel]
    exact ⟨operator.apply (sum product), w, hright outer _, rfl⟩

theorem run_of_denotes {level : Level} {v : V}
    (h : Denotes value level tokens v) : Runs value level tokens v := by
  induction h with
  | operand a => exact fun outer frame ↦ rfl
  | parens _ ih => exact ih.parens
  | tighter _ ih => exact ih.of_tighter
  | operation _ _ ihleft ihright => exact ihleft.operation ihright

theorem Denotes.unique {v w : V} (hv : Denotes value .sum tokens v)
    (hw : Denotes value .sum tokens w) : v = w := by
  obtain ⟨sum, product, hrun, rfl⟩ := run_of_denotes hv []
  obtain ⟨sum', product', hrun', rfl⟩ := run_of_denotes hw []
  rw [hrun, Option.some.injEq, State.complete.injEq] at hrun'
  rw [hrun'.2.1, hrun'.2.2]

end Sentry.Library.ArithmeticExpressions
