import Mathlib.Algebra.Order.Ring.Int
import Sentry.Library.ArithmeticExpressions
import Sentry.Library.Peg

/-!
# Equations

`discover/arithmetic.py`. Each rule of the grammar is a parsing expression under its name. The
visitor runs after all of an equation has been read, so a rule gives the visit of its node
(`Visit`). Numbers are of a type of their own, with `float` and the comparison with zero as
parameters. An `Operation` whose `lhs` has not been set is a `Remaining`.
-/

namespace Sentry.Discover.Arithmetic

open Library (Peg)
open Library.Peg
open Library.ArithmeticExpressions

abbrev Text := List Char

scoped instance instLawfulBEqText : LawfulBEq Text := List.instLawfulBEq

inductive ArithmeticError
  | maxOperator (message : String)
  | parse (message : String)
  | validation (message : Text)
  deriving DecidableEq

/-- `OperandType` -/
inductive Operand (F : Type)
  | operation (operator : Operator) (lhs rhs : Operand F)
  | number (value : F)
  | name (text : Text)
  deriving DecidableEq

/-- An operation that has no `lhs` yet. -/
structure Remaining (F : Type) where
  operator : Operator
  rhs : Operand F

variable {F : Type}

/-- `flatten`, of the first term and the operations that remain. -/
def flatten (term : Operand F) (remaining : List (Remaining F)) : Operand F :=
  remaining.foldl (fun term next ↦ .operation next.operator term next.rhs) term

/-- `rhs == 0` -/
def Operand.isZero (isZero : F → Bool) : Operand F → Bool
  | operation _ _ _ => false
  | number value => isZero value
  | name _ => false

/-- What an `ArithmeticVisitor` counts. -/
structure VisitorState where
  operators : ℕ
  terms : ℕ
  fields : List Text
  functions : List Text

abbrev Visit (α : Type) := StateT VisitorState (Except ArithmeticError) α

def totalCountAlias : Text := "total.count".toList

def totalTransactionDurationAlias : Text := "total.transaction_duration".toList

def fieldAllowlist : List Text :=
  ["transaction.duration", "spans.http", "spans.db", "spans.resource", "spans.browser",
    "spans.total.time", "measurements.app_start_cold", "measurements.app_start_warm",
    "measurements.cls", "measurements.fcp", "measurements.fid", "measurements.fp",
    "measurements.frames_frozen", "measurements.frames_slow", "measurements.frames_total",
    "measurements.lcp", "measurements.stall_count", "measurements.stall_stall_longest_time",
    "measurements.stall_stall_total_time", "measurements.time_to_full_display",
    "measurements.time_to_initial_display", "measurements.ttfb",
    "measurements.ttfb.requesttime"].map String.toList ++
  [totalCountAlias, totalTransactionDurationAlias]

def functionAllowlist : List Text :=
  ["count", "count_if", "count_unique", "failure_count", "min", "max", "avg", "sum", "p50", "p75",
    "p95", "p99", "p100", "percentile", "apdex", "user_misery", "eps", "epm", "count_miserable",
    "count_web_vitals", "percentile_range"].map String.toList

/-- The arguments of `parse_arithmetic` other than the equation, and what is known of numbers. -/
structure Config (F : Type) where
  maxOperators : Option ℤ
  customMeasurements : List Text
  float : Text → F
  isZero : F → Bool

variable (config : Config F)

/-- `max_operators if max_operators else DEFAULT_MAX_OPERATORS` -/
def Config.limit : ℤ :=
  match config.maxOperators with
  | none => 10
  | some maxOperators => if maxOperators = 0 then 10 else maxOperators

/-- `visited_operator` -/
def visitedOperator : Visit Unit := do
  modify fun state ↦ { state with operators := state.operators + 1 }
  if config.limit < (← get).operators then
    throw (.maxOperator "Exceeded maximum number of operations")

/-- `visit_add_sub` and `visit_mul_div`, with the check that an `Operation` makes of itself. -/
def visitRemaining (operator : Operator) (rhs : Visit (Operand F)) : Visit (Remaining F) := do
  let rhs ← rhs
  visitedOperator config
  if operator = .divide ∧ rhs.isZero config.isZero then
    throw (.validation "division by 0 is not allowed".toList)
  return ⟨operator, rhs⟩

def visitAll {α : Type} : List (Visit α) → Visit (List α)
  | [] => pure []
  | visit :: visits => do
    let first ← visit
    let others ← visitAll visits
    return first :: others

/-- `visit_term` and `visit_factor` -/
def visitTerm (first : Visit (Operand F)) (remaining : List (Visit (Remaining F))) :
    Visit (Operand F) := do
  let first ← first
  let remaining ← visitAll remaining
  return flatten first remaining

def visitPrimary (value : Visit (Operand F)) : Visit (Operand F) := do
  let value ← value
  modify fun state ↦ { state with terms := state.terms + 1 }
  return value

def visitNumericValue (text : Text) : Visit (Operand F) := pure (.number (config.float text))

def visitFieldValue (field : Text) : Visit (Operand F) := do
  if field ∉ fieldAllowlist ∧ field ∉ config.customMeasurements then
    throw (.validation (field ++ " not allowed in arithmetic".toList))
  modify fun state ↦ { state with fields := state.fields.insert field }
  return .name field

def visitFunctionValue (functionName field : Text) : Visit (Operand F) := do
  if functionName ∉ functionAllowlist then
    throw (.validation (functionName ++ " not allowed in arithmetic".toList))
  modify fun state ↦ { state with functions := state.functions.insert field }
  return .name field

def isLetter (c : Char) : Bool := ('a' ≤ c && c ≤ 'z') || ('A' ≤ c && c ≤ 'Z')

def isDigit (c : Char) : Bool := '0' ≤ c && c ≤ '9'

def char (c : Char) : Peg Char Unit := do
  let _ ← literal [c]

def spaces : Peg Char Text := spanning (· = ' ')

def operatorOf (c : Char) (operator : Operator) : Peg Char Operator := do
  char c
  return operator

/-- `spaces operator spaces`, a rule with a parameter. -/
def spaced {α : Type} (e : Peg Char α) : Peg Char α := do
  let _ ← spaces
  let value ← e
  let _ ← spaces
  return value

def addSubOperator : Peg Char Operator := spaced (operatorOf '+' .plus <|> operatorOf '-' .minus)

def mulDivOperator : Peg Char Operator :=
  spaced (operatorOf '*' .multiply <|> operatorOf '/' .divide <|> operatorOf '÷' .divide)

/-- `[+-]?[0-9]+\.?[0-9]*` -/
def numericValue : Peg Char Text := text do
  let _ ← opt (satisfy (· ∈ ['+', '-']))
  let _ ← spanning1 isDigit
  let _ ← opt (char '.')
  spanning isDigit

/-- `[a-zA-Z_\.]+` -/
def fieldValue : Peg Char Text := spanning1 fun c ↦ isLetter c || c ∈ ['_', '.']

/-- `[a-zA-Z_0-9]+` -/
def functionName : Peg Char Text := spanning1 fun c ↦ isLetter c || isDigit c || c = '_'

def quotedAggregateParam : Peg Char Unit := do
  char '"'
  let _ ← star (literal ['\\', '"'] <|> ((fun c ↦ [c]) <$> satisfy (· ∉ ['\t', '\n', '"'])))
  char '"'

def rawAggregateParam : Peg Char Unit := do
  let _ ← spanning1 fun c ↦ c ∉ ['(', ')', '\t', '\n', ',', ' ', '"']

def aggregateParam : Peg Char Unit := quotedAggregateParam <|> rawAggregateParam

def functionArgs : Peg Char Unit := do
  aggregateParam
  let _ ← star do
    let _ ← spaces
    char ','
    let _ ← spaces
    aggregateParam

def functionValue : Peg Char (Text × Text) := do
  let name ← functionName
  let arguments ← text do
    char '('
    let _ ← spaces
    let _ ← opt functionArgs
    let _ ← spaces
    char ')'
  return (name, name ++ arguments)

abbrev OperandVisit (F : Type) := Visit (Operand F)

def parens (term : Peg Char (OperandVisit F)) : Peg Char (OperandVisit F) := do
  char '('
  let term ← term
  char ')'
  return term

def primary (term : Peg Char (OperandVisit F)) : Peg Char (OperandVisit F) :=
  visitPrimary <$> spaced (parens term <|> (visitNumericValue config <$> numericValue) <|>
    ((fun value ↦ visitFunctionValue value.1 value.2) <$> functionValue) <|>
    (visitFieldValue config <$> fieldValue))

def mulDiv (term : Peg Char (OperandVisit F)) : Peg Char (Visit (Remaining F)) := do
  let operator ← mulDivOperator
  let primary ← primary config term
  return visitRemaining config operator primary

def factor (term : Peg Char (OperandVisit F)) : Peg Char (OperandVisit F) := do
  let primary ← primary config term
  let remainingMuls ← plus (mulDiv config term)
  return visitTerm primary remainingMuls

def maybeFactor (term : Peg Char (OperandVisit F)) : Peg Char (OperandVisit F) :=
  spaced (factor config term <|> primary config term)

def addSub (term : Peg Char (OperandVisit F)) : Peg Char (Visit (Remaining F)) := do
  let operator ← addSubOperator
  let maybeFactor ← maybeFactor config term
  return visitRemaining config operator maybeFactor

/-- `term`, with parentheses at most so deep. -/
def term : ℕ → Peg Char (OperandVisit F)
  | 0 => failure
  | depth + 1 => do
    let maybeFactor ← maybeFactor config (term depth)
    let remainingAdds ← star (addSub config (term depth))
    return visitTerm maybeFactor remainingAdds

def readEquation (equation : Text) : Option (OperandVisit F) :=
  match term config (equation.length + 1) equation with
  | some (visit, []) => some visit
  | _ => none

/-- What `parse_arithmetic` checks after the visit. Total counts may be mixed with functions. -/
def checkVisited (visitor : VisitorState) : Except ArithmeticError Unit :=
  if (totalCountAlias ∈ visitor.fields ∨ totalTransactionDurationAlias ∈ visitor.fields) ∧
      visitor.functions ≠ [] then
    .ok ()
  else if visitor.fields ≠ [] ∧ visitor.functions ≠ [] then
    .error (.validation "Cannot mix functions and fields in arithmetic".toList)
  else if visitor.terms ≤ 1 then
    .error (.validation "Arithmetic expression must contain at least 2 terms".toList)
  else if visitor.operators = 0 then
    .error (.validation "Arithmetic expression must contain at least 1 operator".toList)
  else .ok ()

/-- `parse_arithmetic`: the operations, the fields and the functions. -/
def parseArithmetic (equation : Text) :
    Except ArithmeticError (Operand F × List Text × List Text) :=
  match readEquation config equation with
  | none => .error (.parse
    "Unable to parse your equation, make sure it is well formed arithmetic")
  | some visit => do
    let (result, visitor) ← visit ⟨0, 0, [], []⟩
    checkVisited visitor
    return (result, visitor.fields, visitor.functions)

end Sentry.Discover.Arithmetic
