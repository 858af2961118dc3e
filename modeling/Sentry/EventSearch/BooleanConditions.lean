import Mathlib.Data.List.Infix

/-!
# Boolean conditions

A query is a list of filters, operators and parenthesised lists. `resolve_boolean_conditions` splits
it at the first `OR`, or if there is none after the first term, and combines the conditions of the
two parts; the conditions on the rows and those on the aggregates are kept apart. Both parts are
shorter, so that it ends (`sizeOf_splitTerms_lt`), except on an empty list.
-/

namespace Sentry.EventSearch

open List

variable {F A C : Type}

inductive SearchBoolean
  | booleanAnd
  | booleanOr
deriving DecidableEq

def SearchBoolean.text : SearchBoolean → String
  | .booleanAnd => "AND"
  | .booleanOr => "OR"

/-- A term of a query. The parser makes no `ParenExpression` without children, it returns the text
instead (`visit_paren_group`). -/
inductive ParsedTerm (F A : Type)
  | searchFilter (filter : F)
  | aggregateFilter (filter : A)
  | operator (operator : SearchBoolean)
  | parenExpression (children : List (ParsedTerm F A))

/-- A condition, or `And` and `Or` of conditions. -/
inductive WhereType (C : Type)
  | condition (condition : C)
  | boolean (operator : SearchBoolean) (conditions : List (WhereType C))

inductive ResolveError
  | invalidSearchQuery (message : String)
  | recursionError

/-- The conversions of filters, each of which may yield no condition. -/
structure QueryBuilder (F A C : Type) where
  formatSearchFilter : F → Option (WhereType C)
  convertAggregateFilterToCondition : A → Option (WhereType C)
  useAggregateConditions : Bool

namespace QueryBuilder

variable (builder : QueryBuilder F A C)

def resolveWhere (terms : List (ParsedTerm F A)) : List (WhereType C) :=
  terms.filterMap fun
    | .searchFilter filter => builder.formatSearchFilter filter
    | _ => none

def resolveHaving (terms : List (ParsedTerm F A)) : List (WhereType C) :=
  if builder.useAggregateConditions then
    terms.filterMap fun
      | .aggregateFilter filter => builder.convertAggregateFilterToCondition filter
      | _ => none
  else []

end QueryBuilder

def ParsedTerm.isOperator : ParsedTerm F A → Bool
  | .operator _ => true
  | _ => false

def ParsedTerm.isOr : ParsedTerm F A → Bool
  | .operator .booleanOr => true
  | _ => false

def ParsedTerm.isAnd : ParsedTerm F A → Bool
  | .operator .booleanAnd => true
  | _ => false

def checkOperators : Option (ParsedTerm F A) → List (ParsedTerm F A) → Except ResolveError Unit
  | some (.operator operator), [] => .error (.invalidSearchQuery
      ("Condition is missing on the right side of '" ++ operator.text ++ "' operator"))
  | _, [] => .ok ()
  | some (.operator previous), .operator operator :: _ => .error (.invalidSearchQuery
      ("Missing condition in between two condition operators: '" ++ previous.text ++ " " ++
        operator.text ++ "'"))
  | none, .operator operator :: _ => .error (.invalidSearchQuery
      ("Condition is missing on the left side of '" ++ operator.text ++ "' operator"))
  | _, term :: rest => checkOperators (some term) rest

def withoutAnds (terms : List (ParsedTerm F A)) : List (ParsedTerm F A) :=
  terms.filter fun term ↦ ¬ term.isAnd

/-- The terms before and after the first `OR`, or else the first term and the others. -/
def splitTerms (terms : List (ParsedTerm F A)) :
    List (ParsedTerm F A) × List (ParsedTerm F A) × SearchBoolean :=
  match terms.findIdx? ParsedTerm.isOr with
  | some index => (terms.take index, terms.drop (index + 1), .booleanOr)
  | none => (terms.take 1, terms.drop 1, .booleanAnd)

def combineConditions (lhs rhs : List (WhereType C)) (operator : SearchBoolean) :
    List (WhereType C) :=
  let combinedConditions := ([lhs, rhs].filter fun conditions ↦ ¬ conditions.isEmpty).map fun
    | [condition] => condition
    | conditions => .boolean .booleanAnd conditions
  match combinedConditions with
  | [] => []
  | [condition] => [condition]
  | conditions => [.boolean operator conditions]

/-- The end of `resolve_boolean_conditions`, with the conditions of both parts. -/
def combineSides (operator : SearchBoolean) (lhs rhs : List (WhereType C) × List (WhereType C)) :
    Except ResolveError (List (WhereType C) × List (WhereType C)) :=
  if operator = .booleanOr ∧ ¬ (lhs.1.isEmpty ∧ rhs.1.isEmpty) ∧ ¬ (lhs.2.isEmpty ∧ rhs.2.isEmpty)
  then .error (.invalidSearchQuery
    "Having an OR between aggregate filters and normal filters is invalid.")
  else .ok (combineConditions lhs.1 rhs.1 operator, combineConditions lhs.2 rhs.2 operator)

theorem sizeOf_lt_of_sublist {α : Type*} [SizeOf α] {list list' : List α}
    (h : list.Sublist list') (hlength : list.length < list'.length) :
    sizeOf list < sizeOf list' := by
  induction h with
  | slnil => exact absurd hlength (lt_irrefl _)
  | @cons l l' a hsublist ih =>
    have hle : sizeOf l ≤ sizeOf l' := by
      rcases hsublist.length_le.lt_or_eq with hlt | heq
      · exact (ih hlt).le
      · rw [hsublist.eq_of_length heq]
    rw [List.cons.sizeOf_spec]
    omega
  | cons_cons a hsublist ih =>
    have hlt := ih (Nat.lt_of_succ_lt_succ hlength)
    rw [List.cons.sizeOf_spec, List.cons.sizeOf_spec]
    omega

variable {terms : List (ParsedTerm F A)}

theorem splitTerms_of_or {index : ℕ} (h : terms.findIdx? ParsedTerm.isOr = some index) :
    splitTerms terms = (terms.take index, terms.drop (index + 1), .booleanOr) := by
  rw [splitTerms, h]

theorem splitTerms_of_noOr (h : terms.findIdx? ParsedTerm.isOr = none) :
    splitTerms terms = (terms.take 1, terms.drop 1, .booleanAnd) := by
  rw [splitTerms, h]

theorem sizeOf_splitTerms_lt (h : 2 ≤ terms.length) :
    sizeOf (splitTerms (withoutAnds terms)).1 < sizeOf terms ∧
      sizeOf (splitTerms (withoutAnds terms)).2.1 < sizeOf terms := by
  have hsublist : (withoutAnds terms).Sublist terms := filter_sublist
  have hlength := hsublist.length_le
  cases hindex : (withoutAnds terms).findIdx? ParsedTerm.isOr with
  | none =>
    rw [splitTerms_of_noOr hindex]
    constructor <;> apply sizeOf_lt_of_sublist (.trans (by simp [take_sublist, tail_sublist]) hsublist) <;>
      simp <;> omega
  | some index =>
    have hlt := (findIdx?_eq_some_iff_findIdx_eq.mp hindex).1
    rw [splitTerms_of_or hindex]
    constructor <;> apply sizeOf_lt_of_sublist (.trans (by simp [take_sublist, drop_sublist]) hsublist) <;>
      simp <;> omega

namespace QueryBuilder

variable (builder : QueryBuilder F A C)

/-- The conditions on the rows, and those on the aggregates. On an empty list the code calls itself
on two empty lists until the interpreter stops it. -/
def resolveBooleanConditions :
    List (ParsedTerm F A) → Except ResolveError (List (WhereType C) × List (WhereType C))
  | [] => .error .recursionError
  | [.parenExpression children] => resolveBooleanConditions children
  | [.searchFilter filter] => .ok (builder.resolveWhere [.searchFilter filter], [])
  | [.aggregateFilter filter] => .ok ([], builder.resolveHaving [.aggregateFilter filter])
  | [.operator _] => .ok ([], [])
  | first :: second :: rest => do
    checkOperators none (first :: second :: rest)
    let lhs ← resolveBooleanConditions (splitTerms (withoutAnds (first :: second :: rest))).1
    let rhs ← resolveBooleanConditions (splitTerms (withoutAnds (first :: second :: rest))).2.1
    combineSides (splitTerms (withoutAnds (first :: second :: rest))).2.2 lhs rhs
termination_by terms => sizeOf terms
decreasing_by
  · simp only [List.cons.sizeOf_spec, ParsedTerm.parenExpression.sizeOf_spec]
    omega
  · exact (sizeOf_splitTerms_lt (by exact Nat.le_add_left 2 _)).1
  · exact (sizeOf_splitTerms_lt (by exact Nat.le_add_left 2 _)).2

/-- `resolve_conditions` of the terms of a query. -/
def resolveConditions (terms : List (ParsedTerm F A)) :
    Except ResolveError (List (WhereType C) × List (WhereType C)) :=
  if terms.any fun term ↦ term matches .parenExpression _ | .operator _ then
    builder.resolveBooleanConditions terms
  else .ok (builder.resolveWhere terms, builder.resolveHaving terms)

end QueryBuilder

end Sentry.EventSearch
