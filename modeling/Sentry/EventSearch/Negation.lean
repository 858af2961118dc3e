import Sentry.EventSearch.FilterRules
import Sentry.EventSearch.SearchVisitor

/-!
# Negated filters of text

A filter of a key of text is negated by `!` before the key, which every rule understands, or by the
operator `!=`. Then a value that is a date, a duration, a size or a number goes to the visitor of
its form, which loses the negation or makes it part of the value. A value keeps its negation exactly
if it has no such form (`negationKept_iff`).
-/

namespace Sentry.EventSearch

open Grammar List
open Library (Peg)
open Library.Peg

/-! ### Statements -/

/-- A key of text: it is no key of numbers, durations, sizes, booleans or dates, and has no
operators. -/
structure IsTextKey (context : SearchContext) (name : Text) : Prop where
  date : isDateKey defaultConfig name = false
  boolean : isBooleanKey defaultConfig name = false
  operator : name ∉ defaultConfig.textOperatorKeys
  numeric : isNumericKey defaultConfig context name = .ok false
  duration : isDurationKey defaultConfig context name = .ok false
  size : isSizeKey context name = .ok false

/-- An unquoted value that is accepted: it is not empty, and its quotes are escaped. -/
structure UnquotedValue (v : Text) : Prop where
  nonempty : v ≠ []
  chars : ∀ c ∈ v, isValueChar c = true
  accepted : ∃ text, visitValue v = .ok text

/-- Both ways of negation give a filter that is the negation of the filter without. -/
structure Negates (context : SearchContext) (k v name : Text) (value : RawValue) : Prop where
  equal : parseSearchQuery defaultConfig context (k ++ ':' :: v) =
    .ok [.filter ⟨name, ['='], value⟩]
  notEqual : parseSearchQuery defaultConfig context (k ++ ':' :: '!' :: '=' :: v) =
    .ok [.filter ⟨name, ['!', '='], value⟩]
  negated : parseSearchQuery defaultConfig context ('!' :: k ++ ':' :: v) =
    .ok [.filter ⟨name, ['!', '='], value⟩]

def NegationKept (context : SearchContext) (k v : Text) : Prop :=
  ∃ name value, Negates context k v name value

/-- What is no list and does not begin with `=` or `!=`, nor is another operator alone. -/
structure IsText (v : Text) : Prop where
  textInList : textInList v = none
  operator : ∀ operator w, Grammar.operator v = some (operator, w) →
    isEquality operator = false ∧ w ≠ []

/-- What is no date, duration, size or number either, and is not followed by other text where there
is a number after an operator. -/
structure IsPlainText (v : Text) : Prop extends IsText v where
  iso8601DateFormat : iso8601DateFormat v = none
  durationFormat : durationFormat v = none
  sizeFormat : sizeFormat v = none
  numericInList : numericInList v = none
  numericValue : numericValue v = none
  numberAfter : ∀ operator w, Grammar.operator v = some (operator, w) →
    Grammar.durationFormat w ≠ none ∨ Grammar.sizeFormat w ≠ none ∨
      ∀ number rest, Grammar.numericValue w = some (number, rest) → rest = []

/-- The condition on a value after a key. -/
def KeepsNegation (v : Text) : TextKeyNode → Prop
  | .explicitTagKey _ => IsText v
  | .searchKey key => key ≠ .key "has".toList ∧ key ≠ .key "is".toList ∧ IsPlainText v

/-! ### Quotes -/

theorem unescapeQuotes_append {read : Text} (h : ∀ c ∈ read, Unmarked c) (rest : Text) :
    unescapeQuotes (read ++ rest) = read ++ unescapeQuotes rest := by
  induction read with
  | nil => rfl
  | cons c read ih =>
    have hc : c ≠ '\\' := by
      rintro rfl
      have hmark := h '\\' mem_cons_self
      revert hmark
      decide
    rw [cons_append, unescapeQuotes, ih fun other hother ↦ h other (mem_cons_of_mem _ hother)]
    · rfl
    · rintro rest rfl -
      exact hc rfl

theorem unescapeQuotes_of_unmarked {v : Text} (h : ∀ c ∈ v, Unmarked c) : unescapeQuotes v = v := by
  have happend := unescapeQuotes_append h []
  rwa [append_nil, show unescapeQuotes [] = [] from rfl, append_nil] at happend

theorem eq_nil_of_unescapeQuotes {v : Text} (h : unescapeQuotes v = []) : v = [] := by
  unfold unescapeQuotes at h
  split at h
  next => nomatch h
  next => nomatch h
  next => rfl

variable {operator : Text}

theorem unescapeQuotes_operator
    (h : operator ∈ [['>', '='], ['<', '='], ['>'], ['<'], ['='], ['!', '=']]) (w : Text) :
    unescapeQuotes (operator ++ w) = operator ++ unescapeQuotes w := by
  simp only [mem_cons, not_mem_nil, or_false] at h
  rcases h with rfl | rfl | rfl | rfl | rfl | rfl <;> rfl

theorem operator_ne_nil (h : operator ∈ [['>', '='], ['<', '='], ['>'], ['<'], ['='], ['!', '=']]) :
    operator ≠ [] := by
  rintro rfl
  revert h
  decide

/-! ### Values -/

theorem searchValue_of_chars {v : Text} (hchars : ∀ c ∈ v, isValueChar c = true)
    (hquote : v.head? ≠ some '"') : searchValue v = some (.value v, []) := by
  have hquoted : quotedValue v = none := by
    by_contra hsome
    obtain ⟨⟨value, rest⟩, h⟩ := Option.ne_none_iff_exists'.mp hsome
    obtain ⟨_, left, hchar, -⟩ := bind_eq_some.mp h
    exact hquote (by rw [char_eq_some hchar]; rfl)
  have hvalue : value v = some (v, []) := by
    have hspanning : spanning isValueChar (v ++ []) = some (v, []) :=
      spanning_append hchars fun _ h ↦ nomatch h
    rwa [List.append_nil] at hspanning
  rw [searchValue, orElse_apply, map_apply, map_apply, hquoted, hvalue]
  rfl

theorem visitValue_eq_ok {v text : Text} (h : visitValue v = .ok text) :
    v.head? ≠ some '"' ∧ quotesEscaped (v.getLastD ' ') ' ' v = true ∧ text = unescapeQuotes v := by
  unfold visitValue at h
  split at h
  next hquotes => exact ⟨hquotes.1, hquotes.2, (Except.ok.inj h).symm⟩
  next => nomatch h

theorem UnquotedValue.visitValue_eq {v : Text} (hv : UnquotedValue v) :
    visitValue v = .ok (unescapeQuotes v) := by
  obtain ⟨text, htext⟩ := hv.accepted
  rw [htext, (visitValue_eq_ok htext).2.2]

theorem UnquotedValue.after_operator {v operator w : Text} (hv : UnquotedValue v)
    (h : Grammar.operator v = some (operator, w)) (hne : w ≠ []) : UnquotedValue w := by
  obtain ⟨hoperator, rfl⟩ := operator_eq_some h
  obtain ⟨text, htext⟩ := hv.accepted
  obtain ⟨-, hescaped, -⟩ := visitValue_eq_ok htext
  refine ⟨hne, fun c hc ↦ hv.chars c (mem_append_right _ hc), unescapeQuotes w, ?_⟩
  obtain ⟨c, rest, rfl⟩ := exists_cons_of_ne_nil hne
  have hlast : (operator ++ c :: rest).getLastD ' ' = (c :: rest).getLastD ' ' := by
    rw [getLastD_eq_getLast?, getLast?_append_of_ne_nil _ hne, getLastD_eq_getLast?]
  -- the last character of an operator does not escape a quote
  have hescaped' : c ≠ '"' ∧ quotesEscaped ((c :: rest).getLastD ' ') ' ' (c :: rest) = true := by
    by_cases hc : c = '"'
    · rw [hc] at hescaped
      simp only [mem_cons, not_mem_nil, or_false] at hoperator
      rcases hoperator with rfl | rfl | rfl | rfl | rfl | rfl <;>
        simp [quotesEscaped] at hescaped
    · refine ⟨hc, ?_⟩
      simp only [mem_cons, not_mem_nil, or_false] at hoperator
      rcases hoperator with rfl | rfl | rfl | rfl | rfl | rfl <;>
        simpa [quotesEscaped, hc] using hescaped
  rw [visitValue, if_pos ⟨fun hhead ↦ hescaped'.1 (Option.some.inj hhead), hescaped'.2⟩]

theorem UnquotedValue.searchValue_eq {v : Text} (hv : UnquotedValue v) :
    searchValue v = some (.value v, []) := by
  obtain ⟨text, htext⟩ := hv.accepted
  exact searchValue_of_chars hv.chars (visitValue_eq_ok htext).1

/-! ### Visits -/

/-- The name of a key. -/
def Grammar.KeyNode.name : KeyNode → Text
  | .key name => name
  | .quotedKey name => name

section Visits

variable {context : SearchContext} {name : Text}

theorem handleBasicFilter_eq (h : IsTextKey context name) (operator : Text) (value : RawValue) :
    handleBasicFilter defaultConfig context name operator value = .ok ⟨name, operator, value⟩ := by
  rw [handleBasicFilter, if_neg (by simp [h.date]), if_neg (by simp [h.boolean]), h.numeric]
  rfl

theorem handleTextFilter_eq (h : IsTextKey context name)
    (hoperator : isEquality operator = true) (value : Text) :
    handleTextFilter defaultConfig context name operator value =
      .ok ⟨name, operator, .string value⟩ := by
  rw [handleTextFilter, if_neg (by simp [hoperator]), handleBasicFilter_eq h]

theorem isEquality_equalityOf (negated : Bool) : isEquality (equalityOf negated) = true := by
  cases negated with
  | true => rfl
  | false => rfl

def withOperator (operator : Option Text) (text : Text) : Text :=
  if isEquality (getOperatorValue operator) then text else getOperatorValue operator ++ text

theorem handleUnitFilter_eq (h : IsTextKey context name) (negated : Bool) (operator : Option Text)
    (value : Text × Text) :
    handleUnitFilter defaultConfig context negated name operator value =
      .ok ⟨name, equalityOf negated, .string (withOperator operator (value.1 ++ value.2))⟩ := by
  rw [handleUnitFilter, handleBasicFilter_eq h, withOperator]
  cases isEquality (getOperatorValue operator) with
  | true => rfl
  | false => rfl

theorem visitSearchKey_eq (key : KeyNode) : visitSearchKey defaultConfig key = .ok key.name := by
  cases key with
  | key | quotedKey => rfl

theorem visitTextKey_searchKey (key : KeyNode) :
    visitTextKey defaultConfig (.searchKey key) = .ok key.name := visitSearchKey_eq key

variable {key : KeyNode}

section

variable (h : IsTextKey context key.name)

include h

theorem visitFilter_date (operator value : Text) :
    visitFilter defaultConfig context (.date key operator value) =
      .ok [.filter ⟨key.name, ['='], .string (pushedBack operator value)⟩] := by
  show (visitDateFilter defaultConfig context key.name operator value >>= _) = _
  rw [visitDateFilter, if_neg (by simp [h.date]), handleBasicFilter_eq h]
  rfl

theorem visitFilter_relDate (value : Text) :
    visitFilter defaultConfig context (.relDate key value) =
      .ok [.filter ⟨key.name, ['='], .string value⟩] := by
  show (visitRelDateFilter defaultConfig context key.name value >>= _) = _
  rw [visitRelDateFilter, if_neg (by simp [h.date]), handleBasicFilter_eq h]
  rfl

theorem visitFilter_duration (negated : Bool) (operator : Option Text) (value : Text × Text) :
    visitFilter defaultConfig context (.duration negated key operator value) =
      .ok [.filter ⟨key.name, equalityOf negated,
        .string (withOperator operator (value.1 ++ value.2))⟩] := by
  show (visitDurationFilter defaultConfig context negated key.name operator value >>= _) = _
  rw [visitDurationFilter, h.duration, h.numeric]
  rw [handleUnitFilter_eq h]
  rfl

theorem visitFilter_size (negated : Bool) (operator : Option Text) (value : Text × Text) :
    visitFilter defaultConfig context (.size negated key operator value) =
      .ok [.filter ⟨key.name, equalityOf negated,
        .string (withOperator operator (value.1 ++ value.2))⟩] := by
  show (visitSizeFilter defaultConfig context negated key.name operator value >>= _) = _
  rw [visitSizeFilter, h.size]
  rw [handleUnitFilter_eq h]
  rfl

theorem visitFilter_boolean (negated : Bool) (value : Text) :
    visitFilter defaultConfig context (.boolean negated key value) =
      .ok [.filter ⟨key.name, equalityOf negated, .string value⟩] := by
  show (visitBooleanFilter defaultConfig context negated key.name value >>= _) = _
  rw [visitBooleanFilter, h.numeric]
  rw [if_neg (by simp [h.boolean]), handleBasicFilter_eq h]
  rfl

theorem visitFilter_numeric (negated : Bool) (operator : Option Text) (value : NumericNode) :
    visitFilter defaultConfig context (.numeric negated key operator value) =
      .ok [.filter ⟨key.name, equalityOf negated,
        .string (withOperator operator value.toText)⟩] := by
  have htext : value.number ++ value.suffix = value.toText := rfl
  show (visitNumericFilter defaultConfig context negated key.name operator value >>= _) = _
  rw [visitNumericFilter, h.numeric]
  show ((if key.name ∈ defaultConfig.textOperatorKeys then _ else _) >>= _) = _
  rw [if_neg h.operator, handleBasicFilter_eq h, htext, withOperator]
  simp only [h.operator, or_false, Bool.false_eq_true, if_false]
  cases isEquality (getOperatorValue operator) with
  | true => rfl
  | false => rfl

end

variable {tokens : List Token}

/-- A list of numbers is refused, or compared with `IN` or `NOT IN`. -/
theorem visitFilter_numericIn (h : IsTextKey context key.name) (negated : Bool)
    (values : NumericNode × List (Option NumericNode))
    (htokens : visitFilter defaultConfig context (.numericIn negated key values) = .ok tokens) :
    ∃ value, tokens = [.filter ⟨key.name, handleNegation negated ['I', 'N'], value⟩] := by
  rw [visitFilter, visitSearchKey_eq] at htokens
  cases hvalues : processList values with
  | error raised =>
    rw [hvalues] at htokens
    nomatch htokens
  | ok items =>
    rw [hvalues] at htokens
    change (visitNumericInFilter defaultConfig context negated key.name items >>= _) = _ at htokens
    rw [visitNumericInFilter, h.numeric] at htokens
    rw [handleBasicFilter_eq h] at htokens
    exact ⟨_, (Except.ok.inj htokens).symm⟩

variable {node : TextKeyNode}

theorem visitFilter_textIn (hname : visitTextKey defaultConfig node = .ok name)
    (h : IsTextKey context name) (negated : Bool) (values : ValueNode × List (Option ValueNode))
    (htokens : visitFilter defaultConfig context (.textIn negated node values) = .ok tokens) :
    ∃ value, tokens = [.filter ⟨name, handleNegation negated ['I', 'N'], value⟩] := by
  rw [visitFilter, hname] at htokens
  cases hvalues : processList values with
  | error raised =>
    rw [hvalues] at htokens
    nomatch htokens
  | ok items =>
    rw [hvalues] at htokens
    change (visitTextInFilter defaultConfig context negated name _ >>= _) = _ at htokens
    rw [visitTextInFilter, handleBasicFilter_eq h] at htokens
    exact ⟨_, (Except.ok.inj htokens).symm⟩

def textOperator (negated : Bool) (operator : Option Text) : Text :=
  if isEquality (getOperatorValue operator) then
    handleNegation negated (getOperatorValue operator)
  else equalityOf negated

theorem isEquality_handleNegation (h : isEquality operator = true)
    (negated : Bool) : isEquality (handleNegation negated operator) = true := by
  have hoperator : operator = ['='] ∨ operator = ['!', '='] := by
    simpa [isEquality] using h
  rcases hoperator with rfl | rfl
  · exact isEquality_equalityOf negated
  · cases negated with
    | true => rfl
    | false => rfl

theorem visitFilter_text (hname : visitTextKey defaultConfig node = .ok name)
    (h : IsTextKey context name) (negated : Bool) (operator : Option Text) {w : Text}
    (hw : UnquotedValue w) :
    visitFilter defaultConfig context (.text negated node operator (.value w)) =
      .ok [.filter ⟨name, textOperator negated operator,
        .string (withOperator operator (unescapeQuotes w))⟩] := by
  rw [visitFilter, hname]
  rw [visitSearchValue, hw.visitValue_eq]
  show (visitTextFilter defaultConfig context negated name operator (.value w) _ >>= _) = _
  have hempty : (ValueNode.value w).isEmpty = false := by
    obtain ⟨c, rest, rfl⟩ := exists_cons_of_ne_nil hw.nonempty
    rfl
  rw [visitTextFilter, if_neg (by simp [hempty]), textOperator, withOperator]
  cases hoperator : isEquality (getOperatorValue operator) with
  | true =>
    rw [if_neg (by simp), handleTextFilter_eq h (isEquality_handleNegation hoperator negated)]
    rfl
  | false =>
    have hequality : handleNegation negated ['='] = equalityOf negated := rfl
    rw [if_pos ⟨by simp, h.operator⟩, hequality,
      handleTextFilter_eq h (isEquality_equalityOf negated)]
    rfl

theorem visitFilter_text_nil (context : SearchContext)
    (hname : visitTextKey defaultConfig node = .ok name) (negated : Bool)
    (operator : Option Text) : ∃ message,
      visitFilter defaultConfig context (.text negated node operator (.value [])) =
        .error (.invalidSearchQuery message) := by
  refine ⟨"Empty string after '".toList ++ name ++ ":'".toList, ?_⟩
  rw [visitFilter, hname]
  rfl

/-- A value after `has:` is refused, and with the default configuration every filter of `is`. -/
theorem visitFilter_has_value (negated : Bool) (value : ValueNode) :
    visitFilter defaultConfig context (.has negated (.inr value)) ≠ .ok tokens := by
  rw [visitFilter]
  cases visitSearchValue value with
  | error | ok => exact fun heq ↦ nomatch heq

theorem visitFilter_is (negated : Bool) (value : ValueNode) :
    visitFilter defaultConfig context (.is negated value) ≠ .ok tokens := by
  rw [visitFilter]
  cases visitSearchValue value with
  | error | ok => exact fun heq ↦ nomatch heq

end Visits

/-! ### Queries that are a filter -/

section Queries

variable {context : SearchContext} {s rest : Text} {node : FilterNode}

section

variable (hs : ∀ c ∈ s, isValueChar c = true) (hcolon : ':' ∈ s)

include hs hcolon

theorem parseSearchQuery_of_filter_nil (h : filter s = some (node, [])) :
    parseSearchQuery defaultConfig context s = visitFilter defaultConfig context node := by
  rw [parseSearchQuery, search_of_filter_nil hs hcolon h]
  show visitTerms defaultConfig context [.filter node] = _
  rw [visitTerms, visitTerms, visitTerm]
  cases visitFilter defaultConfig context node with
  | error raised => rfl
  | ok tokens => exact congrArg Except.ok (append_nil tokens)

theorem visitFilter_of_parseSearchQuery (h : filter s = some (node, rest)) {tokens : List Token}
    (hparse : parseSearchQuery defaultConfig context s = .ok tokens) :
    ∃ first others, visitFilter defaultConfig context node = .ok first ∧
      tokens = first ++ others := by
  rw [parseSearchQuery] at hparse
  cases hsearch : search s with
  | none =>
    rw [hsearch] at hparse
    cases hparse
  | some terms =>
    obtain ⟨others, rfl⟩ := search_of_filter hs hcolon h hsearch
    rw [hsearch] at hparse
    change visitTerms defaultConfig context (.filter node :: others) = _ at hparse
    rw [visitTerms, visitTerm] at hparse
    cases hfirst : visitFilter defaultConfig context node with
    | error raised =>
      rw [hfirst] at hparse
      cases hparse
    | ok first =>
      rw [hfirst] at hparse
      cases hothers : visitTerms defaultConfig context others with
      | error raised =>
        rw [hothers] at hparse
        cases hparse
      | ok left =>
        rw [hothers] at hparse
        exact ⟨first, left, rfl, (Except.ok.inj hparse).symm⟩

theorem eq_of_parseSearchQuery (h : filter s = some (node, rest)) {given visited : SearchFilter}
    (hparse : parseSearchQuery defaultConfig context s = .ok [.filter given])
    (hvisit : visitFilter defaultConfig context node = .ok [.filter visited]) :
    given = visited := by
  obtain ⟨first, others, hfirst, htokens⟩ :=
    visitFilter_of_parseSearchQuery hs hcolon h hparse
  rw [hvisit] at hfirst
  rw [← Except.ok.inj hfirst] at htokens
  exact Token.filter.inj (List.cons.inj htokens).1

end

end Queries

/-! ### Rules after a key -/

section Rules

variable {context : SearchContext} {key : KeyNode} {node : TextKeyNode} {name v rest : Text}
  {filterNode : FilterNode} {negated : Bool}

abbrev GivesText (context : SearchContext) (filterNode : FilterNode) (name operator text : Text) :
    Prop :=
  visitFilter defaultConfig context filterNode = .ok [.filter ⟨name, operator, .string text⟩]

theorem withOperator_of_not_equality (h : isEquality operator = false)
    (text : Text) : withOperator (some operator) text = operator ++ text := by
  rw [withOperator, show getOperatorValue (some operator) = operator from rfl, h]
  rfl

theorem withOperator_of_equality (h : isEquality operator = true)
    (text : Text) : withOperator (some operator) text = text := by
  rw [withOperator, show getOperatorValue (some operator) = operator from rfl, h]
  rfl

theorem gives_of_compared {α : Type} {print : α → Text} {form : Peg Char α}
    {nodeOf : Option Text → α → FilterNode} (hv : IsText v) (hreads : Reads Unmarked form)
    (hprints : Prints [] print form)
    (hrest : ∀ operator w value rest, Grammar.operator v = some (operator, w) →
      form w = some (value, rest) → rest = [])
    (hvisit : ∀ operator value, GivesText context (nodeOf operator value) name
      (equalityOf negated) (withOperator operator (print value)))
    (hnone : form v = none) (h : compared form nodeOf v = some (filterNode, rest)) :
    rest = [] ∧ GivesText context filterNode name (equalityOf negated) (unescapeQuotes v) := by
  cases hoperator : operator v with
  | none =>
    rw [compared_of_none hoperator, map_apply, hnone] at h
    nomatch h
  | some result =>
    obtain ⟨operator, w⟩ := result
    rw [compared_of_some hoperator, map_apply] at h
    obtain ⟨⟨value, left⟩, hform, heq⟩ := Option.map_eq_some_iff.mp h
    obtain ⟨rfl, rfl⟩ := Prod.mk.inj heq
    obtain rfl := hrest operator w value left hoperator hform
    obtain ⟨read, hread, hunmarked⟩ := hreads hform
    have hw := hprints hform
    rw [append_nil] at hread hw
    have hprint : print value = w := hw.symm
    obtain ⟨hmem, rfl⟩ := operator_eq_some hoperator
    refine ⟨rfl, ?_⟩
    rw [GivesText, hvisit, withOperator_of_not_equality (hv.operator operator w hoperator).1,
      hprint, unescapeQuotes_operator hmem, unescapeQuotes_of_unmarked (hread ▸ hunmarked)]

theorem gives_of_formFilters (h : IsTextKey context key.name) (hv : IsPlainText v)
    (hchars : ∀ c ∈ v, isValueChar c = true)
    (hfilter : formFilters negated key v = some (filterNode, rest)) :
    rest = [] ∧ GivesText context filterNode key.name (equalityOf negated) (unescapeQuotes v) := by
  have hwhole {α : Type} {print : α → Text} {form : Peg Char α} (hform : ValueRule print form) :
      ∀ operator w value rest, Grammar.operator v = some (operator, w) →
        form w = some (value, rest) → rest = [] := by
    intro operator w value rest hoperator hvalue
    have hw := (operator_eq_some hoperator).2
    exact (hform.whole (fun c hc ↦ hchars c (hw ▸ mem_append_right _ hc)) hvalue).1
  simp only [formFilters, orElse_apply, Option.or_eq_some_iff] at hfilter
  rcases hfilter with hduration | ⟨hduration, hsize | ⟨hsize, hboolean | ⟨-, hin | ⟨-, hnumeric⟩⟩⟩⟩
  · exact gives_of_compared hv.toIsText valueRule_durationFormat.reads
      valueRule_durationFormat.prints (hwhole valueRule_durationFormat)
      (visitFilter_duration h negated) hv.durationFormat hduration
  · exact gives_of_compared hv.toIsText valueRule_sizeFormat.reads valueRule_sizeFormat.prints
      (hwhole valueRule_sizeFormat) (visitFilter_size h negated) hv.sizeFormat hsize
  · rw [map_apply] at hboolean
    obtain ⟨⟨value, left⟩, hvalue, heq⟩ := Option.map_eq_some_iff.mp hboolean
    obtain ⟨rfl, rfl⟩ := Prod.mk.inj heq
    obtain ⟨hleft, hprint, hunmarked⟩ := valueRule_booleanValue.whole hchars hvalue
    refine ⟨hleft, ?_⟩
    rw [GivesText, visitFilter_boolean h, unescapeQuotes_of_unmarked hunmarked, ← hprint]
    rfl
  · rw [map_apply, hv.numericInList] at hin
    exact (Option.some_ne_none _ hin.symm).elim
  · refine gives_of_compared hv.toIsText reads_numericValue prints_numericValue ?_
      (visitFilter_numeric h negated) hv.numericValue hnumeric
    intro operator w value left hoperator hvalue
    rw [compared_of_some hoperator, map_apply, Option.map_eq_none_iff] at hduration hsize
    rcases hv.numberAfter operator w hoperator with hform | hform | hform
    · exact absurd hduration hform
    · exact absurd hsize hform
    · exact hform value left hvalue

theorem gives_of_dateFilters (h : IsTextKey context key.name) (hv : IsPlainText v)
    (hchars : ∀ c ∈ v, isValueChar c = true)
    (hfilter : dateFilters key v = some (filterNode, rest)) :
    rest = [] ∧ GivesText context filterNode key.name ['='] (unescapeQuotes v) := by
  simp only [dateFilters, orElse_apply, Option.or_eq_some_iff] at hfilter
  rcases hfilter with hdate | ⟨-, hspecific | ⟨-, hrel⟩⟩
  · obtain ⟨operator, w, hoperator, hdate⟩ := bind_eq_some.mp hdate
    obtain ⟨value, left, hvalue, hpure⟩ := bind_eq_some.mp hdate
    obtain ⟨rfl, rfl⟩ := hpure
    have hne : operator ≠ ['='] := by
      rintro rfl
      have hequality := (hv.operator ['='] w hoperator).1
      revert hequality
      decide
    obtain ⟨hmem, rfl⟩ := operator_eq_some hoperator
    obtain ⟨hleft, hprint, hunmarked⟩ := valueRule_iso8601DateFormat.whole
      (fun c hc ↦ hchars c (mem_append_right _ hc)) hvalue
    refine ⟨hleft, ?_⟩
    rw [GivesText, visitFilter_date h, pushedBack, if_pos hne, unescapeQuotes_operator hmem,
      unescapeQuotes_of_unmarked hunmarked, ← hprint]
    rfl
  · rw [map_apply, hv.iso8601DateFormat] at hspecific
    exact (Option.some_ne_none _ hspecific.symm).elim
  · rw [map_apply] at hrel
    obtain ⟨⟨value, left⟩, hvalue, heq⟩ := Option.map_eq_some_iff.mp hrel
    obtain ⟨rfl, rfl⟩ := Prod.mk.inj heq
    obtain ⟨hleft, hprint, hunmarked⟩ := valueRule_relDateFormat.whole hchars hvalue
    refine ⟨hleft, ?_⟩
    rw [GivesText, visitFilter_relDate h, unescapeQuotes_of_unmarked hunmarked, ← hprint]
    rfl

theorem gives_of_textFilters (hname : visitTextKey defaultConfig node = .ok name)
    (h : IsTextKey context name) (hv : UnquotedValue v) (htext : IsText v) (negated : Bool) :
    ∃ filterNode, textFilters negated node v = some (filterNode, []) ∧
      GivesText context filterNode name (equalityOf negated) (unescapeQuotes v) := by
  have hfilter : textFilters negated node v =
      compared searchValue (FilterNode.text negated node) v := by
    rw [textFilters, orElse_apply, map_apply, htext.textInList]
    rfl
  cases hoperator : operator v with
  | none =>
    refine ⟨.text negated node none (.value v), ?_, visitFilter_text hname h negated none hv⟩
    rw [hfilter, compared_of_none hoperator, map_apply, hv.searchValue_eq]
    rfl
  | some result =>
    obtain ⟨operator, w⟩ := result
    obtain ⟨hequality, hne⟩ := htext.operator operator w hoperator
    have hw := hv.after_operator hoperator hne
    refine ⟨.text negated node (some operator) (.value w), ?_, ?_⟩
    · rw [hfilter, compared_of_some hoperator, map_apply, hw.searchValue_eq]
      rfl
    · obtain ⟨hmem, rfl⟩ := operator_eq_some hoperator
      rw [GivesText, visitFilter_text hname h negated (some operator) hw,
        withOperator_of_not_equality hequality, unescapeQuotes_operator hmem, textOperator,
        show getOperatorValue (some operator) = operator from rfl, hequality]
      rfl

end Rules

/-! ### Rules after an operator -/

section AfterOperator

variable {v operator w : Text} (negated : Bool) (key : KeyNode) (node : TextKeyNode)

theorem dateFilters_of_operator (h : Grammar.operator v = some (operator, w)) :
    dateFilters key v = (FilterNode.date key operator <$> iso8601DateFormat) w := by
  have hno := noForm_of_operator h
  rw [dateFilters, orElse_apply, orElse_apply, bind_of_some h, map_apply, map_apply,
    hno.iso8601DateFormat, hno.relDateFormat]
  exact Option.or_none

theorem formFilters_of_operator (h : Grammar.operator v = some (operator, w)) :
    formFilters negated key v =
      ((FilterNode.duration negated key (some operator) <$> durationFormat) w).or
        (((FilterNode.size negated key (some operator) <$> sizeFormat) w).or
          ((FilterNode.numeric negated key (some operator) <$> numericValue) w)) := by
  have hno := noForm_of_operator h
  rw [formFilters, orElse_apply, orElse_apply, orElse_apply, orElse_apply, map_apply, map_apply,
    hno.booleanValue, hno.numericInList, compared_of_some h, compared_of_some h, compared_of_some h]
  rfl

theorem textFilters_of_operator (h : Grammar.operator v = some (operator, w)) :
    textFilters negated node v =
      (FilterNode.text negated node (some operator) <$> searchValue) w := by
  have hno := noForm_of_operator h
  rw [textFilters, orElse_apply, map_apply, hno.textInList, compared_of_some h]
  rfl

theorem textFilters_not_equal (hv : UnquotedValue v) :
    textFilters negated node ('!' :: '=' :: v) =
      some (.text negated node (some ['!', '=']) (.value v), []) := by
  rw [textFilters_of_operator negated node (operator_not_equal v), map_apply, hv.searchValue_eq]
  rfl

theorem formFilters_of_list (rest : Text) : formFilters negated key ('[' :: rest) =
    (FilterNode.numericIn negated key <$> numericInList) ('[' :: rest) := by
  have hoperator : Grammar.operator ('[' :: rest) = none := rfl
  have hduration : durationFormat ('[' :: rest) = none := rfl
  have hsize : sizeFormat ('[' :: rest) = none := rfl
  have hboolean : booleanValue ('[' :: rest) = none := rfl
  have hnumeric : numericValue ('[' :: rest) = none := rfl
  rw [formFilters, orElse_apply, orElse_apply, orElse_apply, orElse_apply,
    compared_of_none hoperator, compared_of_none hoperator, compared_of_none hoperator, map_apply,
    map_apply, map_apply, map_apply, map_apply, hduration, hsize, hboolean, hnumeric]
  exact Option.or_none

theorem text_of_withOperator {text : Text}
    (hmem : operator ∈ [['>', '='], ['<', '='], ['>'], ['<'], ['='], ['!', '=']])
    (htext : ∀ c ∈ text, Unmarked c)
    (heq : withOperator (some operator) text = operator ++ unescapeQuotes w) :
    isEquality operator = false ∧ text = unescapeQuotes w := by
  cases hequality : isEquality operator with
  | true =>
    rw [withOperator_of_equality hequality] at heq
    obtain ⟨c, operator, rfl⟩ := exists_cons_of_ne_nil (operator_ne_nil hmem)
    have hunmarked := htext c (heq ▸ mem_append_left _ mem_cons_self)
    have hmarked : ∀ operator ∈ [['>', '='], ['<', '='], ['>'], ['<'], ['='], ['!', '=']],
        ∀ c ∈ operator, ¬ Unmarked c := by decide
    exact absurd hunmarked (hmarked _ hmem c mem_cons_self)
  | false =>
    rw [withOperator_of_not_equality hequality] at heq
    exact ⟨rfl, append_cancel_left heq⟩

end AfterOperator

/-! ### Negation is kept -/

theorem valueChars_of_written {node : TextKeyNode} {k : Text} (h : WrittenText node k) :
    ∀ c ∈ k, isValueChar c = true := by
  have hkey {node : KeyNode} {read : Text} (hread : Written node read) :
      ∀ c ∈ read, isValueChar c = true := by
    cases hread with
    | key hne hname => exact fun c hc ↦ isValueChar_of_isKeyChar (hname c hc)
    | @quotedKey name hne hname =>
      intro c hc
      rw [cons_append, mem_cons, mem_append, mem_singleton] at hc
      rcases hc with rfl | hc | rfl
      · rfl
      · rcases Bool.or_eq_true_iff.mp (hname c hc) with hchar | hcolon
        · exact isValueChar_of_isKeyChar hchar
        · rw [of_decide_eq_true hcolon]
          rfl
      · rfl
  cases h with
  | searchKey hread => exact hkey hread
  | @explicitTagKey node read hread =>
    have htags : ∀ c ∈ "tags[".toList, isValueChar c = true := by decide
    intro c hc
    rw [mem_append, mem_append, mem_singleton] at hc
    rcases hc with (hc | hc) | rfl
    · exact htags c hc
    · exact hkey hread c hc
    · rfl

section Kept

variable {context : SearchContext} {key : KeyNode} {node : TextKeyNode} {name k v : Text}

theorem query_chars (hk : WrittenText node k) (hv : UnquotedValue v) (negated : Bool)
    (operator : Text) (hoperator : ∀ c ∈ operator, isValueChar c = true) :
    (∀ c ∈ negationText negated ++ (k ++ ':' :: (operator ++ v)), isValueChar c = true) ∧
      ':' ∈ negationText negated ++ (k ++ ':' :: (operator ++ v)) := by
  have hnegation : ∀ c ∈ negationText negated, isValueChar c = true := by
    cases negated with
    | true => decide
    | false => decide
  refine ⟨?_, by simp⟩
  rw [forall_mem_append, forall_mem_append, forall_mem_cons, forall_mem_append]
  exact ⟨hnegation, valueChars_of_written hk, rfl, hoperator, hv.chars⟩

theorem parse_of_gives {s : Text} (hs : (∀ c ∈ s, isValueChar c = true) ∧ ':' ∈ s)
    {filterNode : FilterNode} {operator text : Text} (h : filter s = some (filterNode, []))
    (hgives : GivesText context filterNode name operator text) :
    parseSearchQuery defaultConfig context s = .ok [.filter ⟨name, operator, .string text⟩] := by
  rw [parseSearchQuery_of_filter_nil hs.1 hs.2 h, hgives]

theorem gives_not_equal (hname : visitTextKey defaultConfig node = .ok name)
    (h : IsTextKey context name) (hv : UnquotedValue v) :
    GivesText context (.text false node (some ['!', '=']) (.value v)) name ['!', '=']
      (unescapeQuotes v) :=
  visitFilter_text hname h false (some ['!', '=']) hv

section

variable (hk : Written key k) (h : IsTextKey context key.name) (hv : UnquotedValue v)
  (hhas : key ≠ .key "has".toList) (his : key ≠ .key "is".toList) (hplain : IsPlainText v)

include hk h hv hhas his hplain

theorem filter_plainText (negated : Bool) : ∃ filterNode,
      filter (negationText negated ++ (k ++ ':' :: v)) = some (filterNode, []) ∧
        GivesText context filterNode key.name (equalityOf negated) (unescapeQuotes v) := by
  rw [filter_of_searchKey hk, keywordFilters_eq_none hk hhas his, Option.none_or]
  cases hdates : (if negated then none else dateFilters key v) with
  | some result =>
    cases negated with
    | true => nomatch hdates
    | false =>
      obtain ⟨hrest, hgives⟩ := gives_of_dateFilters h hplain hv.chars hdates
      exact ⟨result.1, congrArg some (Prod.ext rfl hrest), hgives⟩
  | none =>
    cases hforms : formFilters negated key v with
    | some result =>
      obtain ⟨hrest, hgives⟩ := gives_of_formFilters h hplain hv.chars hforms
      exact ⟨result.1, congrArg some (Prod.ext rfl hrest), hgives⟩
    | none =>
      exact gives_of_textFilters (visitTextKey_searchKey key) h hv hplain.toIsText negated

theorem negationKept_of_plainText : NegationKept context k v := by
  have hwritten := WrittenText.searchKey hk
  have hnothing : ∀ c ∈ ([] : Text), isValueChar c = true := fun _ hc ↦ absurd hc not_mem_nil
  obtain ⟨filterNode, hfilter, hgives⟩ := filter_plainText hk h hv hhas his hplain false
  obtain ⟨negatedNode, hnegated, hgives'⟩ := filter_plainText hk h hv hhas his hplain true
  have hnotEqual : filter (k ++ ':' :: '!' :: '=' :: v) =
      some (.text false (.searchKey key) (some ['!', '=']) (.value v), []) := by
    have hrules := filter_of_searchKey hk false ('!' :: '=' :: v)
    rw [keywordFilters_eq_none hk hhas his, dateFilters_of_operator key (operator_not_equal v),
      formFilters_of_operator false key (operator_not_equal v), textFilters_not_equal false _ hv,
      map_apply, map_apply, map_apply, map_apply, hplain.iso8601DateFormat, hplain.durationFormat,
      hplain.sizeFormat, hplain.numericValue] at hrules
    exact hrules
  refine ⟨key.name, .string (unescapeQuotes v), ?_, ?_, ?_⟩
  · exact parse_of_gives (query_chars hwritten hv false [] hnothing) hfilter hgives
  · have hoperator : ∀ c ∈ ['!', '='], isValueChar c = true := by decide
    exact parse_of_gives (query_chars hwritten hv false ['!', '='] hoperator) hnotEqual
      (gives_not_equal (visitTextKey_searchKey key) h hv)
  · exact parse_of_gives (query_chars hwritten hv true [] hnothing) hnegated hgives'

end

end Kept

/-! ### Negation is lost -/

theorem eq_none_of_or {α β : Type*} {form : Option α} {node : α → β} {others found : Option β}
    (hrules : found = (form.map node).or others) (h : ∀ result, found ≠ some (node result)) :
    form = none ∧ found = others := by
  cases form with
  | none => exact ⟨rfl, hrules⟩
  | some result => exact absurd hrules (h result)

section Lost

variable {context : SearchContext} {key : KeyNode} {node : TextKeyNode} {name k v : Text}

variable {value : RawValue} {filterNode : FilterNode} {name' rest : Text} {visited : SearchFilter}

theorem Negates.eq_notEqual (hkept : Negates context k v name value) (hk : WrittenText node k)
    (hv : UnquotedValue v) (h : filter (k ++ ':' :: '!' :: '=' :: v) = some (filterNode, rest))
    (hvisit : visitFilter defaultConfig context filterNode = .ok [.filter visited]) :
    visited = ⟨name, ['!', '='], value⟩ := by
  have hs := query_chars hk hv false ['!', '='] (by decide)
  exact (eq_of_parseSearchQuery hs.1 hs.2 h hkept.notEqual hvisit).symm

theorem Negates.eq_negated (hkept : Negates context k v name value) (hk : WrittenText node k)
    (hv : UnquotedValue v)
    (h : filter (negationText true ++ (k ++ ':' :: v)) = some (filterNode, rest))
    (hvisit : visitFilter defaultConfig context filterNode = .ok [.filter visited]) :
    visited = ⟨name, ['!', '='], value⟩ := by
  have hs := query_chars hk hv true [] fun _ hc ↦ absurd hc not_mem_nil
  exact (eq_of_parseSearchQuery hs.1 hs.2 h hkept.negated hvisit).symm

/-! #### Keys of both kinds -/

section

variable (hkept : Negates context k v name value) (hk : WrittenText node k)
  (hname : visitTextKey defaultConfig node = .ok name')

include hkept hk hname

theorem Negates.textInList_eq_none (h : IsTextKey context name') (hv : UnquotedValue v)
    (hfilter : filter (negationText true ++ (k ++ ':' :: v)) = textFilters true node v) :
    textInList v = none := by
  by_contra hsome
  obtain ⟨⟨values, left⟩, hlist⟩ := Option.ne_none_iff_exists'.mp hsome
  have hs := query_chars hk hv true [] fun _ hc ↦ absurd hc not_mem_nil
  have hnode : filter (negationText true ++ (k ++ ':' :: v)) =
      some (.textIn true node values, left) := by
    rw [hfilter, textFilters, orElse_apply, map_apply, hlist]
    rfl
  obtain ⟨first, others, hfirst, htokens⟩ :=
    visitFilter_of_parseSearchQuery hs.1 hs.2 hnode hkept.negated
  obtain ⟨given, rfl⟩ := visitFilter_textIn hname h true values hfirst
  have hoperator := congrArg SearchFilter.operator (Token.filter.inj (List.cons.inj htokens).1)
  revert hoperator
  show ['!', '='] ≠ handleNegation true ['I', 'N']
  decide

theorem Negates.ne_nil (hv : UnquotedValue v)
    (hfilter : filter (negationText true ++ (k ++ ':' :: v)) = textFilters true node v)
    {operator w : Text} (hoperator : Grammar.operator v = some (operator, w)) : w ≠ [] := by
  rintro rfl
  have hs := query_chars hk hv true [] fun _ hc ↦ absurd hc not_mem_nil
  have hnode : filter (negationText true ++ (k ++ ':' :: v)) =
      some (.text true node (some operator) (.value []), []) := by
    rw [hfilter, textFilters_of_operator true node hoperator]
    rfl
  obtain ⟨first, others, hfirst, -⟩ :=
    visitFilter_of_parseSearchQuery hs.1 hs.2 hnode hkept.negated
  obtain ⟨message, herror⟩ := visitFilter_text_nil context hname true (some operator)
  rw [herror] at hfirst
  nomatch hfirst

theorem Negates.not_isEquality (h : IsTextKey context name')
    (hv : UnquotedValue v) (hvalue : value = .string (unescapeQuotes v))
    (hfilter : filter (negationText true ++ (k ++ ':' :: v)) = textFilters true node v)
    {operator w : Text} (hoperator : Grammar.operator v = some (operator, w)) :
    isEquality operator = false := by
  by_contra hequality
  rw [Bool.not_eq_false] at hequality
  have hw := hv.after_operator hoperator (hkept.ne_nil hk hname hv hfilter hoperator)
  have hnode : filter (negationText true ++ (k ++ ':' :: v)) =
      some (.text true node (some operator) (.value w), []) := by
    rw [hfilter, textFilters_of_operator true node hoperator, map_apply, hw.searchValue_eq]
    rfl
  have hvisited := hkept.eq_negated hk hv hnode (visitFilter_text hname h true (some operator) hw)
  have htext := RawValue.string.inj ((congrArg SearchFilter.value hvisited).trans hvalue)
  obtain ⟨hmem, rfl⟩ := operator_eq_some hoperator
  rw [withOperator_of_equality hequality, unescapeQuotes_operator hmem] at htext
  have hlength := congrArg List.length htext
  rw [length_append] at hlength
  exact operator_ne_nil hmem (length_eq_zero_iff.mp (by omega))

end

/-! #### Keys of the grammar -/

variable (hk : Written key k) (h : IsTextKey context key.name) (hv : UnquotedValue v)

include hk h hv

section

variable (hkept : Negates context k v name value)

include hkept

/-- After `!=`, a value that has a form loses its negation. -/
theorem Negates.forms_eq_none :
    iso8601DateFormat v = none ∧ durationFormat v = none ∧ sizeFormat v = none ∧
      numericValue v = none := by
  have hlost : ∀ filterNode rest given, filter (k ++ ':' :: '!' :: '=' :: v) =
      some (filterNode, rest) → ¬ GivesText context filterNode key.name ['='] given := by
    intro filterNode rest given hfilter hgives
    have hvisited := hkept.eq_notEqual (.searchKey hk) hv hfilter hgives
    have hoperator := congrArg SearchFilter.operator hvisited
    revert hoperator
    show ['='] ≠ ['!', '=']
    decide
  have hrules := filter_of_searchKey hk false ('!' :: '=' :: v)
  rw [if_neg Bool.false_ne_true, dateFilters_of_operator key (operator_not_equal v),
    formFilters_of_operator false key (operator_not_equal v), map_apply, map_apply, map_apply,
    map_apply, Option.or_assoc, Option.or_assoc] at hrules
  -- Each of the rules for a form would be the first to read the value.
  obtain ⟨hdate, hrules⟩ := eq_none_of_or hrules fun _ hfilter ↦
    hlost _ _ _ hfilter (visitFilter_date h _ _)
  obtain ⟨hduration, hrules⟩ := eq_none_of_or hrules fun _ hfilter ↦
    hlost _ _ _ hfilter (visitFilter_duration h false _ _)
  obtain ⟨hsize, hrules⟩ := eq_none_of_or hrules fun _ hfilter ↦
    hlost _ _ _ hfilter (visitFilter_size h false _ _)
  obtain ⟨hnumeric, -⟩ := eq_none_of_or hrules fun _ hfilter ↦
    hlost _ _ _ hfilter (visitFilter_numeric h false _ _)
  exact ⟨hdate, hduration, hsize, hnumeric⟩

theorem Negates.filter_not_equal :
    filter (k ++ ':' :: '!' :: '=' :: v) =
      (keywordFilters (k ++ ':' :: '!' :: '=' :: v)).or
        (some (.text false (.searchKey key) (some ['!', '=']) (.value v), [])) := by
  obtain ⟨hdate, hduration, hsize, hnumeric⟩ := hkept.forms_eq_none hk h hv
  have hrules := filter_of_searchKey hk false ('!' :: '=' :: v)
  rw [if_neg Bool.false_ne_true, dateFilters_of_operator key (operator_not_equal v),
    formFilters_of_operator false key (operator_not_equal v), map_apply, map_apply, map_apply,
    map_apply, hdate, hduration, hsize, hnumeric, textFilters_not_equal false _ hv] at hrules
  exact hrules

/-- After `has:!=` and `is:!=` the value is refused. -/
theorem Negates.not_keyword : key ≠ .key "has".toList ∧ key ≠ .key "is".toList := by
  have hs := query_chars (.searchKey hk) hv false ['!', '='] (by decide)
  have hfilter := hkept.filter_not_equal hk h hv
  constructor
  · rintro rfl
    cases hk with
    | key hne hname =>
      have hhas := hfilter.trans (congrArg (fun result ↦ Option.or result _) (keywordFilters_has v))
      obtain ⟨first, others, hfirst, -⟩ :=
        visitFilter_of_parseSearchQuery hs.1 hs.2 hhas hkept.notEqual
      exact visitFilter_has_value _ _ hfirst
  · rintro rfl
    cases hk with
    | key hne hname =>
      have his := hfilter.trans (congrArg (fun result ↦ Option.or result _) (keywordFilters_is v))
      obtain ⟨first, others, hfirst, -⟩ :=
        visitFilter_of_parseSearchQuery hs.1 hs.2 his hkept.notEqual
      exact visitFilter_is _ _ hfirst

theorem Negates.value_eq : value = .string (unescapeQuotes v) := by
  obtain ⟨hhas, his⟩ := hkept.not_keyword hk h hv
  have hkeywords : keywordFilters (k ++ ':' :: '!' :: '=' :: v) = none :=
    keywordFilters_eq_none hk hhas his false ('!' :: '=' :: v)
  have hfilter := hkept.filter_not_equal hk h hv
  rw [hkeywords] at hfilter
  have hvisited := hkept.eq_notEqual (.searchKey hk) hv hfilter
    (gives_not_equal (visitTextKey_searchKey key) h hv)
  exact (congrArg SearchFilter.value hvisited).symm

theorem Negates.filter_negated :
    filter (negationText true ++ (k ++ ':' :: v)) =
      (formFilters true key v).or (textFilters true (.searchKey key) v) := by
  obtain ⟨hhas, his⟩ := hkept.not_keyword hk h hv
  rw [filter_of_searchKey hk, keywordFilters_eq_none hk hhas his]
  rfl

theorem Negates.numericInList_eq_none : numericInList v = none := by
  by_contra hsome
  obtain ⟨rest, rfl⟩ := head_of_list hsome
  obtain ⟨⟨values, left⟩, hlist⟩ := Option.ne_none_iff_exists'.mp hsome
  have hs := query_chars (.searchKey hk) hv true [] fun _ hc ↦ absurd hc not_mem_nil
  have hnode := hkept.filter_negated hk h hv
  rw [formFilters_of_list, map_apply, hlist] at hnode
  obtain ⟨first, others, hfirst, htokens⟩ :=
    visitFilter_of_parseSearchQuery hs.1 hs.2 hnode hkept.negated
  obtain ⟨given, rfl⟩ := visitFilter_numericIn h true values hfirst
  have hoperator := congrArg SearchFilter.operator (Token.filter.inj (List.cons.inj htokens).1)
  revert hoperator
  show ['!', '='] ≠ handleNegation true ['I', 'N']
  decide

theorem Negates.textInList_eq_none_of_key : textInList v = none := by
  by_contra hsome
  obtain ⟨rest, hrest⟩ := head_of_list hsome
  have hforms : formFilters true key v = none := by
    rw [hrest, formFilters_of_list, map_apply, ← hrest, hkept.numericInList_eq_none hk h hv]
    rfl
  have hfilter := hkept.filter_negated hk h hv
  rw [hforms, Option.none_or] at hfilter
  exact hsome (hkept.textInList_eq_none (.searchKey hk) (visitTextKey_searchKey key) h hv hfilter)

theorem Negates.text_after_operator {operator w text operator' left : Text}
    (hoperator : Grammar.operator v = some (operator, w))
    (hnode : filter (negationText true ++ (k ++ ':' :: v)) = some (filterNode, left))
    (hgives : GivesText context filterNode key.name operator' (withOperator (some operator) text))
    (hunmarked : ∀ c ∈ text, Unmarked c) :
    isEquality operator = false ∧ text = unescapeQuotes w := by
  obtain ⟨hmem, hw⟩ := operator_eq_some hoperator
  have hvisited := hkept.eq_negated (.searchKey hk) hv hnode hgives
  have htext := RawValue.string.inj
    ((congrArg SearchFilter.value hvisited).trans (hkept.value_eq hk h hv))
  rw [hw, unescapeQuotes_operator hmem] at htext
  exact text_of_withOperator hmem hunmarked htext

theorem Negates.operator_kept {operator w : Text}
    (hoperator : Grammar.operator v = some (operator, w)) :
    isEquality operator = false ∧ w ≠ [] ∧ (durationFormat w ≠ none ∨ sizeFormat w ≠ none ∨
      ∀ number rest, numericValue w = some (number, rest) → rest = []) := by
  have hchars : ∀ c ∈ w, isValueChar c = true := fun c hc ↦
    hv.chars c ((operator_eq_some hoperator).2 ▸ mem_append_right _ hc)
  have hfilter := hkept.filter_negated hk h hv
  rw [formFilters_of_operator true key hoperator, map_apply, map_apply, map_apply] at hfilter
  cases hduration : durationFormat w with
  | some result =>
    rw [hduration] at hfilter
    obtain ⟨-, hprint, hunmarked⟩ := valueRule_durationFormat.whole hchars hduration
    obtain ⟨hequality, -⟩ := hkept.text_after_operator hk h hv hoperator hfilter
      (visitFilter_duration h true _ _) (hprint ▸ hunmarked)
    refine ⟨hequality, ?_, .inl (Option.some_ne_none _)⟩
    rintro rfl
    nomatch hduration
  | none =>
    rw [hduration] at hfilter
    cases hsize : sizeFormat w with
    | some result =>
      rw [hsize] at hfilter
      obtain ⟨-, hprint, hunmarked⟩ := valueRule_sizeFormat.whole hchars hsize
      obtain ⟨hequality, -⟩ := hkept.text_after_operator hk h hv hoperator hfilter
        (visitFilter_size h true _ _) (hprint ▸ hunmarked)
      refine ⟨hequality, ?_, .inr (.inl (Option.some_ne_none _))⟩
      rintro rfl
      nomatch hsize
    | none =>
      rw [hsize] at hfilter
      cases hnumeric : numericValue w with
      | some result =>
        rw [hnumeric] at hfilter
        obtain ⟨read, hread, hunmarked⟩ := reads_numericValue hnumeric
        have htext : result.1.toText = read :=
          append_cancel_right ((prints_numericValue hnumeric).symm.trans hread)
        obtain ⟨hequality, hrest⟩ := hkept.text_after_operator hk h hv hoperator hfilter
          (visitFilter_numeric h true _ _) (htext ▸ hunmarked)
        refine ⟨hequality, ?_, .inr (.inr ?_)⟩
        · rintro rfl
          nomatch hnumeric
        · intro number rest hnumber
          obtain rfl := Option.some.inj hnumber
          -- what follows the number is missing from the value
          rw [hread, unescapeQuotes_append hunmarked, htext] at hrest
          exact eq_nil_of_unescapeQuotes (self_eq_append_right.mp hrest)
      | none =>
        rw [hnumeric] at hfilter
        have hname := visitTextKey_searchKey key
        exact ⟨hkept.not_isEquality (.searchKey hk) hname h hv (hkept.value_eq hk h hv) hfilter
            hoperator,
          hkept.ne_nil (.searchKey hk) hname hv hfilter hoperator,
          .inr (.inr fun _ _ hnumber ↦ nomatch hnumber)⟩

theorem Negates.isPlainText : IsPlainText v := by
  obtain ⟨hdate, hduration, hsize, hnumeric⟩ := hkept.forms_eq_none hk h hv
  have hoperator : ∀ operator w, Grammar.operator v = some (operator, w) → _ :=
    fun operator w ↦ hkept.operator_kept hk h hv
  exact ⟨⟨hkept.textInList_eq_none_of_key hk h hv,
      fun operator w hw ↦ ⟨(hoperator operator w hw).1, (hoperator operator w hw).2.1⟩⟩,
    hdate, hduration, hsize, hkept.numericInList_eq_none hk h hv, hnumeric,
    fun operator w hw ↦ (hoperator operator w hw).2.2⟩

end

end Lost

/-! ### Keys of tags -/

section Tags

variable {context : SearchContext} {key : KeyNode} {name read v : Text} {value : RawValue}

def tagText (read : Text) : Text := "tags[".toList ++ read ++ [']']

theorem negationKept_of_isText (hk : Written key read)
    (hname : visitTextKey defaultConfig (.explicitTagKey key) = .ok name)
    (h : IsTextKey context name) (hv : UnquotedValue v) (htext : IsText v) :
    NegationKept context (tagText read) v := by
  have hwritten := WrittenText.explicitTagKey hk
  have hnothing : ∀ c ∈ ([] : Text), isValueChar c = true := fun _ hc ↦ absurd hc not_mem_nil
  have hoperator : ∀ c ∈ ['!', '='], isValueChar c = true := by decide
  have hfilter (negated : Bool) (t : Text) := filter_of_explicitTagKey hk negated t
  obtain ⟨filterNode, htextFilter, hgives⟩ := gives_of_textFilters hname h hv htext false
  obtain ⟨negatedNode, hnegated, hgives'⟩ := gives_of_textFilters hname h hv htext true
  refine ⟨name, .string (unescapeQuotes v), ?_, ?_, ?_⟩
  · exact parse_of_gives (query_chars hwritten hv false [] hnothing)
      ((hfilter false v).trans htextFilter) hgives
  · exact parse_of_gives (query_chars hwritten hv false ['!', '='] hoperator)
      ((hfilter false _).trans (textFilters_not_equal false _ hv)) (gives_not_equal hname h hv)
  · exact parse_of_gives (query_chars hwritten hv true [] hnothing)
      ((hfilter true v).trans hnegated) hgives'

theorem Negates.isText (hkept : Negates context (tagText read) v name value) (hk : Written key read)
    {name' : Text} (hname : visitTextKey defaultConfig (.explicitTagKey key) = .ok name')
    (h : IsTextKey context name') (hv : UnquotedValue v) : IsText v := by
  have hwritten := WrittenText.explicitTagKey hk
  have hfilter := filter_of_explicitTagKey hk true v
  have hvisited := hkept.eq_notEqual hwritten hv
    ((filter_of_explicitTagKey hk false _).trans (textFilters_not_equal false _ hv))
    (gives_not_equal hname h hv)
  have hvalue : value = .string (unescapeQuotes v) := (congrArg SearchFilter.value hvisited).symm
  exact ⟨hkept.textInList_eq_none hwritten hname h hv hfilter, fun operator w hoperator ↦
    ⟨hkept.not_isEquality hwritten hname h hv hvalue hfilter hoperator,
      hkept.ne_nil hwritten hname hv hfilter hoperator⟩⟩

end Tags

/-! ### Main result -/

/-- A value keeps its negation exactly if it is text for the rules after its key. -/
theorem negationKept_iff (context : SearchContext) {k v name : Text} {node : TextKeyNode}
    (hk : textKey k = some (node, [])) (hname : visitTextKey defaultConfig node = .ok name)
    (h : IsTextKey context name) (hv : UnquotedValue v) :
    NegationKept context k v ↔ KeepsNegation v node := by
  cases written_of_textKey hk with
  | explicitTagKey hread =>
    constructor
    · rintro ⟨_, _, hkept⟩
      exact hkept.isText hread hname h hv
    · exact negationKept_of_isText hread hname h hv
  | @searchKey key _ hread =>
    have hkey : key.name = name := Except.ok.inj ((visitTextKey_searchKey key).symm.trans hname)
    rw [← hkey] at h
    constructor
    · rintro ⟨_, _, hkept⟩
      obtain ⟨hhas, his⟩ := hkept.not_keyword hread h hv
      exact ⟨hhas, his, hkept.isPlainText hread h hv⟩
    · rintro ⟨hhas, his, hplain⟩
      exact negationKept_of_plainText hread h hv hhas his hplain

/-- A query builder that has no types. -/
def untyped : SearchContext := ⟨fun _ ↦ .ok none, fun _ ↦ .ok none, 0, []⟩

theorem isTextKey_foo : IsTextKey untyped "foo".toList :=
  ⟨by decide, by decide, by decide, rfl, rfl, rfl⟩

theorem negationKept_iff_bar :
    NegationKept untyped "foo".toList "bar".toList ↔
      KeepsNegation "bar".toList (.searchKey (.key "foo".toList)) :=
  negationKept_iff untyped rfl rfl isTextKey_foo ⟨by decide, by decide, "bar".toList, rfl⟩

/-- What is not `5m`, is read as `5m`. -/
theorem not_negationKept :
    ¬ ∀ (context : SearchContext) (k v name : Text) (node : TextKeyNode),
      textKey k = some (node, []) → visitTextKey defaultConfig node = .ok name →
        IsTextKey context name → UnquotedValue v → NegationKept context k v := by
  intro h
  obtain ⟨name, value, hkept⟩ := h untyped "foo".toList "5m".toList "foo".toList
    (.searchKey (.key "foo".toList)) rfl rfl isTextKey_foo
    ⟨by decide, by decide, "5m".toList, rfl⟩
  have hlost : parseSearchQuery defaultConfig untyped
      ("foo".toList ++ ':' :: '!' :: '=' :: "5m".toList) =
        .ok [.filter ⟨"foo".toList, ['='], .string "5m".toList⟩] := by
    rfl
  have htokens := Except.ok.inj (hlost.symm.trans hkept.notEqual)
  have hoperator := congrArg SearchFilter.operator (Token.filter.inj (List.cons.inj htokens).1)
  revert hoperator
  show ['='] ≠ ['!', '=']
  decide

end Sentry.EventSearch
