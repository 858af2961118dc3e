import Sentry.EventSearch.SearchVisitor

/-!
# Searches fail in the declared way

A visitor is declared to raise `InvalidSearchQuery` or to give tokens with converted values
(`Declares`). All visitors of filters are, except for dates out of range and for relative dates
without an operator on aggregates that are no dates (`Overflows`, `LeavesNode`). A query comes out
in the declared way exactly if such filters are hidden by one that is refused before
(`declared_iff`).
-/

namespace Sentry.EventSearch

open Grammar

/-! ### Statements -/

def RawValue.Converted : RawValue → Prop
  | .string _ | .number _ | .datetime _ => True
  | .strings texts => texts ≠ []
  | .numbers values => values ≠ []
  | .node _ => False

mutual

def Token.Converted : Token → Prop
  | .filter filter => filter.value.Converted
  | .aggregate filter => filter.value.Converted
  | .paren children => AllConverted children
  | .operator _ | .string _ => True

def AllConverted : List Token → Prop
  | [] => True
  | token :: tokens => token.Converted ∧ AllConverted tokens

end

/-- A visitor gives what is said, or raises `InvalidSearchQuery`. -/
def Declares {α : Type} (P : α → Prop) : Visit α → Prop
  | .ok value => P value
  | .error (.invalidSearchQuery _) => True
  | .error .visitationError => False

section Conditions

variable (config : SearchConfig) (context : SearchContext)

def Overflows : FilterNode → Prop
  | .specificDate key value => ∃ name, visitSearchKey config key = .ok name ∧
    isDateKey config name = true ∧ parseDatetimeValue value = .error .overflowError
  | .relDate key value => ∃ name, visitSearchKey config key = .ok name ∧
    isDateKey config name = true ∧ parseDatetimeRange context.now value = .error .overflowError
  | .aggregateRelDate _ key _ value => ∃ name, visitAggregateKey config key = .ok name ∧
    isDateAggregate config name = true ∧
    parseDatetimeRange context.now value = .error .overflowError
  | _ => False

/-- A relative date is compared with `=`, of an aggregate that is no date. -/
def LeavesNode : FilterNode → Prop
  | .aggregateRelDate negated key operator _ => ∃ name, visitAggregateKey config key = .ok name ∧
    isDateAggregate config name = false ∧
    handleNegation negated (getOperatorValue operator) = ['=']
  | _ => False

def RefusesFilter (node : FilterNode) : Prop :=
  ∃ message, visitFilter config context node = .error (.invalidSearchQuery message)

end Conditions

mutual

def filtersOf : TermNode → List FilterNode
  | .filter filter => [filter]
  | .parenGroup _ terms => allFiltersOf terms
  | .booleanOperator _ | .freeText _ => []

def allFiltersOf : List TermNode → List FilterNode
  | [] => []
  | term :: terms => filtersOf term ++ allFiltersOf terms

end

/-- The condition on the filters of a query: before a date that is out of range, and anywhere beside
a node that is left, a filter is refused. -/
def HidesDefects (config : SearchConfig) (context : SearchContext) (nodes : List FilterNode) :
    Prop :=
  (∀ before node after, nodes = before ++ node :: after → Overflows config context node →
    ∃ earlier ∈ before, RefusesFilter config context earlier) ∧
  ((∃ node ∈ nodes, LeavesNode config node) → ∃ other ∈ nodes, RefusesFilter config context other)

/-! ### Declared visitors -/

variable {α β : Type} {P : α → Prop} {Q : β → Prop} {config : SearchConfig}
  {context : SearchContext}

variable {f : α → Visit β}

theorem Declares.bind {x : Visit α} (hx : Declares P x)
    (hf : ∀ value, P value → Declares Q (f value)) : Declares Q (x >>= f) := by
  match x, hx with
  | .ok value, hvalue => exact hf value hvalue
  | .error (.invalidSearchQuery message), _ => trivial

theorem Declares.mono {P' : α → Prop} {x : Visit α} (hx : Declares P x)
    (h : ∀ value, P value → P' value) : Declares P' x := by
  match x, hx with
  | .ok value, hvalue => exact h value hvalue
  | .error (.invalidSearchQuery message), _ => trivial

theorem Declares.then {x : Visit α} (hx : Declares (fun _ ↦ True) x)
    (hf : ∀ value, Declares Q (f value)) : Declares Q (x >>= f) :=
  hx.bind fun value _ ↦ hf value

theorem declares_lookedUp (x : Except Text α) : Declares (fun _ ↦ True) (lookedUp x) := by
  cases x with
  | ok | error => trivial

theorem declares_isDurationKey (key : Text) :
    Declares (fun _ ↦ True) (isDurationKey config context key) := by
  unfold isDurationKey
  split
  next => trivial
  next => exact (declares_lookedUp _).then fun _ ↦ trivial

theorem declares_isNumericKey (key : Text) :
    Declares (fun _ ↦ True) (isNumericKey config context key) := by
  unfold isNumericKey
  split
  next => trivial
  next =>
    refine (declares_lookedUp _).then fun fieldType ↦ ?_
    split
    next => trivial
    next => exact declares_isDurationKey key

theorem declares_isSizeKey (key : Text) : Declares (fun _ ↦ True) (isSizeKey context key) :=
  (declares_lookedUp _).then fun _ ↦ trivial

theorem declares_visitSearchKey (node : KeyNode) :
    Declares (fun _ ↦ True) (visitSearchKey config node) := by
  unfold visitSearchKey
  cases node with
  | key | quotedKey =>
    dsimp only
    split <;> trivial

theorem declares_visitTextKey (node : TextKeyNode) :
    Declares (fun _ ↦ True) (visitTextKey config node) := by
  cases node with
  | explicitTagKey key => exact (declares_visitSearchKey key).then fun _ ↦ trivial
  | searchKey key => exact declares_visitSearchKey key

theorem declares_processList (items : α × List (Option α)) :
    Declares (fun items ↦ items ≠ []) (processList items) := by
  unfold processList
  split
  next => trivial
  next => exact List.cons_ne_nil _ _

theorem declares_visitAggregateKey (node : AggregateNode) :
    Declares (fun _ ↦ True) (visitAggregateKey config node) := by
  unfold visitAggregateKey
  split
  next => exact ((declares_processList _).mono fun _ _ ↦ trivial).then fun _ ↦ trivial
  next => trivial

theorem declares_visitSearchValue (node : ValueNode) :
    Declares (fun _ ↦ True) (visitSearchValue node) := by
  cases node with
  | quotedValue text => trivial
  | value text =>
    show Declares _ (visitValue text)
    unfold visitValue
    split
    all_goals trivial

/-! ### Conversions -/

/-- A conversion raises nothing but `InvalidQuery`. -/
def Catches (x : Conversion α) : Prop := x ≠ .error .overflowError

theorem declares_orInvalidSearchQuery {x : Conversion α} (h : Catches x) :
    Declares (fun _ ↦ True) (orInvalidSearchQuery x) := by
  match x, h with
  | .ok value, _ => trivial
  | .error (.invalidQuery message), _ => trivial
  | .error .overflowError, h => exact absurd rfl h

theorem catches_parseNumericValue (value suffix : Text) :
    Catches (parseNumericValue value suffix) := by
  unfold parseNumericValue invalidQuery Catches
  split
  next => simp
  next =>
    split
    next => simp
    next => split <;> simp

theorem catches_parseDuration (value interval : Text) : Catches (parseDuration value interval) := by
  unfold parseDuration invalidQuery Catches
  split
  next => simp
  next =>
    split
    next => simp
    next => split <;> simp

theorem catches_parseSize (value size : Text) : Catches (parseSize value size) := by
  unfold parseSize invalidQuery Catches
  split
  next => simp
  next =>
    dsimp only
    split <;> simp

theorem catches_parsePercentage (value : Text) : Catches (parsePercentage value) := by
  unfold parsePercentage invalidQuery Catches
  split <;> simp

theorem catches_parseDatetimeString (value : Text) : Catches (parseDatetimeString value) := by
  unfold parseDatetimeString invalidQuery Catches
  split
  next => simp
  next => split <;> simp

/-! ### Filters -/

abbrev FilterConverted (filter : SearchFilter) : Prop := filter.value.Converted

theorem declares_handleBasicFilter (key operator : Text) {value : RawValue} (h : value.Converted) :
    Declares FilterConverted (handleBasicFilter config context key operator value) := by
  unfold handleBasicFilter
  split
  next => trivial
  next =>
    split
    next => trivial
    next =>
      refine (declares_isNumericKey key).then fun numeric ↦ ?_
      split
      next => trivial
      next => exact h

theorem declares_handleTextFilter (key operator value : Text) :
    Declares FilterConverted (handleTextFilter config context key operator value) := by
  unfold handleTextFilter
  split
  all_goals exact declares_handleBasicFilter _ _ trivial

theorem declares_handleNumericFilter (key operator value suffix : Text) :
    Declares FilterConverted (handleNumericFilter config context key operator value suffix) := by
  refine (declares_isNumericKey key).then fun numeric ↦ ?_
  split
  next =>
    exact (declares_orInvalidSearchQuery (catches_parseNumericValue _ _)).then fun _ ↦ trivial
  next => exact declares_handleTextFilter _ _ _

theorem declares_visitDateFilter (key operator value : Text) :
    Declares FilterConverted (visitDateFilter config context key operator value) := by
  unfold visitDateFilter
  split
  next => exact (declares_orInvalidSearchQuery (catches_parseDatetimeString _)).then fun _ ↦ trivial
  next => exact declares_handleBasicFilter _ _ trivial

section

variable (negated : Bool) (key : Text) (operator : Option Text) (value : Text × Text)

include negated key operator value

theorem declares_handleUnitFilter :
    Declares FilterConverted (handleUnitFilter config context negated key operator value) :=
  declares_handleBasicFilter _ _ trivial

theorem declares_visitDurationFilter :
    Declares FilterConverted (visitDurationFilter config context negated key operator value) := by
  refine (declares_isDurationKey key).then fun duration ↦ ?_
  split
  next => exact (declares_orInvalidSearchQuery (catches_parseDuration _ _)).then fun _ ↦ trivial
  next =>
    refine (declares_isNumericKey key).then fun numeric ↦ ?_
    split
    next => exact declares_handleNumericFilter _ _ _ _
    next => exact declares_handleUnitFilter _ _ _ _

theorem declares_visitSizeFilter :
    Declares FilterConverted (visitSizeFilter config context negated key operator value) := by
  refine (declares_isSizeKey key).then fun size ↦ ?_
  split
  next => exact (declares_orInvalidSearchQuery (catches_parseSize _ _)).then fun _ ↦ trivial
  next => exact declares_handleUnitFilter _ _ _ _

end

theorem declares_visitBooleanFilter (negated : Bool) (key value : Text) :
    Declares FilterConverted (visitBooleanFilter config context negated key value) := by
  refine (declares_isNumericKey key).then fun numeric ↦ ?_
  split
  next => exact declares_handleNumericFilter _ _ _ _
  next =>
    split
    next =>
      dsimp only
      split
      next => trivial
      next => split <;> trivial
    next => exact declares_handleBasicFilter _ _ trivial

theorem declares_mapM (hf : ∀ value, Declares (fun _ ↦ True) (f value))
    {values : List α} (h : values ≠ []) :
    Declares (fun results ↦ results ≠ []) (values.mapM f) := by
  have hall : ∀ values : List α, Declares (fun _ ↦ True) (values.mapM f) := by
    intro values
    induction values with
    | nil => trivial
    | cons value values ih =>
      rw [List.mapM_cons]
      exact (hf value).then fun _ ↦ ih.then fun _ ↦ trivial
  cases values with
  | nil => exact absurd rfl h
  | cons value values =>
    rw [List.mapM_cons]
    exact (hf value).then fun _ ↦ (hall values).then fun _ ↦ List.cons_ne_nil _ _

theorem declares_visitNumericInFilter (negated : Bool) (key : Text) {values : List NumericNode}
    (h : values ≠ []) :
    Declares FilterConverted (visitNumericInFilter config context negated key values) := by
  refine (declares_isNumericKey key).then fun numeric ↦ ?_
  split
  next =>
    exact (declares_mapM (fun _ ↦ declares_orInvalidSearchQuery (catches_parseNumericValue _ _))
      h).bind fun _ hresults ↦ hresults
  next => exact declares_handleBasicFilter _ _ (by simpa [RawValue.Converted] using h)

theorem declares_visitNumericFilter (negated : Bool) (key : Text) (operator : Option Text)
    (value : NumericNode) :
    Declares FilterConverted (visitNumericFilter config context negated key operator value) := by
  refine (declares_isNumericKey key).then fun numeric ↦ ?_
  dsimp only
  split
  next => exact declares_handleNumericFilter _ _ _ _
  next =>
    split
    all_goals exact declares_handleBasicFilter _ _ trivial

theorem declares_visitTextFilter (negated : Bool) (key : Text) (operator : Option Text)
    (node : ValueNode) (value : Text) :
    Declares FilterConverted (visitTextFilter config context negated key operator node value) := by
  unfold visitTextFilter
  dsimp only
  split
  next => trivial
  next =>
    split
    all_goals exact declares_handleTextFilter _ _ _

theorem declares_visitIsFilter (negated : Bool) (value : Text)
    (h : ∀ translator ∈ config.isFilterTranslation, translator.2.2.Converted) :
    Declares FilterConverted (visitIsFilter config negated value) := by
  unfold visitIsFilter
  split
  next => trivial
  next =>
    split
    next => trivial
    next =>
      split
      next => trivial
      next key raw hlookup =>
        obtain ⟨before, after, htranslation, -⟩ := List.lookup_eq_some_iff.mp hlookup
        refine h (value, key, raw) ?_
        rw [htranslation]
        exact List.mem_append_right _ List.mem_cons_self

abbrev AggregateConverted (filter : AggregateFilter) : Prop := filter.value.Converted

theorem declares_visitAggregateDurationFilter (negated : Bool) (key : Text)
    (operator : Option Text) (value : Text × Text) : Declares AggregateConverted
      (visitAggregateDurationFilter context negated key operator value) := by
  refine (declares_lookedUp _).then fun resultType ↦
    (declares_orInvalidSearchQuery ?_).then fun _ ↦ trivial
  split
  next => exact catches_parseDuration _ _
  next => exact catches_parseNumericValue _ _

theorem declares_visitAggregatePercentageFilter (negated : Bool) (key : Text)
    (operator : Option Text) (value : Text) : Declares AggregateConverted
      (visitAggregatePercentageFilter context negated key operator value) := by
  refine (declares_lookedUp _).then fun resultType ↦ ?_
  split
  next => exact (declares_orInvalidSearchQuery (catches_parsePercentage _)).then fun _ ↦ trivial
  next => trivial

theorem declares_visitAggregateDateFilter (negated : Bool) (key : Text)
    (operator : Option Text) (value : Text) : Declares AggregateConverted
      (visitAggregateDateFilter config negated key operator value) := by
  unfold visitAggregateDateFilter
  split
  next => exact (declares_orInvalidSearchQuery (catches_parseDatetimeString _)).then fun _ ↦ trivial
  next => trivial

/-! ### Defects -/

theorem Declares.filter {x : Visit SearchFilter} (h : Declares FilterConverted x) :
    Declares AllConverted (do let filter ← x; return [Token.filter filter]) :=
  h.bind fun _ hfilter ↦ ⟨hfilter, trivial⟩

theorem Declares.filters {x : Visit (List SearchFilter)}
    (h : Declares (fun filters ↦ AllConverted (filters.map Token.filter)) x) :
    Declares AllConverted (do let filters ← x; return filters.map Token.filter) :=
  h.bind fun _ hfilters ↦ hfilters

theorem Declares.aggregate {x : Visit AggregateFilter} (h : Declares AggregateConverted x) :
    Declares AllConverted (do let filter ← x; return [Token.aggregate filter]) :=
  h.bind fun _ hfilter ↦ ⟨hfilter, trivial⟩

theorem declares_specificDate (key : KeyNode) (value : Text)
    (hoverflows : ¬ Overflows config context (.specificDate key value)) :
    Declares AllConverted (visitFilter config context (.specificDate key value)) := by
  show Declares AllConverted (visitSearchKey config key >>= _)
  match hname : visitSearchKey config key, declares_visitSearchKey key with
  | .error (.invalidSearchQuery message), _ => trivial
  | .ok name, _ =>
    refine Declares.filters ?_
    unfold visitSpecificDateFilter
    split
    next hdate =>
      have hcatches : Catches (parseDatetimeValue value) :=
        fun heq ↦ hoverflows ⟨name, hname, hdate, heq⟩
      exact (declares_orInvalidSearchQuery hcatches).then fun _ ↦ ⟨trivial, trivial, trivial⟩
    next =>
      have hvalue : (RawValue.string value).Converted := trivial
      exact (declares_handleBasicFilter name ['='] hvalue).bind
        fun _ hfilter ↦ ⟨hfilter, trivial⟩

theorem declares_relDate (key : KeyNode) (value : Text)
    (hoverflows : ¬ Overflows config context (.relDate key value)) :
    Declares AllConverted (visitFilter config context (.relDate key value)) := by
  show Declares AllConverted (visitSearchKey config key >>= _)
  match hname : visitSearchKey config key, declares_visitSearchKey key with
  | .error (.invalidSearchQuery message), _ => trivial
  | .ok name, _ =>
    refine Declares.filter ?_
    unfold visitRelDateFilter
    split
    next hdate =>
      have hcatches : Catches (parseDatetimeRange context.now value) :=
        fun heq ↦ hoverflows ⟨name, hname, hdate, heq⟩
      exact (declares_orInvalidSearchQuery hcatches).then fun _ ↦ trivial
    next => exact declares_handleBasicFilter _ _ trivial

theorem declares_aggregateRelDate (negated : Bool) (key : AggregateNode)
    (operator : Option Text) (value : Text)
    (hoverflows : ¬ Overflows config context (.aggregateRelDate negated key operator value))
    (hleaves : ¬ LeavesNode config (.aggregateRelDate negated key operator value)) :
    Declares AllConverted
      (visitFilter config context (.aggregateRelDate negated key operator value)) := by
  show Declares AllConverted (visitAggregateKey config key >>= _)
  match hname : visitAggregateKey config key, declares_visitAggregateKey key with
  | .error (.invalidSearchQuery message), _ => trivial
  | .ok name, _ =>
    refine Declares.aggregate ?_
    unfold visitAggregateRelDateFilter
    dsimp only
    split
    next hdate =>
      have hcatches : Catches (parseDatetimeRange context.now value) :=
        fun heq ↦ hoverflows ⟨name, hname, hdate, heq⟩
      exact (declares_orInvalidSearchQuery hcatches).then fun _ ↦ trivial
    next hdate =>
      have hoperator : handleNegation negated (getOperatorValue operator) ≠ ['='] :=
        fun heq ↦ hleaves ⟨name, hname, Bool.eq_false_iff.mpr hdate, heq⟩
      rw [if_pos hoperator]
      trivial

variable {node : FilterNode}

theorem declares_visitFilter
    (htranslation : ∀ translator ∈ config.isFilterTranslation, translator.2.2.Converted)
    (hoverflows : ¬ Overflows config context node) (hleaves : ¬ LeavesNode config node) :
    Declares AllConverted (visitFilter config context node) := by
  cases node with
  | date key operator value =>
    exact (declares_visitSearchKey key).then fun _ ↦ (declares_visitDateFilter _ _ _).filter
  | specificDate key value => exact declares_specificDate key value hoverflows
  | relDate key value => exact declares_relDate key value hoverflows
  | duration negated key operator value =>
    exact (declares_visitSearchKey key).then fun _ ↦ (declares_visitDurationFilter _ _ _ _).filter
  | size negated key operator value =>
    exact (declares_visitSearchKey key).then fun _ ↦ (declares_visitSizeFilter _ _ _ _).filter
  | boolean negated key value =>
    exact (declares_visitSearchKey key).then fun _ ↦ (declares_visitBooleanFilter _ _ _).filter
  | numericIn negated key values =>
    exact (declares_visitSearchKey key).then fun _ ↦ (declares_processList values).bind
      fun _ hvalues ↦ (declares_visitNumericInFilter _ _ hvalues).filter
  | numeric negated key operator value =>
    exact (declares_visitSearchKey key).then fun _ ↦ (declares_visitNumericFilter _ _ _ _).filter
  | aggregateDuration negated key operator value =>
    exact (declares_visitAggregateKey key).then fun _ ↦
      (declares_visitAggregateDurationFilter _ _ _ _).aggregate
  | aggregatePercentage negated key operator value =>
    exact (declares_visitAggregateKey key).then fun _ ↦
      (declares_visitAggregatePercentageFilter _ _ _ _).aggregate
  | aggregateNumeric negated key operator value =>
    exact (declares_visitAggregateKey key).then fun _ ↦ Declares.aggregate
      ((declares_orInvalidSearchQuery (catches_parseNumericValue _ _)).then fun _ ↦ trivial)
  | aggregateSize negated key operator value =>
    exact (declares_visitAggregateKey key).then fun _ ↦ Declares.aggregate
      ((declares_orInvalidSearchQuery (catches_parseSize _ _)).then fun _ ↦ trivial)
  | aggregateDate negated key operator value =>
    exact (declares_visitAggregateKey key).then fun _ ↦
      (declares_visitAggregateDateFilter _ _ _ _).aggregate
  | aggregateRelDate negated key operator value =>
    exact declares_aggregateRelDate negated key operator value hoverflows hleaves
  | has negated key =>
    cases key with
    | inl key => exact (declares_visitSearchKey key).then fun _ ↦ ⟨trivial, trivial⟩
    | inr value => exact (declares_visitSearchValue value).then fun _ ↦ trivial
  | is negated value =>
    exact (declares_visitSearchValue value).then fun _ ↦
      (declares_visitIsFilter _ _ htranslation).filter
  | textIn negated key values =>
    exact (declares_visitTextKey key).then fun _ ↦ (declares_processList values).bind
      fun _ hvalues ↦ (declares_handleBasicFilter _ _
        (by simpa [RawValue.Converted] using hvalues)).filter
  | text negated key operator node =>
    exact (declares_visitTextKey key).then fun _ ↦ (declares_visitSearchValue node).then
      fun _ ↦ (declares_visitTextFilter _ _ _ _ _).filter

theorem visitFilter_of_overflows (h : Overflows config context node) :
    visitFilter config context node = .error .visitationError := by
  cases node with
  | specificDate key value =>
    obtain ⟨name, hname, hdate, hvalue⟩ := h
    rw [visitFilter, hname]
    show (visitSpecificDateFilter config context name value >>= _) = _
    rw [visitSpecificDateFilter, if_pos hdate, hvalue]
    rfl
  | relDate key value =>
    obtain ⟨name, hname, hdate, hvalue⟩ := h
    rw [visitFilter, hname]
    show (visitRelDateFilter config context name value >>= _) = _
    rw [visitRelDateFilter, if_pos hdate, hvalue]
    rfl
  | aggregateRelDate negated key operator value =>
    obtain ⟨name, hname, hdate, hvalue⟩ := h
    rw [visitFilter, hname]
    show (visitAggregateRelDateFilter config context negated name operator value >>= _) = _
    rw [visitAggregateRelDateFilter, if_pos hdate, hvalue]
    rfl
  | _ => exact h.elim

theorem visitFilter_of_leavesNode (context : SearchContext) (h : LeavesNode config node) :
    ∃ key value, visitFilter config context node = .ok [.aggregate ⟨key, ['='], .node value⟩] := by
  cases node with
  | aggregateRelDate negated key operator value =>
    obtain ⟨name, hname, hdate, hoperator⟩ := h
    refine ⟨name, value, ?_⟩
    rw [visitFilter, hname]
    show (visitAggregateRelDateFilter config context negated name operator value >>= _) = _
    rw [visitAggregateRelDateFilter, if_neg (Bool.not_eq_true _ ▸ hdate), hoperator,
      if_neg (not_not_intro rfl)]
    rfl
  | _ => exact h.elim

/-! ### Queries -/

def VisitOutcome (config : SearchConfig) (context : SearchContext) (nodes : List FilterNode) :
    Visit (List Token) → Prop
  | .ok tokens => (∀ node ∈ nodes, ∃ given, visitFilter config context node = .ok given) ∧
    (AllConverted tokens ↔ ∀ node ∈ nodes, ∀ given, visitFilter config context node = .ok given →
      AllConverted given)
  | .error raised => ∃ before node after, nodes = before ++ node :: after ∧
    (∀ earlier ∈ before, ∃ given, visitFilter config context earlier = .ok given) ∧
    visitFilter config context node = .error raised

theorem allConverted_append {tokens others : List Token} :
    AllConverted (tokens ++ others) ↔ AllConverted tokens ∧ AllConverted others := by
  induction tokens with
  | nil => exact (and_iff_right trivial).symm
  | cons token tokens ih =>
    show token.Converted ∧ AllConverted (tokens ++ others) ↔ _
    rw [ih, ← and_assoc]
    rfl

theorem VisitOutcome.append {nodes others : List FilterNode} {x y : Visit (List Token)}
    (hx : VisitOutcome config context nodes x) (hy : VisitOutcome config context others y) :
    VisitOutcome config context (nodes ++ others)
      (do let first ← x; let rest ← y; return first ++ rest) := by
  match x, y, hx, hy with
  | .error raised, _, ⟨before, node, after, hnodes, hbefore, hnode⟩, _ =>
    exact ⟨before, node, after ++ others, by rw [hnodes, List.append_assoc, List.cons_append],
      hbefore, hnode⟩
  | .ok tokens, .error raised, ⟨hgiven, _⟩, ⟨before, node, after, hnodes, hbefore, hnode⟩ =>
    refine ⟨nodes ++ before, node, after, by rw [hnodes, List.append_assoc], ?_, hnode⟩
    intro earlier hearlier
    rcases List.mem_append.mp hearlier with hfirst | hsecond
    · exact hgiven earlier hfirst
    · exact hbefore earlier hsecond
  | .ok tokens, .ok rest, ⟨hgiven, hconverted⟩, ⟨hgiven', hconverted'⟩ =>
    constructor
    · intro node hnode
      rcases List.mem_append.mp hnode with hfirst | hsecond
      · exact hgiven node hfirst
      · exact hgiven' node hsecond
    · show AllConverted (tokens ++ rest) ↔ _
      rw [allConverted_append, hconverted, hconverted', List.forall_mem_append]

theorem outcome_visitFilter (node : FilterNode) :
    VisitOutcome config context [node] (visitFilter config context node) := by
  cases hvisit : visitFilter config context node with
  | ok tokens =>
    refine ⟨?_, ?_⟩
    · intro other hother
      rw [List.mem_singleton.mp hother]
      exact ⟨tokens, hvisit⟩
    · constructor
      · intro htokens other hother given hgiven
        rw [List.mem_singleton.mp hother, hvisit] at hgiven
        exact Except.ok.inj hgiven ▸ htokens
      · intro hall
        exact hall node (List.mem_singleton_self node) tokens hvisit
  | error raised =>
    exact ⟨[], node, [], rfl, fun _ hearlier ↦ absurd hearlier List.not_mem_nil, hvisit⟩

theorem outcome_of_converted {tokens : List Token} (h : AllConverted tokens) :
    VisitOutcome config context [] (.ok tokens) :=
  ⟨fun _ hnode ↦ absurd hnode List.not_mem_nil, iff_of_true h fun _ hnode ↦
    absurd hnode List.not_mem_nil⟩

theorem converted_visitFreeText (node : FreeTextNode) :
    AllConverted (visitFreeText config node) := by
  cases node with
  | freeTextQuoted | freeTextUnquoted =>
    unfold visitFreeText
    dsimp only
    split
    next => trivial
    next => exact ⟨trivial, trivial⟩

mutual

theorem outcome_visitTerm (hboolean : config.allowBoolean = true) (term : TermNode) :
    VisitOutcome config context (filtersOf term) (visitTerm config context term) := by
  match term with
  | .booleanOperator text =>
    rw [visitTerm, if_pos hboolean]
    exact outcome_of_converted ⟨trivial, trivial⟩
  | .parenGroup text terms =>
    have hterms := outcome_visitTerms hboolean terms
    rw [visitTerm]
    show VisitOutcome config context (allFiltersOf terms) _
    match visitTerms config context terms, hterms with
    | .error raised, herror => exact herror
    | .ok children, ⟨hgiven, hconverted⟩ =>
      show VisitOutcome config context _ (if ¬ config.allowBoolean = true then _ else _)
      rw [if_neg (not_not_intro hboolean)]
      split
      next hempty =>
        refine ⟨hgiven, ?_⟩
        rw [← hconverted, hempty]
        exact iff_of_true ⟨trivial, trivial⟩ trivial
      next =>
        refine ⟨hgiven, ?_⟩
        rw [← hconverted]
        exact and_iff_left trivial
  | .filter filter => exact outcome_visitFilter filter
  | .freeText node =>
    exact outcome_of_converted (converted_visitFreeText node)

theorem outcome_visitTerms (hboolean : config.allowBoolean = true) (terms : List TermNode) :
    VisitOutcome config context (allFiltersOf terms) (visitTerms config context terms) := by
  match terms with
  | [] => exact outcome_of_converted trivial
  | term :: terms =>
    exact (outcome_visitTerm hboolean term).append (outcome_visitTerms hboolean terms)

end

/-! ### Main result -/

section Filters

variable (htranslation : ∀ translator ∈ config.isFilterTranslation, translator.2.2.Converted)

include htranslation

theorem visitFilter_eq_visitationError_iff {node : FilterNode} :
    visitFilter config context node = .error .visitationError ↔ Overflows config context node := by
  refine ⟨fun hvisit ↦ ?_, visitFilter_of_overflows⟩
  by_contra hoverflows
  by_cases hleaves : LeavesNode config node
  · obtain ⟨key, value, hok⟩ := visitFilter_of_leavesNode context hleaves
    rw [hvisit] at hok
    nomatch hok
  · have hdeclares := declares_visitFilter htranslation hoverflows hleaves
    rw [hvisit] at hdeclares
    exact hdeclares

theorem allConverted_iff_of_visitFilter {node : FilterNode} {given : List Token}
    (hvisit : visitFilter config context node = .ok given) :
    AllConverted given ↔ ¬ LeavesNode config node := by
  constructor
  · intro hgiven hleaves
    obtain ⟨key, value, hok⟩ := visitFilter_of_leavesNode context hleaves
    rw [hvisit] at hok
    rw [Except.ok.inj hok] at hgiven
    exact hgiven.1
  · intro hleaves
    have hoverflows : ¬ Overflows config context node := by
      intro hoverflows
      rw [visitFilter_of_overflows hoverflows] at hvisit
      nomatch hvisit
    have hdeclares := declares_visitFilter htranslation hoverflows hleaves
    rw [hvisit] at hdeclares
    exact hdeclares

omit htranslation in
theorem hidesDefects_iff_of_given {nodes : List FilterNode}
    (hgiven : ∀ node ∈ nodes, ∃ given, visitFilter config context node = .ok given) :
    HidesDefects config context nodes ↔ ∀ node ∈ nodes, ¬ LeavesNode config node := by
  have hrefused : ¬ ∃ node ∈ nodes, RefusesFilter config context node := by
    rintro ⟨node, hnode, message, hmessage⟩
    obtain ⟨given, hok⟩ := hgiven node hnode
    rw [hok] at hmessage
    nomatch hmessage
  constructor
  · rintro ⟨-, hhides⟩ node hnode hleaves
    exact hrefused (hhides ⟨node, hnode, hleaves⟩)
  · intro hall
    refine ⟨fun before node after hnodes hoverflows ↦ ?_, ?_⟩
    · obtain ⟨given, hok⟩ := hgiven node (hnodes ▸ List.mem_append_right _ List.mem_cons_self)
      rw [visitFilter_of_overflows hoverflows] at hok
      nomatch hok
    · rintro ⟨node, hnode, hleaves⟩
      exact absurd hleaves (hall node hnode)

omit htranslation in
theorem hidesDefects_of_refused {before after : List FilterNode} {node : FilterNode}
    (hbefore : ∀ earlier ∈ before, ∃ given, visitFilter config context earlier = .ok given)
    (hnode : RefusesFilter config context node) :
    HidesDefects config context (before ++ node :: after) := by
  refine ⟨fun before' node' after' hnodes hoverflows ↦ ⟨node, ?_, hnode⟩,
    fun _ ↦ ⟨node, List.mem_append_right _ List.mem_cons_self, hnode⟩⟩
  have hvisit := visitFilter_of_overflows hoverflows
  rcases List.append_eq_append_iff.mp hnodes with
    ⟨between, hbefore', hrest⟩ | ⟨between, hbefore', hrest⟩
  · cases between with
    | nil =>
      -- the refused filter would be the one that is out of range
      obtain ⟨message, hmessage⟩ := hnode
      rw [(List.cons.inj hrest).1, hvisit] at hmessage
      nomatch hmessage
    | cons first rest =>
      rw [hbefore', (List.cons.inj hrest).1]
      exact List.mem_append_right _ List.mem_cons_self
  · cases between with
    | nil =>
      obtain ⟨message, hmessage⟩ := hnode
      rw [← (List.cons.inj hrest).1, hvisit] at hmessage
      nomatch hmessage
    | cons first rest =>
      have hfirst : node' ∈ before := by
        rw [hbefore', (List.cons.inj hrest).1]
        exact List.mem_append_right _ List.mem_cons_self
      obtain ⟨given, hok⟩ := hbefore node' hfirst
      rw [hvisit] at hok
      nomatch hok

theorem declares_iff_hidesDefects {nodes : List FilterNode} {x : Visit (List Token)}
    (h : VisitOutcome config context nodes x) :
    Declares AllConverted x ↔ HidesDefects config context nodes := by
  match x, h with
  | .ok tokens, ⟨hgiven, hconverted⟩ =>
    show AllConverted tokens ↔ _
    rw [hidesDefects_iff_of_given hgiven, hconverted]
    refine forall₂_congr fun node hnode ↦ ?_
    obtain ⟨given, hok⟩ := hgiven node hnode
    rw [← allConverted_iff_of_visitFilter htranslation hok, hok]
    exact ⟨fun hall ↦ hall given rfl, fun hgiven' other hother ↦ Except.ok.inj hother ▸ hgiven'⟩
  | .error (.invalidSearchQuery message), ⟨before, node, after, hnodes, hbefore, hnode⟩ =>
    exact iff_of_true trivial (hnodes ▸ hidesDefects_of_refused hbefore ⟨message, hnode⟩)
  | .error .visitationError, ⟨before, node, after, hnodes, hbefore, hnode⟩ =>
    refine iff_of_false id fun hhides ↦ ?_
    obtain ⟨earlier, hearlier, message, hmessage⟩ := hhides.1 before node after hnodes
      ((visitFilter_eq_visitationError_iff htranslation).mp hnode)
    obtain ⟨given, hok⟩ := hbefore earlier hearlier
    rw [hok] at hmessage
    nomatch hmessage

end Filters

/-- A query comes out in the declared way exactly if the defects of its filters are hidden. -/
theorem declared_iff (context : SearchContext) (query : Text) :
    Declares AllConverted (parseSearchQuery defaultConfig context query) ↔
      ∀ terms, search query = some terms →
        HidesDefects defaultConfig context (allFiltersOf terms) := by
  have htranslation : ∀ translator ∈ defaultConfig.isFilterTranslation, translator.2.2.Converted :=
    fun _ htranslator ↦ absurd htranslator List.not_mem_nil
  unfold parseSearchQuery
  cases search query with
  | none => exact iff_of_true trivial fun _ hterms ↦ nomatch hterms
  | some terms =>
    show Declares AllConverted (visitTerms defaultConfig context terms) ↔ _
    rw [declares_iff_hidesDefects htranslation (outcome_visitTerms rfl terms)]
    exact ⟨fun h _ hterms ↦ Option.some.inj hterms ▸ h, fun h ↦ h terms rfl⟩

/-- Of a count, which is no date, some days without an operator are left as a node. -/
theorem not_declared :
    ¬ ∀ (context : SearchContext) (query : Text),
      Declares AllConverted (parseSearchQuery defaultConfig context query) := by
  intro h
  have hparsed : parseSearchQuery defaultConfig ⟨fun _ ↦ .ok none, fun _ ↦ .ok none, 0, []⟩
      "count():+1d".toList = .ok [.aggregate ⟨"count()".toList, ['='], .node "+1d".toList⟩] := by
    rfl
  have hdeclared := h ⟨fun _ ↦ .ok none, fun _ ↦ .ok none, 0, []⟩ "count():+1d".toList
  rw [hparsed] at hdeclared
  exact hdeclared.1

end Sentry.EventSearch
