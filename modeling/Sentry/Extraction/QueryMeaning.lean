import Sentry.Extraction.SearchQueryConverter

/-!
# Conversion keeps the meaning of a query

`Query` is the grammar of the queries, with the meaning of each. The converter accepts every query,
and the condition it returns holds of exactly the events the query means (`convert_query`); so does
the condition of an on-demand metric (`processQuery_query`).
-/

namespace Sentry.Extraction

open Library

variable {Other Event : Type}

/-! ### The meaning of a query -/

def SearchFilter.Negated (token : SearchFilter Other) : Prop := token.operator ∈ ["!=", "NOT IN"]

instance (token : SearchFilter Other) : Decidable token.Negated :=
  inferInstanceAs (Decidable (token.operator ∈ ["!=", "NOT IN"]))

/-- The glob pattern of a value with wildcards. -/
def RawValue.pattern : RawValue Other → List Char
  | text value => escapeWildcard value
  | other _ => []

def SearchFilter.fits (relay : Relay Other Event) (token : SearchFilter Other) (op : CompareOp)
    (name : String) (event : Event) : Bool :=
  if op = .eq ∧ token.value.isWildcard then relay.glob event name [token.value.pattern]
  else relay.compare event op name (comparedValue token)

/-- Whether a filter holds of an event. -/
def SearchFilter.holds (relay : Relay Other Event) (token : SearchFilter Other) (op : CompareOp)
    (name : String) (event : Event) : Bool :=
  if token.Negated then !token.fits relay op name event else token.fits relay op name event

/-- A factor, a conjunction of factors, or a disjunction of conjunctions. -/
inductive Level
  | factor
  | term
  | expr

/-- The queries over mapped fields, with their meanings. -/
inductive Query (fieldMapper : String → Except Error String) (relay : Relay Other Event) :
    Level → List (QueryToken Other) → (Event → Bool) → Prop
  | filter {token : SearchFilter Other} {op : CompareOp} {name : String}
      (hop : getItem searchToRelayOperators token.operator = some op)
      (hname : fieldMapper token.key = .ok name) :
      Query fieldMapper relay .factor [.filter token] (token.holds relay op name)
  | paren {children : List (QueryToken Other)} {meaning : Event → Bool}
      (h : Query fieldMapper relay .expr children meaning) :
      Query fieldMapper relay .factor [.paren children] meaning
  | factor {tokens : List (QueryToken Other)} {meaning : Event → Bool}
      (h : Query fieldMapper relay .factor tokens meaning) :
      Query fieldMapper relay .term tokens meaning
  | and {tokens rest : List (QueryToken Other)} {meaning others : Event → Bool}
      (h : Query fieldMapper relay .factor tokens meaning)
      (hrest : Query fieldMapper relay .term rest others) :
      Query fieldMapper relay .term (tokens ++ .and :: rest)
        fun event ↦ meaning event && others event
  | implicitAnd {tokens rest : List (QueryToken Other)} {meaning others : Event → Bool}
      (h : Query fieldMapper relay .factor tokens meaning)
      (hrest : Query fieldMapper relay .term rest others) :
      Query fieldMapper relay .term (tokens ++ rest) fun event ↦ meaning event && others event
  | term {tokens : List (QueryToken Other)} {meaning : Event → Bool}
      (h : Query fieldMapper relay .term tokens meaning) :
      Query fieldMapper relay .expr tokens meaning
  | or {tokens rest : List (QueryToken Other)} {meaning others : Event → Bool}
      (h : Query fieldMapper relay .term tokens meaning)
      (hrest : Query fieldMapper relay .expr rest others) :
      Query fieldMapper relay .expr (tokens ++ .or :: rest)
        fun event ↦ meaning event || others event

/-! ### Conditions -/

namespace RuleCondition

variable (relay : Relay Other Event) (event : Event)

theorem allHold_append (conditions others : List (RuleCondition Other)) :
    allHold relay event (conditions ++ others) =
      (allHold relay event conditions && allHold relay event others) := by
  induction conditions with
  | nil => rfl
  | cons first rest ih =>
    show (first.holds relay event && allHold relay event (rest ++ others)) = _
    rw [ih, ← Bool.and_assoc]
    rfl

theorem holds_combine_and {conditions : List (RuleCondition Other)} (hne : conditions ≠ []) :
    (combine .and conditions).holds relay event = allHold relay event conditions := by
  rcases conditions with _ | ⟨first, _ | ⟨second, rest⟩⟩
  · exact absurd rfl hne
  · exact (Bool.and_true _).symm
  · rfl

theorem holds_combine_or {conditions : List (RuleCondition Other)} (hne : conditions ≠ []) :
    (combine .or conditions).holds relay event = anyHolds relay event conditions := by
  rcases conditions with _ | ⟨first, _ | ⟨second, rest⟩⟩
  · exact absurd rfl hne
  · exact (Bool.or_false _).symm
  · rfl

end RuleCondition

/-! ### Steps of the converter -/

section Steps

variable {fieldMapper : String → Except Error String} {tokens rest rest' : List (QueryToken Other)}
  {token : QueryToken Other} {condition : RuleCondition Other}
  {conditions : List (RuleCondition Other)}

def QueryToken.IsOperand : QueryToken Other → Prop
  | filter _ => True
  | paren _ => True
  | _ => False

def EndsTerm : List (QueryToken Other) → Prop
  | [] => True
  | .or :: _ => True
  | _ => False

theorem factors_of_endsTerm {h : sizeOf rest < sizeOf tokens}
    (hfactor : factor fieldMapper tokens = .ok (condition, ⟨rest, h⟩)) (hrest : EndsTerm rest) :
    factors fieldMapper tokens = .ok ([condition], ⟨rest, h⟩) := by
  rw [factors, hfactor]
  rcases rest with _ | ⟨_ | _ | _ | _, rest'⟩
  · rfl
  · exact absurd hrest id
  · exact absurd hrest id
  · rfl
  · exact absurd hrest id

theorem factors_of_and {h : sizeOf (.and :: rest) < sizeOf tokens}
    (hfactor : factor fieldMapper tokens = .ok (condition, ⟨.and :: rest, h⟩))
    {h' : sizeOf rest' < sizeOf rest}
    (hfactors : factors fieldMapper rest = .ok (conditions, ⟨rest', h'⟩)) :
    ∃ hlt, factors fieldMapper tokens = .ok (condition :: conditions, ⟨rest', hlt⟩) := by
  refine ⟨Nat.lt_trans h' (lt_of_cons_eq ⟨_, h⟩ rfl), ?_⟩
  rw [factors, hfactor]
  show (factors fieldMapper rest >>= _) = _
  rw [hfactors]
  rfl

theorem factors_of_operand {h : sizeOf (token :: rest) < sizeOf tokens}
    (hfactor : factor fieldMapper tokens = .ok (condition, ⟨token :: rest, h⟩))
    (htoken : token.IsOperand) {h' : sizeOf rest' < sizeOf (token :: rest)}
    (hfactors : factors fieldMapper (token :: rest) = .ok (conditions, ⟨rest', h'⟩)) :
    ∃ hlt, factors fieldMapper tokens = .ok (condition :: conditions, ⟨rest', hlt⟩) := by
  refine ⟨Nat.lt_trans h' h, ?_⟩
  rw [factors, hfactor]
  cases token with
  | and | or => exact absurd htoken id
  | filter token =>
    show (factors fieldMapper (.filter token :: rest) >>= _) = _
    rw [hfactors]
    rfl
  | paren children =>
    show (factors fieldMapper (.paren children :: rest) >>= _) = _
    rw [hfactors]
    rfl

theorem term_of_factors {h : sizeOf rest < sizeOf tokens}
    (hfactors : factors fieldMapper tokens = .ok (conditions, ⟨rest, h⟩)) :
    term fieldMapper tokens = .ok (combine .and conditions, ⟨rest, h⟩) := by
  rw [term, hfactors]
  rfl

theorem terms_of_nil {h : sizeOf ([] : List (QueryToken Other)) < sizeOf tokens}
    (hterm : term fieldMapper tokens = .ok (condition, ⟨[], h⟩)) :
    terms fieldMapper tokens = .ok ([condition], ⟨[], h⟩) := by
  rw [terms, hterm]
  rfl

theorem terms_of_or {h : sizeOf (.or :: rest) < sizeOf tokens}
    (hterm : term fieldMapper tokens = .ok (condition, ⟨.or :: rest, h⟩))
    {h' : sizeOf rest' < sizeOf rest}
    (hterms : terms fieldMapper rest = .ok (conditions, ⟨rest', h'⟩)) :
    ∃ hlt, terms fieldMapper tokens = .ok (condition :: conditions, ⟨rest', hlt⟩) := by
  refine ⟨Nat.lt_trans h' (lt_of_cons_eq ⟨_, h⟩ rfl), ?_⟩
  rw [terms, hterm]
  show (terms fieldMapper rest >>= _) = _
  rw [hterms]
  rfl

theorem convert_of_terms {h : sizeOf ([] : List (QueryToken Other)) < sizeOf tokens}
    (hterms : terms fieldMapper tokens = .ok (conditions, ⟨[], h⟩)) :
    convert fieldMapper tokens = .ok (combine .or conditions) := by
  rw [convert, expr, hterms]
  rfl

end Steps

/-! ### Conversion of queries -/

section Conversion

variable (fieldMapper : String → Except Error String) (relay : Relay Other Event)

def FactorConverts (tokens : List (QueryToken Other)) (meaning : Event → Bool) : Prop :=
  ∃ (token : QueryToken Other) (condition : RuleCondition Other), tokens = [token] ∧
    token.IsOperand ∧ (∀ event, condition.holds relay event = meaning event) ∧
    ∀ rest, ∃ h, factor fieldMapper (token :: rest) = .ok (condition, ⟨rest, h⟩)

def TermConverts (tokens : List (QueryToken Other)) (meaning : Event → Bool) : Prop :=
  (∃ (token : QueryToken Other) (rest : List (QueryToken Other)),
    tokens = token :: rest ∧ token.IsOperand) ∧
  ∃ conditions : List (RuleCondition Other), conditions ≠ [] ∧
    (∀ event, RuleCondition.allHold relay event conditions = meaning event) ∧
    ∀ rest, EndsTerm rest → ∃ h, factors fieldMapper (tokens ++ rest) = .ok (conditions, ⟨rest, h⟩)

def ExprConverts (tokens : List (QueryToken Other)) (meaning : Event → Bool) : Prop :=
  ∃ conditions : List (RuleCondition Other), conditions ≠ [] ∧
    (∀ event, RuleCondition.anyHolds relay event conditions = meaning event) ∧
    ∃ h, terms fieldMapper tokens = .ok (conditions, ⟨[], h⟩)

def Converts : Level → List (QueryToken Other) → (Event → Bool) → Prop
  | .factor => FactorConverts fieldMapper relay
  | .term => TermConverts fieldMapper relay
  | .expr => ExprConverts fieldMapper relay

variable {fieldMapper relay} {tokens others : List (QueryToken Other)}
  {meaning meaning' : Event → Bool}

theorem holds_positiveCondition (op : CompareOp) (name : String) (token : SearchFilter Other)
    (event : Event) :
    (positiveCondition op name token).holds relay event = token.fits relay op name event := by
  obtain ⟨key, operator, value⟩ := token
  unfold positiveCondition SearchFilter.fits
  cases value with
  | text value =>
    by_cases hglob : op = .eq ∧ (RawValue.text value : RawValue Other).isWildcard
    · simp only [if_pos hglob]
      rfl
    · simp only [if_neg hglob]
      rfl
  | other value =>
    simp only [RawValue.isWildcard, Bool.false_eq_true, and_false, if_false]
    rfl

theorem factorConverts_filter {token : SearchFilter Other} {op : CompareOp} {name : String}
    (hop : getItem searchToRelayOperators token.operator = some op)
    (hname : fieldMapper token.key = .ok name) :
    FactorConverts fieldMapper relay [.filter token] (token.holds relay op name) := by
  obtain ⟨condition, hfilter, hholds⟩ : ∃ condition, filter fieldMapper token = .ok condition ∧
      ∀ event, condition.holds relay event = token.holds relay op name event := by
    unfold SearchFilter.holds
    by_cases hnegated : token.Negated
    · refine ⟨.not (positiveCondition op name token), ?_, fun event ↦ ?_⟩
      · rw [filter, hop]
        simp only [hname]
        exact congrArg Except.ok (if_pos hnegated)
      · rw [if_pos hnegated, ← holds_positiveCondition]
        rfl
    · refine ⟨positiveCondition op name token, ?_, fun event ↦ ?_⟩
      · rw [filter, hop]
        simp only [hname]
        exact congrArg Except.ok (if_neg hnegated)
      · rw [if_neg hnegated, holds_positiveCondition]
  refine ⟨.filter token, condition, rfl, trivial, hholds, fun rest ↦ ?_⟩
  rw [factor, hfilter]
  exact ⟨_, rfl⟩

theorem ExprConverts.convert (h : ExprConverts fieldMapper relay tokens meaning) :
    ∃ condition, convert fieldMapper tokens = .ok condition ∧
      ∀ event, condition.holds relay event = meaning event := by
  obtain ⟨conditions, hne, hholds, hlt, hterms⟩ := h
  exact ⟨_, convert_of_terms hterms,
    fun event ↦ (RuleCondition.holds_combine_or relay event hne).trans (hholds event)⟩

theorem ExprConverts.paren (h : ExprConverts fieldMapper relay tokens meaning) :
    FactorConverts fieldMapper relay [.paren tokens] meaning := by
  obtain ⟨condition, hconvert, hholds⟩ := h.convert
  refine ⟨.paren tokens, condition, rfl, trivial, hholds, fun rest ↦ ?_⟩
  rw [factor, hconvert]
  exact ⟨_, rfl⟩

section

variable (h : FactorConverts fieldMapper relay tokens meaning)

include h

theorem FactorConverts.term : TermConverts fieldMapper relay tokens meaning := by
  obtain ⟨token, condition, rfl, htoken, hholds, hfactor⟩ := h
  refine ⟨⟨token, [], rfl, htoken⟩, [condition], by simp, fun event ↦ ?_, fun rest hrest ↦ ?_⟩
  · rw [← hholds event]
    exact Bool.and_true _
  · obtain ⟨hlt, heq⟩ := hfactor rest
    exact ⟨hlt, factors_of_endsTerm heq hrest⟩

theorem FactorConverts.and (hothers : TermConverts fieldMapper relay others meaning') :
    TermConverts fieldMapper relay (tokens ++ .and :: others)
      fun event ↦ meaning event && meaning' event := by
  obtain ⟨token, condition, rfl, htoken, hholds, hfactor⟩ := h
  obtain ⟨-, conditions, -, hall, hfactors⟩ := hothers
  refine ⟨⟨token, _, rfl, htoken⟩, condition :: conditions, by simp, fun event ↦ ?_,
    fun rest hrest ↦ ?_⟩
  · show _ = (meaning event && meaning' event)
    rw [← hholds event, ← hall event]
    rfl
  · obtain ⟨hlt, heq⟩ := hfactors rest hrest
    obtain ⟨hlt', heq'⟩ := hfactor (.and :: (others ++ rest))
    exact factors_of_and heq' heq

theorem FactorConverts.implicitAnd (hothers : TermConverts fieldMapper relay others meaning') :
    TermConverts fieldMapper relay (tokens ++ others)
      fun event ↦ meaning event && meaning' event := by
  obtain ⟨token, condition, rfl, htoken, hholds, hfactor⟩ := h
  obtain ⟨⟨token', tail, rfl, htoken'⟩, conditions, -, hall, hfactors⟩ := hothers
  refine ⟨⟨token, _, rfl, htoken⟩, condition :: conditions, by simp, fun event ↦ ?_,
    fun rest hrest ↦ ?_⟩
  · show _ = (meaning event && meaning' event)
    rw [← hholds event, ← hall event]
    rfl
  · obtain ⟨hlt, heq⟩ := hfactors rest hrest
    obtain ⟨hlt', heq'⟩ := hfactor (token' :: tail ++ rest)
    exact factors_of_operand heq' htoken' heq

end

section

variable (h : TermConverts fieldMapper relay tokens meaning)

include h

theorem TermConverts.term (rest : List (QueryToken Other)) (hrest : EndsTerm rest) :
    ∃ condition : RuleCondition Other, (∀ event, condition.holds relay event = meaning event) ∧
      ∃ hlt, Extraction.term fieldMapper (tokens ++ rest) = .ok (condition, ⟨rest, hlt⟩) := by
  obtain ⟨-, conditions, hne, hholds, hfactors⟩ := h
  obtain ⟨hlt, heq⟩ := hfactors rest hrest
  exact ⟨_, fun event ↦ (RuleCondition.holds_combine_and relay event hne).trans (hholds event), hlt,
    term_of_factors heq⟩

theorem TermConverts.expr : ExprConverts fieldMapper relay tokens meaning := by
  obtain ⟨condition, hholds, hterm⟩ := h.term [] trivial
  rw [List.append_nil] at hterm
  obtain ⟨hlt, heq⟩ := hterm
  refine ⟨[condition], by simp, fun event ↦ ?_, hlt, terms_of_nil heq⟩
  rw [← hholds event]
  exact Bool.or_false _

theorem TermConverts.or (hothers : ExprConverts fieldMapper relay others meaning') :
    ExprConverts fieldMapper relay (tokens ++ .or :: others)
      fun event ↦ meaning event || meaning' event := by
  obtain ⟨conditions, -, hany, hlt, hterms⟩ := hothers
  obtain ⟨condition, hholds, hlt', hterm⟩ := h.term (.or :: others) trivial
  refine ⟨condition :: conditions, by simp, fun event ↦ ?_, terms_of_or hterm hterms⟩
  show _ = (meaning event || meaning' event)
  rw [← hholds event, ← hany event]
  rfl

end

theorem Query.converts {level : Level} (h : Query fieldMapper relay level tokens meaning) :
    Converts fieldMapper relay level tokens meaning := by
  induction h with
  | filter hop hname => exact factorConverts_filter hop hname
  | paren _ ih => exact ExprConverts.paren ih
  | factor _ ih => exact FactorConverts.term ih
  | and _ _ ih ihrest => exact FactorConverts.and ih ihrest
  | implicitAnd _ _ ih ihrest => exact FactorConverts.implicitAnd ih ihrest
  | term _ ih => exact TermConverts.expr ih
  | or _ _ ih ihrest => exact TermConverts.or ih ihrest

theorem Query.convert (h : Query fieldMapper relay .expr tokens meaning) :
    ∃ condition, Extraction.convert fieldMapper tokens = .ok condition ∧
      ∀ event, condition.holds relay event = meaning event :=
  ExprConverts.convert h.converts

end Conversion

/-! ### The query of an on-demand metric -/

section Spec

variable {fieldMapper : String → Except Error String}

theorem convert_paren (children : List (QueryToken Other)) :
    convert fieldMapper [.paren children] = convert fieldMapper children := by
  rcases hconvert : convert fieldMapper children with error | condition
  · rw [convert, expr, terms, term, factors, factor, hconvert]
    rfl
  · have hfactor : factor fieldMapper [.paren children] =
        .ok (condition, ⟨[], by rw [List.cons.sizeOf_spec]; omega⟩) := by
      rw [factor, hconvert]
      rfl
    rw [convert_of_terms (terms_of_nil (term_of_factors (factors_of_endsTerm hfactor trivial)))]
    rfl

theorem convert_removeRedundantParentheses (tokens : List (QueryToken Other)) :
    convert fieldMapper (removeRedundantParentheses tokens) = convert fieldMapper tokens := by
  fun_induction removeRedundantParentheses tokens with
  | case1 children ih => rw [ih, convert_paren]
  | case2 tokens h => rfl

theorem convert_paren_paren {first second : List (QueryToken Other)}
    {condition condition' : RuleCondition Other}
    (hfirst : convert fieldMapper first = .ok condition)
    (hsecond : convert fieldMapper second = .ok condition') :
    convert fieldMapper [.paren first, .paren second] = .ok (.and [condition, condition']) := by
  have hfactor : ∀ (children rest : List (QueryToken Other)) (c : RuleCondition Other),
      convert fieldMapper children = .ok c →
        ∃ h, factor fieldMapper (.paren children :: rest) = .ok (c, ⟨rest, h⟩) := by
    intro children rest c hconvert
    rw [factor, hconvert]
    exact ⟨_, rfl⟩
  obtain ⟨hlt, heq⟩ := hfactor first [.paren second] condition hfirst
  obtain ⟨hlt', heq'⟩ := hfactor second [] condition' hsecond
  obtain ⟨hlt'', heq''⟩ := factors_of_operand heq trivial (factors_of_endsTerm heq' trivial)
  rw [convert_of_terms (terms_of_nil (term_of_factors heq''))]
  rfl

variable (resolveColumn : String → String)
  (normalizeCountIfValue : String → String → Except Error (RawValue Other))
  (relay : Relay Other Event) (spec : MetricQuery Other)

/-- Whether an event is of the environment of the metric; only a simple query has it. -/
def MetricQuery.environmentHolds (event : Event) : Bool :=
  match spec.specType, spec.environment with
  | .simpleQuery, some environment =>
    (environmentFilter environment).holds relay .eq "event.environment" event
  | _, _ => true

/-- The meaning of the aggregate of a metric: only `count_if` has a condition. -/
inductive MetricQuery.CountIf : (Event → Bool) → Prop
  | none (h : spec.function ≠ "count_if") : CountIf fun _ ↦ true
  | condition {key op value : String} {operator : CompareOp} {name : String}
      {normalized : RawValue Other} (h : spec.function = "count_if")
      (harguments : spec.arguments = [key, op, value])
      (hop : getItem countifToRelayOperators op = some operator)
      (hname : mapFieldName resolveColumn key = .ok name)
      (hvalue : normalizeCountIfValue key value = .ok normalized) :
      CountIf fun event ↦ relay.compare event operator name (some normalized) ^^
        decide (op = "notEquals")

/-- The meaning of the query of a metric, which can be empty. -/
def MetricQuery.Means (meaning : Event → Bool) : Prop :=
  spec.query = [] ∧ (meaning = fun _ ↦ true) ∨
    Query (mapFieldName resolveColumn) relay .expr spec.query meaning

/-- Whether an event meets the condition of a metric; without one every event does. -/
def conditionHolds (condition : Option (RuleCondition Other)) (event : Event) : Bool :=
  match condition with
  | none => true
  | some condition => condition.holds relay event

variable {resolveColumn normalizeCountIfValue relay spec} {countIf meaning : Event → Bool}

theorem MetricQuery.CountIf.aggregateConditions
    (h : spec.CountIf resolveColumn normalizeCountIfValue relay countIf) :
    ∃ aggregate, aggregateConditions resolveColumn normalizeCountIfValue spec = .ok aggregate ∧
      ∀ event, conditionHolds relay aggregate event = countIf event := by
  cases h with
  | none h =>
    refine ⟨Option.none, ?_, fun event ↦ rfl⟩
    rw [Extraction.aggregateConditions, if_neg h]
  | @condition key op value operator name normalized h harguments hop hname hvalue =>
    by_cases hnot : op = "notEquals"
    · refine ⟨some (.not (.compare operator name (some normalized))), ?_, fun event ↦ ?_⟩
      · rw [Extraction.aggregateConditions, if_pos h, harguments]
        simp only [convertCountifFilter, hop, hname, hvalue]
        exact congrArg (fun c ↦ Except.ok (some c)) (if_pos hnot)
      · show _ = (_ ^^ decide (op = "notEquals"))
        rw [decide_eq_true hnot, Bool.xor_true]
        rfl
    · refine ⟨some (.compare operator name (some normalized)), ?_, fun event ↦ ?_⟩
      · rw [Extraction.aggregateConditions, if_pos h, harguments]
        simp only [convertCountifFilter, hop, hname, hvalue]
        exact congrArg (fun c ↦ Except.ok (some c)) (if_neg hnot)
      · show _ = (_ ^^ decide (op = "notEquals"))
        rw [decide_eq_false hnot, Bool.xor_false]
        rfl

theorem holds_withAggregate (condition aggregate : RuleCondition Other) (event : Event) :
    (withAggregate condition aggregate).holds relay event =
      (condition.holds relay event && aggregate.holds relay event) := by
  have hpair : (RuleCondition.and [condition, aggregate]).holds relay event =
      (condition.holds relay event && aggregate.holds relay event) := by
    show (_ && (_ && true)) = _
    rw [Bool.and_true]
  cases condition with
  | and inner =>
    show RuleCondition.allHold relay event (inner ++ [aggregate]) = _
    rw [RuleCondition.allHold_append]
    show (_ && (_ && true)) = _
    rw [Bool.and_true]
    rfl
  | compare | glob | or | not => exact hpair

theorem convert_nil_ne_ok {condition : RuleCondition Other} :
    convert fieldMapper [] ≠ .ok condition := by
  intro h
  rw [convert, expr, terms, term, factors, factor] at h
  change Except.error Error.unexpectedEndOfQuery = Except.ok condition at h
  simp at h

theorem processQuery_of_convert {condition : RuleCondition Other}
    (hconvert : convert (mapFieldName resolveColumn) (parsedQuery spec) = .ok condition)
    {aggregate : Option (RuleCondition Other)}
    (haggregate : aggregateConditions resolveColumn normalizeCountIfValue spec = .ok aggregate) :
    ∃ result, processQuery resolveColumn normalizeCountIfValue spec = .ok result ∧
      ∀ event, conditionHolds relay result event =
        (condition.holds relay event && conditionHolds relay aggregate event) := by
  have hsome : ¬ ((parsedQuery spec).isEmpty ∧ aggregate.isSome) := by
    rintro ⟨hempty, -⟩
    rw [List.isEmpty_iff.mp hempty] at hconvert
    exact convert_nil_ne_ok hconvert
  refine ⟨some ((aggregate.map (withAggregate condition)).getD condition), ?_, fun event ↦ ?_⟩
  · unfold processQuery
    rw [haggregate]
    show (if (parsedQuery spec).isEmpty ∧ aggregate.isSome then _ else _) = _
    rw [if_neg hsome, hconvert]
    rfl
  · cases aggregate with
    | none => exact (Bool.and_true _).symm
    | some aggregate => exact holds_withAggregate condition aggregate event

theorem processQuery_of_nil (hquery : parsedQuery spec = [])
    {aggregate : Option (RuleCondition Other)}
    (haggregate : aggregateConditions resolveColumn normalizeCountIfValue spec = .ok aggregate) :
    processQuery resolveColumn normalizeCountIfValue spec = .ok aggregate := by
  unfold processQuery
  rw [haggregate]
  show (if (parsedQuery spec).isEmpty ∧ aggregate.isSome then _ else _) = _
  cases aggregate with
  | none =>
    rcases hconvert : convert (mapFieldName resolveColumn) ([] : List (QueryToken Other)) with
      error | condition
    · rw [if_neg (by simp), hquery, hconvert]
      rfl
    · exact absurd hconvert convert_nil_ne_ok
  | some aggregate =>
    rw [if_pos ⟨List.isEmpty_iff.mpr hquery, rfl⟩]
    rfl

theorem convert_environmentFilter (resolveColumn : String → String) (relay : Relay Other Event)
    (environment : List Char) :
    ∃ condition, convert (mapFieldName resolveColumn)
        [.filter (environmentFilter environment : SearchFilter Other)] = .ok condition ∧
      ∀ event, condition.holds relay event =
        (environmentFilter environment).holds relay .eq "event.environment" event := by
  have hname : mapFieldName resolveColumn "environment" = .ok "event.environment" := by rfl
  exact (Query.term (Query.factor (Query.filter (by rfl) hname))).convert

theorem parsedQuery_of_noEnvironment (relay : Relay Other Event)
    (h : ¬ (spec.specType = .simpleQuery ∧ ∃ value, spec.environment = some value)) :
    parsedQuery spec = parseQuery spec ∧ ∀ event, spec.environmentHolds relay event = true := by
  obtain ⟨query, specType, environment, function, arguments⟩ := spec
  cases specType with
  | dynamicQuery => exact ⟨rfl, fun event ↦ rfl⟩
  | simpleQuery =>
    cases environment with
    | none => exact ⟨rfl, fun event ↦ rfl⟩
    | some value => exact absurd ⟨rfl, value, rfl⟩ h

theorem parsedQuery_of_environment (htype : spec.specType = .simpleQuery) {value : List Char}
    (hvalue : spec.environment = some value) :
    parsedQuery spec = .paren [.filter (environmentFilter value)] ::
      (if (parseQuery spec).isEmpty then [] else [.paren (parseQuery spec)]) := by
  rw [parsedQuery, if_pos htype]
  unfold extendParsedQuery
  rw [hvalue]
  cases parseQuery spec with
  | nil | cons => rfl

theorem convert_parsedQuery (h : spec.Means resolveColumn relay meaning) :
    parsedQuery spec = [] ∧ (∀ event, (spec.environmentHolds relay event && meaning event) = true) ∨
    ∃ condition, convert (mapFieldName resolveColumn) (parsedQuery spec) = .ok condition ∧
      ∀ event, condition.holds relay event =
        (spec.environmentHolds relay event && meaning event) := by
  have hquery : parseQuery spec = [] ∧ (meaning = fun _ ↦ true) ∨
      ∃ condition, convert (mapFieldName resolveColumn) (parseQuery spec) = .ok condition ∧
        ∀ event, condition.holds relay event = meaning event := by
    rcases h with ⟨hnil, hmeaning⟩ | hquery
    · refine Or.inl ⟨?_, hmeaning⟩
      rw [parseQuery, hnil, removeRedundantParentheses]
      simp
    · refine Or.inr ?_
      rw [parseQuery, convert_removeRedundantParentheses]
      exact hquery.convert
  by_cases henvironment : spec.specType = .simpleQuery ∧ ∃ value, spec.environment = some value
  · obtain ⟨htype, value, hvalue⟩ := henvironment
    have hholds : ∀ event, spec.environmentHolds relay event =
        (environmentFilter value).holds relay .eq "event.environment" event := by
      intro event
      rw [MetricQuery.environmentHolds, htype, hvalue]
    obtain ⟨condition, hconvert, hcondition⟩ :=
      convert_environmentFilter resolveColumn relay value
    right
    rcases hquery with ⟨hnil, rfl⟩ | ⟨condition', hconvert', hcondition'⟩
    · rw [parsedQuery_of_environment htype hvalue, hnil]
      refine ⟨condition, (convert_paren _).trans hconvert, fun event ↦ ?_⟩
      rw [hcondition, hholds, Bool.and_true]
    · rcases hparse : parseQuery spec with _ | ⟨token, rest⟩
      · rw [hparse] at hconvert'
        exact absurd hconvert' convert_nil_ne_ok
      · rw [hparse] at hconvert'
        rw [parsedQuery_of_environment htype hvalue, hparse]
        refine ⟨_, convert_paren_paren hconvert hconvert', fun event ↦ ?_⟩
        show (_ && (_ && true)) = _
        rw [hcondition, hcondition', hholds, Bool.and_true]
  · obtain ⟨hparsed, hholds⟩ := parsedQuery_of_noEnvironment relay henvironment
    rw [hparsed]
    simp only [hholds, Bool.true_and]
    refine hquery.imp ?_ id
    rintro ⟨hnil, hmeaning⟩
    refine ⟨hnil, fun event ↦ ?_⟩
    rw [hmeaning]

end Spec

/-! ### The theorem -/

/-- The converter accepts every query and keeps its meaning; the condition of a metric means its
query, in its environment if the query is simple, and the condition of its `count_if`. -/
theorem conversion_keeps_meaning :
    (∀ (fieldMapper : String → Except Error String) (relay : Relay Other Event)
      (tokens : List (QueryToken Other)) (meaning : Event → Bool),
      Query fieldMapper relay .expr tokens meaning →
        ∃ condition, convert fieldMapper tokens = .ok condition ∧
          ∀ event, condition.holds relay event = meaning event) ∧
    ∀ (resolveColumn : String → String)
      (normalizeCountIfValue : String → String → Except Error (RawValue Other))
      (relay : Relay Other Event) (spec : MetricQuery Other)
      (meaning countIf : Event → Bool),
      spec.Means resolveColumn relay meaning →
      spec.CountIf resolveColumn normalizeCountIfValue relay countIf →
        ∃ condition, processQuery resolveColumn normalizeCountIfValue spec = .ok condition ∧
          ∀ event, conditionHolds relay condition event =
            (spec.environmentHolds relay event && meaning event && countIf event) := by
  refine ⟨fun fieldMapper relay tokens meaning h ↦ h.convert, ?_⟩
  intro resolveColumn normalizeCountIfValue relay spec meaning countIf hmeans hcountIf
  obtain ⟨aggregate, haggregate, hholds⟩ := hcountIf.aggregateConditions
  rcases convert_parsedQuery hmeans with ⟨hnil, htrue⟩ | ⟨condition, hconvert, hcondition⟩
  · refine ⟨aggregate, processQuery_of_nil hnil haggregate, fun event ↦ ?_⟩
    rw [hholds, htrue, Bool.true_and]
  · obtain ⟨result, hresult, hboth⟩ := processQuery_of_convert hconvert haggregate
    refine ⟨result, hresult, fun event ↦ ?_⟩
    rw [hboth, hholds, hcondition]

/-- Relay's conditions on events that are texts for each field: only equality holds. -/
def equalTexts : Relay ℕ (String → List Char) where
  compare event _ name value :=
    match value with
    | some (.text text) => event name = text
    | _ => false
  glob _ _ _ := false

def equals (key : String) (value : List Char) : SearchFilter ℕ := ⟨key, "=", .text value⟩

/-- `release:a OR (dist:b !level:c)` -/
def orParen : List (QueryToken ℕ) :=
  [.filter (equals "release" ['a']), .or,
    .paren [.filter (equals "dist" ['b']), .filter ⟨"level", "!=", .text ['c']⟩]]

/-- Its meaning. -/
def orParenMeaning (event : String → List Char) : Bool :=
  (equals "release" ['a']).holds equalTexts .eq "event.release" event ||
    ((equals "dist" ['b']).holds equalTexts .eq "event.dist" event &&
      (⟨"level", "!=", .text ['c']⟩ : SearchFilter ℕ).holds equalTexts .eq "event.level" event)

theorem query_orParen : Query (mapFieldName id) equalTexts .expr orParen orParenMeaning :=
  .or (.factor (.filter (by rfl) (by rfl)))
    (.term (.factor (.paren (.term (.implicitAnd (.filter (by rfl) (by rfl))
      (.factor (.filter (by rfl) (by rfl))))))))

/-- The metric of the query in an environment, with a `count_if`. -/
def countIfOfOrParen : MetricQuery ℕ :=
  ⟨orParen, .simpleQuery, some ['p'], "count_if", ["transaction", "notEquals", "t"]⟩

theorem conversion_keeps_meaning_orParen :
    (∃ condition, convert (mapFieldName id) orParen = .ok condition ∧
      ∀ event, condition.holds equalTexts event = orParenMeaning event) ∧
    ∃ condition, processQuery id (fun _ value ↦ .ok (.text value.toList)) countIfOfOrParen =
        .ok condition ∧
      ∀ event, conditionHolds equalTexts condition event =
        (countIfOfOrParen.environmentHolds equalTexts event && orParenMeaning event &&
          (equalTexts.compare event .eq "event.transaction" (some (.text ['t'])) ^^ true)) := by
  have hname : mapFieldName id "transaction" = .ok "event.transaction" := by rfl
  have hcountIf : countIfOfOrParen.CountIf id (fun _ value ↦ .ok (.text value.toList)) equalTexts
      fun event ↦ equalTexts.compare event .eq "event.transaction" (some (.text ['t'])) ^^
        decide ("notEquals" = "notEquals") := .condition rfl rfl rfl hname rfl
  exact ⟨conversion_keeps_meaning.1 _ _ _ _ query_orParen,
    conversion_keeps_meaning.2 _ _ _ countIfOfOrParen _ _ (Or.inr query_orParen) hcountIf⟩

end Sentry.Extraction
