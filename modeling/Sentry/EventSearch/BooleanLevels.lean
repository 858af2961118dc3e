import Sentry.EventSearch.BooleanConditions

/-!
# The levels of a query

A query means what its terms say, joined by `AND` unless there is an `OR` between them
(`holdsAfter`). It is to be refused if on one of its levels an operator lacks a term or an `OR` is
beside filters of both kinds. The loop over the operators finds those that lack one
(`placed_true_iff`), and the two parts of a list that is split have the operators, the filters and
the meaning of the list (`Parts`).
-/

namespace Sentry.EventSearch

open List

variable {F A C : Type} {builder : QueryBuilder F A C} {terms : List (ParsedTerm F A)}

/-! ### Meaning -/

mutual

/-- The term is true, if these are the truth values of the filters. -/
def ParsedTerm.holds (truth : F ⊕ A → Bool) : ParsedTerm F A → Bool
  | .searchFilter filter => truth (.inl filter)
  | .aggregateFilter filter => truth (.inr filter)
  | .operator _ => true
  | .parenExpression children => holdsAfter truth true children

/-- The terms are true, if the terms before them and after the last `OR` have this truth value. -/
def holdsAfter (truth : F ⊕ A → Bool) : Bool → List (ParsedTerm F A) → Bool
  | before, [] => before
  | before, term :: rest =>
    if term.isOr then before || holdsAfter truth true rest
    else holdsAfter truth (before && term.holds truth) rest

end

mutual

def WhereType.eval (truth : C → Bool) : WhereType C → Bool
  | .condition condition => truth condition
  | .boolean .booleanAnd conditions => evalAll truth conditions
  | .boolean .booleanOr conditions => evalAny truth conditions

def evalAll (truth : C → Bool) : List (WhereType C) → Bool
  | [] => true
  | condition :: rest => condition.eval truth && evalAll truth rest

def evalAny (truth : C → Bool) : List (WhereType C) → Bool
  | [] => false
  | condition :: rest => condition.eval truth || evalAny truth rest

end

namespace QueryBuilder

def conditionOf (builder : QueryBuilder F A C) : F ⊕ A → Option (WhereType C)
  | .inl filter => builder.formatSearchFilter filter
  | .inr filter => builder.convertAggregateFilterToCondition filter

def truth (builder : QueryBuilder F A C) (truth : C → Bool) (filter : F ⊕ A) : Bool :=
  (builder.conditionOf filter).all (WhereType.eval truth)

end QueryBuilder

/-! ### Levels -/

mutual

/-- The filters of a term, at any depth. -/
def ParsedTerm.filters : ParsedTerm F A → List (F ⊕ A)
  | .searchFilter filter => [.inl filter]
  | .aggregateFilter filter => [.inr filter]
  | .operator _ => []
  | .parenExpression children => filtersIn children

def filtersIn : List (ParsedTerm F A) → List (F ⊕ A)
  | [] => []
  | term :: rest => term.filters ++ filtersIn rest

end

mutual

/-- The lists between parentheses, at any depth. -/
def ParsedTerm.groups : ParsedTerm F A → List (List (ParsedTerm F A))
  | .parenExpression children => children :: groupsIn children
  | _ => []

def groupsIn : List (ParsedTerm F A) → List (List (ParsedTerm F A))
  | [] => []
  | term :: rest => term.groups ++ groupsIn rest

end

def levels (terms : List (ParsedTerm F A)) : List (List (ParsedTerm F A)) := terms :: groupsIn terms

def LacksOperand (level : List (ParsedTerm F A)) : Prop :=
  ∃ before operator after, level = before ++ .operator operator :: after ∧
    ((∀ term ∈ before.getLast?, term.isOperator) ∨ ∀ term ∈ after.head?, term.isOperator)

/-- There is an `OR` in a list with conditions on rows and with conditions on aggregates. -/
def MixesOr (level : List (ParsedTerm F A)) : Prop :=
  (∃ term ∈ level, term.isOr) ∧ (∃ filter, .inl filter ∈ filtersIn level) ∧
    ∃ filter, .inr filter ∈ filtersIn level

def Invalid (terms : List (ParsedTerm F A)) : Prop :=
  ∃ level ∈ levels terms, LacksOperand level ∨ MixesOr level

/-- An operator is alone in the query or between parentheses. -/
def OperatorAlone (terms : List (ParsedTerm F A)) : Prop :=
  ∃ level ∈ levels terms, ∃ operator, level = [.operator operator]

/-- The query is to be refused, and not for an operator that is alone. -/
def Refused (terms : List (ParsedTerm F A)) : Prop :=
  ∃ level ∈ levels terms, (2 ≤ level.length ∧ LacksOperand level) ∨ MixesOr level

/-- A query that is to be refused is, and the conditions of any other mean what it means. -/
def QueryBuilder.Compiles (builder : QueryBuilder F A C) (terms : List (ParsedTerm F A)) : Prop :=
  match builder.resolveConditions terms with
  | .error (.invalidSearchQuery _) => Invalid terms
  | .error .recursionError => False
  | .ok (whereConditions, havingConditions) => ¬ Invalid terms ∧ ∀ truth : C → Bool,
    (evalAll truth whereConditions && evalAll truth havingConditions) =
      holdsAfter (builder.truth truth) true terms

/-! ### Placed operators -/

def placed : Bool → List (ParsedTerm F A) → Bool
  | afterOperator, [] => !afterOperator
  | afterOperator, term :: rest =>
    if term.isOperator then !afterOperator && placed true rest else placed false rest

theorem placed_cons_operator (afterOperator : Bool) (operator : SearchBoolean)
    (rest : List (ParsedTerm F A)) :
    placed afterOperator (.operator operator :: rest) = (!afterOperator && placed true rest) := rfl

variable {term : ParsedTerm F A}

theorem placed_cons_operand (h : term.isOperator = false)
    (afterOperator : Bool) (rest : List (ParsedTerm F A)) :
    placed afterOperator (term :: rest) = placed false rest := by
  rw [placed, h, if_neg Bool.false_ne_true]

theorem checkOperators_some (previous : ParsedTerm F A) (terms : List (ParsedTerm F A)) :
    (checkOperators (some previous) terms = .ok () ∧ placed previous.isOperator terms = true) ∨
      ((∃ message, checkOperators (some previous) terms = .error (.invalidSearchQuery message)) ∧
        placed previous.isOperator terms = false) := by
  induction terms generalizing previous with
  | nil =>
    cases previous with
    | operator operator => exact Or.inr ⟨⟨_, rfl⟩, rfl⟩
    | _ => exact Or.inl ⟨rfl, rfl⟩
  | cons term rest ih =>
    have hrest := ih term
    cases term with
    | operator operator =>
      cases previous with
      | operator previous => exact Or.inr ⟨⟨_, rfl⟩, rfl⟩
      | _ => exact hrest
    | _ =>
      cases previous with
      | _ => exact hrest

theorem checkOperators_none (h : terms ≠ []) :
    (checkOperators none terms = .ok () ∧ placed true terms = true) ∨
      ((∃ message, checkOperators none terms = .error (.invalidSearchQuery message)) ∧
        placed true terms = false) := by
  cases terms with
  | nil => exact absurd rfl h
  | cons term rest =>
    have hrest := checkOperators_some term rest
    cases term with
    | operator operator => exact Or.inr ⟨⟨_, rfl⟩, rfl⟩
    | _ => exact hrest

def LacksAfter (afterOperator : Bool) (terms : List (ParsedTerm F A)) : Prop :=
  ∃ before operator after, terms = before ++ .operator operator :: after ∧
    (((∀ term ∈ before.getLast?, term.isOperator) ∧ (before = [] → afterOperator = true)) ∨
      ∀ term ∈ after.head?, term.isOperator)

theorem lacksAfter_true : LacksAfter true terms ↔ LacksOperand terms := by
  simp [LacksAfter, LacksOperand]

variable {afterOperator : Bool}

theorem lacksAfter_cons_operand {rest : List (ParsedTerm F A)} (hterm : term.isOperator = false) :
    LacksAfter afterOperator (term :: rest) ↔ LacksAfter false rest := by
  constructor
  · rintro ⟨before, operator, after, heq, hlacks⟩
    cases before with
    | nil =>
      rw [(List.cons.inj heq).1] at hterm
      exact absurd hterm Bool.noConfusion
    | cons first before =>
      obtain ⟨rfl, rfl⟩ := List.cons.inj heq
      refine ⟨before, operator, after, rfl, hlacks.imp_left fun hbefore ↦ ?_⟩
      cases before with
      | nil =>
        have hfirst := hbefore.1 term rfl
        rw [hterm] at hfirst
        exact absurd hfirst Bool.false_ne_true
      | cons second before =>
        exact ⟨hbefore.1, fun hnil ↦ absurd hnil (cons_ne_nil _ _)⟩
  · rintro ⟨before, operator, after, rfl, hlacks⟩
    refine ⟨term :: before, operator, after, rfl, hlacks.imp_left fun hbefore ↦ ?_⟩
    refine ⟨?_, fun hnil ↦ absurd hnil (cons_ne_nil _ _)⟩
    cases before with
    | nil => exact absurd (hbefore.2 rfl) Bool.false_ne_true
    | cons second before =>
      exact hbefore.1

theorem lacksAfter_cons_operator {operator : SearchBoolean} {rest : List (ParsedTerm F A)} :
    LacksAfter afterOperator (.operator operator :: rest) ↔
      afterOperator = true ∨ rest = [] ∨ LacksAfter true rest := by
  constructor
  · rintro ⟨before, operator', after, heq, hlacks⟩
    cases before with
    | nil =>
      obtain ⟨-, rfl⟩ := List.cons.inj heq
      rcases hlacks with hbefore | hafter
      · exact Or.inl (hbefore.2 rfl)
      · cases rest with
        | nil => exact Or.inr (Or.inl rfl)
        | cons second rest =>
          have hsecond := hafter second rfl
          cases second with
          | operator operator'' =>
            exact Or.inr (Or.inr ⟨[], operator'', rest, rfl, Or.inl ⟨by simp, fun _ ↦ rfl⟩⟩)
          | _ => exact absurd hsecond Bool.false_ne_true
    | cons first before =>
      obtain ⟨rfl, rfl⟩ := List.cons.inj heq
      refine Or.inr (Or.inr ⟨before, operator', after, rfl, hlacks.imp_left fun hbefore ↦ ?_⟩)
      refine ⟨?_, fun _ ↦ rfl⟩
      cases before with
      | nil => simp
      | cons second before =>
        exact hbefore.1
  · rintro (hafter | rfl | ⟨before, operator', after, rfl, hlacks⟩)
    · exact ⟨[], operator, rest, rfl, Or.inl ⟨by simp, fun _ ↦ hafter⟩⟩
    · exact ⟨[], operator, [], rfl, Or.inr (by simp)⟩
    · refine ⟨.operator operator :: before, operator', after, rfl, hlacks.imp_left fun hbefore ↦ ?_⟩
      refine ⟨?_, fun hnil ↦ absurd hnil (cons_ne_nil _ _)⟩
      cases before with
      | nil =>
        intro term hterm
        rw [← Option.some.inj hterm]
        rfl
      | cons second before =>
        exact hbefore.1

theorem placed_iff (h : terms = [] → afterOperator = false) :
    placed afterOperator terms = true ↔ ¬ LacksAfter afterOperator terms := by
  induction terms generalizing afterOperator with
  | nil =>
    rw [h rfl]
    refine iff_of_true rfl ?_
    rintro ⟨before, operator, after, heq, -⟩
    exact append_ne_nil_of_right_ne_nil before (cons_ne_nil _ _) heq.symm
  | cons term rest ih =>
    by_cases hterm : term.isOperator = true
    · cases term with
      | operator operator =>
        rw [placed, if_pos hterm, lacksAfter_cons_operator, not_or, not_or, Bool.and_eq_true]
        cases rest with
        | nil => simp [placed]
        | cons second rest =>
          rw [ih fun hnil ↦ absurd hnil (cons_ne_nil _ _)]
          simp
      | _ => exact absurd hterm Bool.false_ne_true
    · rw [placed, if_neg hterm, ih fun _ ↦ rfl, lacksAfter_cons_operand (by simpa using hterm)]

theorem placed_true_iff (h : terms ≠ []) : placed true terms = true ↔ ¬ LacksOperand terms := by
  rw [placed_iff fun hnil ↦ absurd hnil h, lacksAfter_true]

/-! ### The parts of a list -/

theorem isOperator_of_isAnd (h : term.isAnd = true) : term = .operator .booleanAnd := by
  cases term with
  | operator operator =>
    cases operator with
    | booleanAnd => rfl
    | booleanOr => exact absurd h Bool.false_ne_true
  | _ => exact absurd h Bool.false_ne_true

theorem isOperator_of_isOr (h : term.isOr = true) : term = .operator .booleanOr := by
  cases term with
  | operator operator =>
    cases operator with
    | booleanAnd => exact absurd h Bool.false_ne_true
    | booleanOr => rfl
  | _ => exact absurd h Bool.false_ne_true

theorem isAnd_or_isOr (h : term.isOperator = true) : term.isAnd = true ∨ term.isOr = true := by
  cases term with
  | operator operator =>
    cases operator with
    | booleanAnd => exact Or.inl rfl
    | booleanOr => exact Or.inr rfl
  | _ => exact absurd h Bool.false_ne_true

theorem withoutAnds_cons_and (h : term.isAnd = true)
    (rest : List (ParsedTerm F A)) : withoutAnds (term :: rest) = withoutAnds rest :=
  filter_cons_of_neg (by simpa using h)

theorem withoutAnds_cons_of_not (h : term.isAnd = false)
    (rest : List (ParsedTerm F A)) : withoutAnds (term :: rest) = term :: withoutAnds rest :=
  filter_cons_of_pos (by simpa using h)

theorem placed_false_of_placed_true (h : placed true terms = true) : placed false terms = true := by
  cases terms with
  | nil => rfl
  | cons term rest =>
    rw [placed] at h ⊢
    by_cases hterm : term.isOperator = true
    · rw [if_pos hterm] at h
      exact absurd h (by simp)
    · rwa [if_neg hterm] at h ⊢

theorem placed_withoutAnds (h : placed afterOperator terms = true) :
    placed afterOperator (withoutAnds terms) = true := by
  induction terms generalizing afterOperator with
  | nil => exact h
  | cons term rest ih =>
    by_cases hand : term.isAnd = true
    · rw [isOperator_of_isAnd hand, placed_cons_operator, Bool.and_eq_true] at h
      rw [withoutAnds_cons_and hand]
      have hrest := placed_false_of_placed_true (ih h.2)
      rwa [show afterOperator = false by simpa using h.1]
    · rw [withoutAnds_cons_of_not (by simpa using hand), placed]
      rw [placed] at h
      by_cases hterm : term.isOperator = true
      · rw [if_pos hterm, Bool.and_eq_true] at h ⊢
        exact ⟨h.1, ih h.2⟩
      · rw [if_neg hterm] at h ⊢
        exact ih h

theorem placed_append_operator {operator : SearchBoolean} (lhs rhs : List (ParsedTerm F A)) :
    placed afterOperator (lhs ++ .operator operator :: rhs) =
      (placed afterOperator lhs && placed true rhs) := by
  induction lhs generalizing afterOperator with
  | nil => rfl
  | cons term lhs ih =>
    rw [cons_append, placed, placed, ih, ih]
    by_cases hterm : term.isOperator = true
    · rw [if_pos hterm, if_pos hterm, Bool.and_assoc]
    · rw [if_neg hterm, if_neg hterm]

theorem withoutAnds_ne_nil (h : placed afterOperator terms = true)
    (hne : terms ≠ []) : withoutAnds terms ≠ [] := by
  cases terms with
  | nil => exact absurd rfl hne
  | cons term rest =>
    by_cases hand : term.isAnd = true
    · rw [isOperator_of_isAnd hand, placed_cons_operator, Bool.and_eq_true] at h
      have hrest := placed_withoutAnds h.2
      rw [withoutAnds_cons_and hand]
      rintro hnil
      rw [hnil] at hrest
      exact absurd hrest Bool.false_ne_true
    · rw [withoutAnds_cons_of_not (by simpa using hand)]
      exact cons_ne_nil _ _

theorem two_le_length_withoutAnds (h : placed true terms = true) (hlength : 2 ≤ terms.length) :
    2 ≤ (withoutAnds terms).length := by
  cases terms with
  | nil => exact absurd hlength (by simp)
  | cons term rest =>
    cases hterm : term.isOperator with
    | true =>
      rw [placed, hterm, if_pos rfl] at h
      exact absurd h (by simp)
    | false =>
      have hand : term.isAnd = false := by
        cases term with
        | operator operator => exact absurd hterm.symm Bool.false_ne_true
        | _ => rfl
      rw [placed_cons_operand hterm] at h
      have hrest : rest ≠ [] := by
        rintro rfl
        exact absurd hlength (by simp)
      have hpositive := length_pos_iff.mpr (withoutAnds_ne_nil h hrest)
      rw [withoutAnds_cons_of_not hand, length_cons]
      omega

theorem placed_of_forall_not_isOperator (h : ∀ term ∈ terms, term.isOperator = false)
    (hne : terms ≠ []) : placed true terms = true := by
  have hfalse : ∀ rest : List (ParsedTerm F A), (∀ term ∈ rest, term.isOperator = false) →
      placed false rest = true := by
    intro rest hrest
    induction rest with
    | nil => rfl
    | cons term rest ih =>
      rw [placed_cons_operand (hrest term mem_cons_self)]
      exact ih fun other hother ↦ hrest other (mem_cons_of_mem _ hother)
  cases terms with
  | nil => exact absurd rfl hne
  | cons term rest =>
    rw [placed_cons_operand (h term mem_cons_self)]
    exact hfalse rest fun other hother ↦ h other (mem_cons_of_mem _ hother)

/-- The two parts of a list, of which the operators are placed too. -/
structure Parts (terms lhs rhs : List (ParsedTerm F A)) (operator : SearchBoolean) : Prop where
  lhs_placed : placed true lhs = true
  rhs_placed : placed true rhs = true
  lhs_noOr : ∀ term ∈ lhs, term.isOr = false
  of_or : operator = .booleanOr → withoutAnds terms = lhs ++ .operator .booleanOr :: rhs
  of_and : operator = .booleanAnd → withoutAnds terms = lhs ++ rhs ∧ ∀ term ∈ rhs, term.isOr = false

theorem not_isOperator_of_mem_withoutAnds (h : term ∈ withoutAnds terms)
    (hor : term.isOr = false) : term.isOperator = false := by
  by_contra hoperator
  rcases isAnd_or_isOr (by simpa using hoperator) with hand | hor'
  · exact absurd hand (by simpa using (mem_filter.mp h).2)
  · exact absurd (hor.symm.trans hor') Bool.false_ne_true

theorem parts_splitTerms (h : placed true terms = true) (hlength : 2 ≤ terms.length) :
    Parts terms (splitTerms (withoutAnds terms)).1 (splitTerms (withoutAnds terms)).2.1
      (splitTerms (withoutAnds terms)).2.2 := by
  have hplaced := placed_withoutAnds h
  cases hindex : (withoutAnds terms).findIdx? ParsedTerm.isOr with
  | some index =>
    rw [splitTerms_of_or hindex]
    obtain ⟨hlt, hor, hbefore⟩ := findIdx?_eq_some_iff_getElem.mp hindex
    have hsplit : withoutAnds terms = (withoutAnds terms).take index ++
        .operator .booleanOr :: (withoutAnds terms).drop (index + 1) := by
      rw [← isOperator_of_isOr hor, ← drop_eq_getElem_cons hlt, take_append_drop]
    rw [hsplit, placed_append_operator, Bool.and_eq_true] at hplaced
    refine ⟨hplaced.1, hplaced.2, fun term hterm ↦ ?_, fun _ ↦ hsplit, fun hand ↦ ?_⟩
    · obtain ⟨position, hposition, rfl⟩ := mem_take_iff_getElem.mp hterm
      simpa using hbefore position (by omega)
    · exact SearchBoolean.noConfusion hand
  | none =>
    rw [splitTerms_of_noOr hindex]
    have hnoOr : ∀ term ∈ withoutAnds terms, term.isOr = false :=
      findIdx?_eq_none_iff.mp hindex
    have hnoOperator : ∀ term ∈ withoutAnds terms, term.isOperator = false :=
      fun term hterm ↦ not_isOperator_of_mem_withoutAnds hterm (hnoOr term hterm)
    refine ⟨placed_of_forall_not_isOperator
        (fun term hterm ↦ hnoOperator term (mem_of_mem_take hterm)) ?_,
      placed_of_forall_not_isOperator
        (fun term hterm ↦ hnoOperator term (mem_of_mem_drop hterm)) ?_,
      fun term hterm ↦ hnoOr term (mem_of_mem_take hterm), fun hor ↦ ?_,
      fun _ ↦ ⟨(take_append_drop 1 _).symm, fun term hterm ↦ hnoOr term (mem_of_mem_drop hterm)⟩⟩
    · intro hnil
      have hlength' := congrArg List.length hnil
      rw [length_take, length_nil] at hlength'
      have htwo := two_le_length_withoutAnds h hlength
      omega
    · intro hnil
      have hlength' := congrArg List.length hnil
      rw [length_drop, length_nil] at hlength'
      have htwo := two_le_length_withoutAnds h hlength
      omega
    · exact SearchBoolean.noConfusion hor

theorem filtersIn_eq_flatMap (terms : List (ParsedTerm F A)) :
    filtersIn terms = terms.flatMap ParsedTerm.filters := by
  induction terms with
  | nil => rfl
  | cons term rest ih => rw [filtersIn, ih, flatMap_cons]

theorem groupsIn_eq_flatMap (terms : List (ParsedTerm F A)) :
    groupsIn terms = terms.flatMap ParsedTerm.groups := by
  induction terms with
  | nil => rfl
  | cons term rest ih => rw [groupsIn, ih, flatMap_cons]

theorem flatMap_withoutAnds {β : Type} {part : ParsedTerm F A → List β}
    (hpart : ∀ operator, part (.operator operator) = []) (terms : List (ParsedTerm F A)) :
    (withoutAnds terms).flatMap part = terms.flatMap part := by
  induction terms with
  | nil => rfl
  | cons term rest ih =>
    by_cases hand : term.isAnd = true
    · rw [withoutAnds_cons_and hand, ih, flatMap_cons, isOperator_of_isAnd hand, hpart, nil_append]
    · rw [withoutAnds_cons_of_not (by simpa using hand), flatMap_cons, flatMap_cons, ih]

theorem holdsAfter_withoutAnds (truth : F ⊕ A → Bool) (before : Bool)
    (terms : List (ParsedTerm F A)) :
    holdsAfter truth before (withoutAnds terms) = holdsAfter truth before terms := by
  induction terms generalizing before with
  | nil => rfl
  | cons term rest ih =>
    by_cases hand : term.isAnd = true
    · rw [withoutAnds_cons_and hand, ih, isOperator_of_isAnd hand]
      exact congrArg (holdsAfter truth · rest) (Bool.and_true before).symm
    · rw [withoutAnds_cons_of_not (by simpa using hand), holdsAfter, holdsAfter, ih, ih]

theorem holdsAfter_append_or (truth : F ⊕ A → Bool) (before : Bool)
    (lhs rhs : List (ParsedTerm F A)) :
    holdsAfter truth before (lhs ++ .operator .booleanOr :: rhs) =
      (holdsAfter truth before lhs || holdsAfter truth true rhs) := by
  induction lhs generalizing before with
  | nil => rfl
  | cons term lhs ih =>
    rw [cons_append, holdsAfter, holdsAfter, ih, ih]
    split
    next => rw [Bool.or_assoc]
    next => rfl

/-- Without `OR`, all terms have to be true. -/
theorem holdsAfter_of_noOr (truth : F ⊕ A → Bool) (before : Bool)
    (h : ∀ term ∈ terms, term.isOr = false) :
    holdsAfter truth before terms = (before && terms.all (ParsedTerm.holds truth)) := by
  induction terms generalizing before with
  | nil => exact (Bool.and_true before).symm
  | cons term rest ih =>
    rw [holdsAfter, h term mem_cons_self, if_neg Bool.false_ne_true,
      ih _ fun other hother ↦ h other (mem_cons_of_mem _ hother), all_cons, Bool.and_assoc]

namespace Parts

variable {lhs rhs : List (ParsedTerm F A)} {operator : SearchBoolean}

theorem flatMap_eq {β : Type} {part : ParsedTerm F A → List β}
    (hpart : ∀ operator, part (.operator operator) = []) (h : Parts terms lhs rhs operator) :
    terms.flatMap part = lhs.flatMap part ++ rhs.flatMap part := by
  rw [← flatMap_withoutAnds hpart]
  cases operator with
  | booleanOr =>
    rw [h.of_or rfl, flatMap_append, flatMap_cons, hpart, nil_append]
  | booleanAnd => rw [(h.of_and rfl).1, flatMap_append]

section

variable (h : Parts terms lhs rhs operator)

include h

theorem filtersIn_eq : filtersIn terms = filtersIn lhs ++ filtersIn rhs := by
  rw [filtersIn_eq_flatMap, filtersIn_eq_flatMap, filtersIn_eq_flatMap, h.flatMap_eq fun _ ↦ rfl]

theorem groupsIn_eq : groupsIn terms = groupsIn lhs ++ groupsIn rhs := by
  rw [groupsIn_eq_flatMap, groupsIn_eq_flatMap, groupsIn_eq_flatMap, h.flatMap_eq fun _ ↦ rfl]

theorem holdsAfter_eq (truth : F ⊕ A → Bool) :
    holdsAfter truth true terms = match operator with
      | .booleanOr => holdsAfter truth true lhs || holdsAfter truth true rhs
      | .booleanAnd => holdsAfter truth true lhs && holdsAfter truth true rhs := by
  rw [← holdsAfter_withoutAnds]
  cases operator with
  | booleanOr => rw [h.of_or rfl, holdsAfter_append_or]
  | booleanAnd =>
    obtain ⟨hterms, hrhs⟩ := h.of_and rfl
    have hall : ∀ term ∈ lhs ++ rhs, term.isOr = false := fun term hterm ↦
      (mem_append.mp hterm).elim (h.lhs_noOr term) (hrhs term)
    rw [hterms, holdsAfter_of_noOr truth true hall, holdsAfter_of_noOr truth true h.lhs_noOr,
      holdsAfter_of_noOr truth true hrhs, all_append]
    simp only [Bool.true_and]

theorem lhs_ne_nil : lhs ≠ [] := by
  rintro rfl
  exact absurd h.lhs_placed Bool.false_ne_true

theorem rhs_ne_nil : rhs ≠ [] := by
  rintro rfl
  exact absurd h.rhs_placed Bool.false_ne_true

theorem mem_or : (∃ term ∈ terms, term.isOr = true) ↔ operator = .booleanOr := by
  have hwithout : (∃ term ∈ terms, term.isOr = true) ↔
      ∃ term ∈ withoutAnds terms, term.isOr = true := by
    refine exists_congr fun term ↦ ⟨fun hterm ↦ ⟨mem_filter.mpr ⟨hterm.1, ?_⟩, hterm.2⟩,
      fun hterm ↦ ⟨(mem_filter.mp hterm.1).1, hterm.2⟩⟩
    rw [isOperator_of_isOr hterm.2]
    rfl
  rw [hwithout]
  cases operator with
  | booleanOr =>
    rw [h.of_or rfl]
    exact iff_of_true ⟨.operator .booleanOr, by simp, rfl⟩ rfl
  | booleanAnd =>
    obtain ⟨hterms, hrhs⟩ := h.of_and rfl
    rw [hterms]
    refine iff_of_false ?_ SearchBoolean.noConfusion
    rintro ⟨term, hterm, hor⟩
    rcases mem_append.mp hterm with hleft | hright
    · exact absurd ((h.lhs_noOr term hleft).symm.trans hor) Bool.false_ne_true
    · exact absurd ((hrhs term hright).symm.trans hor) Bool.false_ne_true

theorem refused_iff (hplaced : placed true terms = true)
    (hne : terms ≠ []) : Refused terms ↔ Refused lhs ∨ Refused rhs ∨ MixesOr terms := by
  have hlacks := (placed_true_iff hne).mp hplaced
  have hlhs := (placed_true_iff h.lhs_ne_nil).mp h.lhs_placed
  have hrhs := (placed_true_iff h.rhs_ne_nil).mp h.rhs_placed
  constructor
  · rintro ⟨level, hlevel, hrefused⟩
    rcases mem_cons.mp hlevel with rfl | hgroup
    · exact hrefused.elim (fun hboth ↦ absurd hboth.2 hlacks) fun hmixes ↦ Or.inr (Or.inr hmixes)
    · rw [h.groupsIn_eq] at hgroup
      rcases mem_append.mp hgroup with hleft | hright
      · exact Or.inl ⟨level, mem_cons_of_mem _ hleft, hrefused⟩
      · exact Or.inr (Or.inl ⟨level, mem_cons_of_mem _ hright, hrefused⟩)
  · have hgroups : ∀ level, level ∈ groupsIn lhs ∨ level ∈ groupsIn rhs → level ∈ levels terms := by
      intro level hlevel
      refine mem_cons_of_mem _ ?_
      rw [h.groupsIn_eq]
      exact mem_append.mpr hlevel
    rintro (⟨level, hlevel, hrefused⟩ | ⟨level, hlevel, hrefused⟩ | hmixes)
    · rcases mem_cons.mp hlevel with rfl | hgroup
      · rcases hrefused with hboth | ⟨⟨term, hterm, hor⟩, -⟩
        · exact absurd hboth.2 hlhs
        · exact absurd ((h.lhs_noOr term hterm).symm.trans hor) Bool.false_ne_true
      · exact ⟨level, hgroups level (Or.inl hgroup), hrefused⟩
    · rcases mem_cons.mp hlevel with rfl | hgroup
      · rcases hrefused with hboth | ⟨⟨term, hterm, hor⟩, ⟨filter, hfilter⟩, other, hother⟩
        · exact absurd hboth.2 hrhs
        · -- An `OR` in the second part comes after one that the list was split at.
          refine ⟨terms, mem_cons_self, Or.inr ⟨h.mem_or.mpr ?_, ⟨filter, ?_⟩, other, ?_⟩⟩
          · cases operator with
            | booleanOr => rfl
            | booleanAnd =>
              exact absurd (((h.of_and rfl).2 term hterm).symm.trans hor) Bool.false_ne_true
          · rw [h.filtersIn_eq]
            exact mem_append_right _ hfilter
          · rw [h.filtersIn_eq]
            exact mem_append_right _ hother
      · exact ⟨level, hgroups level (Or.inr hgroup), hrefused⟩
    · exact ⟨terms, mem_cons_self, Or.inr hmixes⟩

theorem not_operatorAlone (halone : ¬ OperatorAlone terms) :
    ¬ OperatorAlone lhs ∧ ¬ OperatorAlone rhs := by
  have hplaced : ∀ operator : SearchBoolean,
      placed true [(.operator operator : ParsedTerm F A)] = false := fun _ ↦ rfl
  refine ⟨?_, ?_⟩
  · rintro ⟨level, hlevel, operator', rfl⟩
    rcases mem_cons.mp hlevel with rfl | hgroup
    · exact absurd ((hplaced operator').symm.trans h.lhs_placed) Bool.false_ne_true
    · refine halone ⟨_, mem_cons_of_mem _ ?_, operator', rfl⟩
      rw [h.groupsIn_eq]
      exact mem_append_left _ hgroup
  · rintro ⟨level, hlevel, operator', rfl⟩
    rcases mem_cons.mp hlevel with rfl | hgroup
    · exact absurd ((hplaced operator').symm.trans h.rhs_placed) Bool.false_ne_true
    · refine halone ⟨_, mem_cons_of_mem _ ?_, operator', rfl⟩
      rw [h.groupsIn_eq]
      exact mem_append_right _ hgroup

end

end Parts

end Sentry.EventSearch
