import Sentry.EventSearch.BooleanLevels

/-!
# What boolean conditions mean

The conditions of a list mean what the list means, or it is refused as it should be
(`outcome_resolveBooleanConditions`). An operator that is alone in the query or between parentheses
is not refused, though, so that this is all of the truth exactly for the queries without one, or
with another reason to be refused (`compiles_iff`).
-/

namespace Sentry.EventSearch

open List ParsedTerm Option

variable {F A C : Type} {builder : QueryBuilder F A C} {terms : List (ParsedTerm F A)}

def joined : List (WhereType C) → WhereType C
  | [condition] => condition
  | conditions => .boolean .booleanAnd conditions

theorem eval_joined (truth : C → Bool) (conditions : List (WhereType C)) :
    (joined conditions).eval truth = evalAll truth conditions := by
  rcases conditions with - | ⟨first, - | ⟨second, rest⟩⟩
  · rfl
  · exact (Bool.and_true _).symm
  · rfl

theorem combineConditions_nil_left (rhs : List (WhereType C)) (operator : SearchBoolean) :
    combineConditions [] rhs operator = if rhs = [] then [] else [joined rhs] := by
  rcases rhs with - | ⟨first, - | ⟨second, rest⟩⟩ <;> rfl

theorem combineConditions_nil_right (lhs : List (WhereType C)) (operator : SearchBoolean) :
    combineConditions lhs [] operator = if lhs = [] then [] else [joined lhs] := by
  rcases lhs with - | ⟨first, - | ⟨second, rest⟩⟩ <;> rfl

theorem combineConditions_of_ne_nil {lhs rhs : List (WhereType C)} (hlhs : lhs ≠ [])
    (hrhs : rhs ≠ []) (operator : SearchBoolean) :
    combineConditions lhs rhs operator = [.boolean operator [joined lhs, joined rhs]] := by
  rcases lhs with - | ⟨first, - | ⟨second, rest⟩⟩
  · exact absurd rfl hlhs
  all_goals
    rcases rhs with - | ⟨first', - | ⟨second', rest'⟩⟩
    · exact absurd rfl hrhs
    · rfl
    · rfl

theorem combineConditions_eq_nil_iff {lhs rhs : List (WhereType C)} {operator : SearchBoolean} :
    combineConditions lhs rhs operator = [] ↔ lhs = [] ∧ rhs = [] := by
  by_cases hlhs : lhs = []
  · rw [hlhs, combineConditions_nil_left]
    split <;> simp_all
  · by_cases hrhs : rhs = []
    · rw [hrhs, combineConditions_nil_right, if_neg hlhs]
      simp [hlhs]
    · rw [combineConditions_of_ne_nil hlhs hrhs]
      simp [hlhs]

theorem evalAll_combineConditions_nil_left (truth : C → Bool) (rhs : List (WhereType C))
    (operator : SearchBoolean) :
    evalAll truth (combineConditions [] rhs operator) = evalAll truth rhs := by
  rw [combineConditions_nil_left]
  split
  next h => rw [h]
  next => rw [evalAll, eval_joined, evalAll, Bool.and_true]

theorem evalAll_combineConditions_nil_right (truth : C → Bool) (lhs : List (WhereType C))
    (operator : SearchBoolean) :
    evalAll truth (combineConditions lhs [] operator) = evalAll truth lhs := by
  rw [combineConditions_nil_right]
  split
  next h => rw [h]
  next => rw [evalAll, eval_joined, evalAll, Bool.and_true]

theorem evalAll_combineConditions_and (truth : C → Bool) (lhs rhs : List (WhereType C)) :
    evalAll truth (combineConditions lhs rhs .booleanAnd) =
      (evalAll truth lhs && evalAll truth rhs) := by
  by_cases hlhs : lhs = []
  · rw [hlhs, evalAll_combineConditions_nil_left]
    exact (Bool.true_and _).symm
  · by_cases hrhs : rhs = []
    · rw [hrhs, evalAll_combineConditions_nil_right]
      exact (Bool.and_true _).symm
    · rw [combineConditions_of_ne_nil hlhs hrhs]
      simp only [evalAll, WhereType.eval, eval_joined, Bool.and_true]

theorem evalAll_combineConditions_or {lhs rhs : List (WhereType C)} (hlhs : lhs ≠ [])
    (hrhs : rhs ≠ []) (truth : C → Bool) :
    evalAll truth (combineConditions lhs rhs .booleanOr) =
      (evalAll truth lhs || evalAll truth rhs) := by
  rw [combineConditions_of_ne_nil hlhs hrhs]
  simp only [evalAll, evalAny, WhereType.eval, eval_joined, Bool.and_true, Bool.or_false]

/-- The conditions of a list that is not refused. -/
structure Means (builder : QueryBuilder F A C) (terms : List (ParsedTerm F A))
    (conditions : List (WhereType C) × List (WhereType C)) : Prop where
  where_eq_nil : conditions.1 = [] ↔ ∀ filter, .inl filter ∉ filtersIn terms
  having_eq_nil : conditions.2 = [] ↔ ∀ filter, .inr filter ∉ filtersIn terms
  ne_nil : ¬ OperatorAlone terms → conditions.1 = [] → conditions.2 ≠ []
  eval : ¬ OperatorAlone terms → ∀ truth : C → Bool,
    (evalAll truth conditions.1 && evalAll truth conditions.2) =
      holdsAfter (builder.truth truth) true terms

/-- A list is refused as it should be, or else its conditions mean what it means. -/
inductive Outcome (builder : QueryBuilder F A C) (terms : List (ParsedTerm F A)) :
    Except ResolveError (List (WhereType C) × List (WhereType C)) → Prop
  | refused (message : String) (h : Refused terms) :
    Outcome builder terms (.error (.invalidSearchQuery message))
  | resolved {conditions : List (WhereType C) × List (WhereType C)} (h : ¬ Refused terms)
    (hmeans : Means builder terms conditions) : Outcome builder terms (.ok conditions)

variable {lhs rhs : List (ParsedTerm F A)} {operator : SearchBoolean}
  {lhsConditions rhsConditions : List (WhereType C) × List (WhereType C)}

theorem exists_mem_append_iff {α β : Type} {part : β → α} {list list' : List α} :
    (∃ x, part x ∈ list ++ list') ↔ ¬ ((∀ x, part x ∉ list) ∧ ∀ x, part x ∉ list') := by
  rw [not_and_or, not_forall_not, not_forall_not, ← exists_or]
  exact exists_congr fun x ↦ mem_append

section

variable (h : Parts terms lhs rhs operator) (hlhs : Means builder lhs lhsConditions)
  (hrhs : Means builder rhs rhsConditions)

include h hlhs hrhs

theorem mixesOr_iff :
    MixesOr terms ↔ operator = .booleanOr ∧
      ¬ (lhsConditions.1.isEmpty ∧ rhsConditions.1.isEmpty) ∧
      ¬ (lhsConditions.2.isEmpty ∧ rhsConditions.2.isEmpty) := by
  rw [MixesOr, h.mem_or, h.filtersIn_eq]
  rw [List.isEmpty_iff, List.isEmpty_iff, hlhs.where_eq_nil, hrhs.where_eq_nil,
    List.isEmpty_iff, List.isEmpty_iff, hlhs.having_eq_nil, hrhs.having_eq_nil]
  exact and_congr_right fun _ ↦ and_congr exists_mem_append_iff exists_mem_append_iff

theorem means_combineConditions (hmixes : ¬ MixesOr terms) :
    Means builder terms (combineConditions lhsConditions.1 rhsConditions.1 operator,
      combineConditions lhsConditions.2 rhsConditions.2 operator) := by
  refine ⟨?_, ?_, fun halone hwhere hhaving ↦ ?_, fun halone truth ↦ ?_⟩
  · show combineConditions lhsConditions.1 rhsConditions.1 operator = [] ↔ _
    rw [combineConditions_eq_nil_iff, hlhs.where_eq_nil, hrhs.where_eq_nil, h.filtersIn_eq]
    simp [mem_append, not_or, forall_and]
  · show combineConditions lhsConditions.2 rhsConditions.2 operator = [] ↔ _
    rw [combineConditions_eq_nil_iff, hlhs.having_eq_nil, hrhs.having_eq_nil, h.filtersIn_eq]
    simp [mem_append, not_or, forall_and]
  · exact hlhs.ne_nil (h.not_operatorAlone halone).1 (combineConditions_eq_nil_iff.mp hwhere).1
      (combineConditions_eq_nil_iff.mp hhaving).1
  · obtain ⟨hlhsAlone, hrhsAlone⟩ := h.not_operatorAlone halone
    rw [h.holdsAfter_eq, ← hlhs.eval hlhsAlone, ← hrhs.eval hrhsAlone]
    cases operator with
    | booleanAnd =>
      rw [evalAll_combineConditions_and, evalAll_combineConditions_and]
      ac_rfl
    | booleanOr =>
      have hempty : (lhsConditions.1 = [] ∧ rhsConditions.1 = []) ∨
          (lhsConditions.2 = [] ∧ rhsConditions.2 = []) := by
        by_contra hneither
        rw [not_or] at hneither
        refine hmixes ((mixesOr_iff h hlhs hrhs).mpr ⟨rfl, ?_⟩)
        rwa [List.isEmpty_iff, List.isEmpty_iff, List.isEmpty_iff, List.isEmpty_iff]
      rcases hempty with ⟨hleft, hright⟩ | ⟨hleft, hright⟩
      · rw [hleft, hright, evalAll_combineConditions_nil_left, evalAll_combineConditions_or
          (hlhs.ne_nil hlhsAlone hleft) (hrhs.ne_nil hrhsAlone hright)]
        simp only [evalAll, Bool.true_and]
      · have hlhsWhere : lhsConditions.1 ≠ [] := fun hnil ↦ hlhs.ne_nil hlhsAlone hnil hleft
        have hrhsWhere : rhsConditions.1 ≠ [] := fun hnil ↦ hrhs.ne_nil hrhsAlone hnil hright
        rw [hleft, hright, evalAll_combineConditions_nil_left,
          evalAll_combineConditions_or hlhsWhere hrhsWhere]
        simp only [evalAll, Bool.and_true]

end

theorem outcome_combineSides (h : Parts terms lhs rhs operator) (hplaced : placed true terms = true)
    (hne : terms ≠ []) (hlhsRefused : ¬ Refused lhs) (hrhsRefused : ¬ Refused rhs)
    (hlhs : Means builder lhs lhsConditions) (hrhs : Means builder rhs rhsConditions) :
    Outcome builder terms (combineSides operator lhsConditions rhsConditions) := by
  have hrefused := h.refused_iff hplaced hne
  rw [combineSides]
  split
  next hmixed =>
    exact .refused _ (hrefused.mpr (Or.inr (Or.inr ((mixesOr_iff h hlhs hrhs).mpr hmixed))))
  next hunmixed =>
    have hmixes : ¬ MixesOr terms := mt (mixesOr_iff h hlhs hrhs).mp hunmixed
    exact .resolved (fun hany ↦ (hrefused.mp hany).elim hlhsRefused
      fun hright ↦ hright.elim hrhsRefused hmixes) (means_combineConditions h hlhs hrhs hmixes)

/-- The filters of a query yield conditions. -/
def Yields (builder : QueryBuilder F A C) (terms : List (ParsedTerm F A)) : Prop :=
  ∀ filter ∈ filtersIn terms, (builder.conditionOf filter).isSome

theorem means_searchFilter {filter : F} (hyields : Yields builder [.searchFilter filter]) :
    Means builder [.searchFilter filter] (builder.resolveWhere [.searchFilter filter], []) := by
  obtain ⟨condition, hcondition⟩ := isSome_iff_exists.mp (hyields (.inl filter) (by simp
    [filtersIn, filters]))
  have hformat : builder.formatSearchFilter filter = some condition := hcondition
  have hwhere : builder.resolveWhere [.searchFilter filter] = [condition] := by
    simp [QueryBuilder.resolveWhere, hformat]
  rw [hwhere]
  refine ⟨?_, ?_, fun _ hnil ↦ absurd hnil (cons_ne_nil _ _), fun _ truth ↦ ?_⟩
  · simp [filtersIn, filters]
  · simp [filtersIn, filters]
  · simp [holdsAfter, holds, isOr, QueryBuilder.truth, hcondition, evalAll]

theorem means_aggregateFilter {filter : A} (huse : builder.useAggregateConditions = true)
    (hyields : Yields builder [.aggregateFilter filter]) :
    Means builder [.aggregateFilter filter]
      ([], builder.resolveHaving [.aggregateFilter filter]) := by
  obtain ⟨condition, hcondition⟩ := isSome_iff_exists.mp (hyields (.inr filter) (by simp
    [filtersIn, filters]))
  have hconvert : builder.convertAggregateFilterToCondition filter = some condition := hcondition
  have hhaving : builder.resolveHaving [.aggregateFilter filter] = [condition] := by
    simp [QueryBuilder.resolveHaving, huse, hconvert]
  rw [hhaving]
  refine ⟨?_, ?_, fun _ _ ↦ cons_ne_nil _ _, fun _ truth ↦ ?_⟩
  · simp [filtersIn, filters]
  · simp [filtersIn, filters]
  · simp [holdsAfter, holds, isOr, QueryBuilder.truth, hcondition, evalAll]

theorem refused_singleton {term : ParsedTerm F A} :
    Refused [term] ↔ ∃ level ∈ term.groups, (2 ≤ level.length ∧ LacksOperand level) ∨
      MixesOr level := by
  have hlevels : levels [term] = [term] :: term.groups := by
    rw [levels, groupsIn, groupsIn, append_nil]
  rw [Refused, hlevels]
  constructor
  · rintro ⟨level, hlevel, hrefused⟩
    rcases mem_cons.mp hlevel with rfl | hgroup
    · rcases hrefused with hboth | ⟨⟨other, hother, hor⟩, ⟨filter, hfilter⟩, -⟩
      · exact absurd hboth.1 (by simp)
      · rw [mem_singleton.mp hother] at hor
        rw [isOperator_of_isOr hor] at hfilter
        exact absurd hfilter not_mem_nil
    · exact ⟨level, hgroup, hrefused⟩
  · rintro ⟨level, hlevel, hrefused⟩
    exact ⟨level, mem_cons_of_mem _ hlevel, hrefused⟩

theorem not_refused_singleton {term : ParsedTerm F A} (h : term.groups = []) :
    ¬ Refused [term] := by
  rw [refused_singleton, h]
  rintro ⟨level, hlevel, -⟩
  exact absurd hlevel not_mem_nil

theorem outcome_parenExpression {children : List (ParsedTerm F A)}
    {result : Except ResolveError (List (WhereType C) × List (WhereType C))}
    (h : Outcome builder children result) :
    Outcome builder [.parenExpression children] result := by
  have hrefused : Refused [.parenExpression children] ↔ Refused children := refused_singleton
  have hfilters : filtersIn [.parenExpression children] = filtersIn children := by
    rw [filtersIn, filtersIn, append_nil, filters]
  have halone : OperatorAlone children → OperatorAlone [.parenExpression children] := by
    rintro ⟨level, hlevel, heq⟩
    refine ⟨level, mem_cons_of_mem _ ?_, heq⟩
    rw [groupsIn, groupsIn, append_nil]
    exact hlevel
  cases h with
  | refused message hchildren => exact .refused message (hrefused.mpr hchildren)
  | resolved hchildren hmeans =>
    refine .resolved (mt hrefused.mp hchildren) ⟨?_, ?_, fun h ↦ hmeans.ne_nil (mt halone h),
      fun h truth ↦ ?_⟩
    · rw [hfilters]
      exact hmeans.where_eq_nil
    · rw [hfilters]
      exact hmeans.having_eq_nil
    · rw [hmeans.eval (mt halone h)]
      rfl

theorem means_operator (operator : SearchBoolean) :
    Means builder [.operator operator] ([], []) := by
  have halone : OperatorAlone [(.operator operator : ParsedTerm F A)] :=
    ⟨_, mem_cons_self, operator, rfl⟩
  refine ⟨iff_of_true rfl fun filter ↦ not_mem_nil,
    iff_of_true rfl fun filter ↦ not_mem_nil, fun h ↦ absurd halone h,
    fun h ↦ absurd halone h⟩

theorem outcome_resolveBooleanConditions (huse : builder.useAggregateConditions = true)
    (hne : terms ≠ []) (hgroups : [] ∉ groupsIn terms) (hyields : Yields builder terms) :
    Outcome builder terms (builder.resolveBooleanConditions terms) := by
  induction hsize : sizeOf terms using Nat.strong_induction_on generalizing terms with
  | _ size ih =>
    rcases terms with - | ⟨first, - | ⟨second, rest⟩⟩
    · exact absurd rfl hne
    · cases first with
      | searchFilter filter =>
        rw [QueryBuilder.resolveBooleanConditions]
        exact .resolved (not_refused_singleton rfl) (means_searchFilter hyields)
      | aggregateFilter filter =>
        rw [QueryBuilder.resolveBooleanConditions]
        exact .resolved (not_refused_singleton rfl) (means_aggregateFilter huse hyields)
      | operator operator =>
        rw [QueryBuilder.resolveBooleanConditions]
        exact .resolved (not_refused_singleton rfl) (means_operator operator)
      | parenExpression children =>
        rw [QueryBuilder.resolveBooleanConditions]
        rw [groupsIn, groupsIn, append_nil, groups, mem_cons, not_or] at hgroups
        rw [Yields, filtersIn, filtersIn, append_nil, filters] at hyields
        refine outcome_parenExpression (ih _ ?_ (Ne.symm hgroups.1) hgroups.2 hyields rfl)
        rw [← hsize]
        simp only [List.cons.sizeOf_spec, parenExpression.sizeOf_spec]
        omega
    · have hlength : 2 ≤ (first :: second :: rest).length := Nat.le_add_left 2 rest.length
      rw [QueryBuilder.resolveBooleanConditions]
      rcases checkOperators_none hne with ⟨hcheck, hplaced⟩ | ⟨⟨message, hcheck⟩, hplaced⟩
      · have hparts := parts_splitTerms hplaced hlength
        have hrefused := hparts.refused_iff hplaced hne
        have hlhs := ih _ (hsize ▸ (sizeOf_splitTerms_lt hlength).1) hparts.lhs_ne_nil
          (fun hmem ↦ hgroups (by rw [hparts.groupsIn_eq]; exact mem_append_left _ hmem))
          (fun filter hfilter ↦ hyields filter
            (by rw [hparts.filtersIn_eq]; exact mem_append_left _ hfilter)) rfl
        have hrhs := ih _ (hsize ▸ (sizeOf_splitTerms_lt hlength).2) hparts.rhs_ne_nil
          (fun hmem ↦ hgroups (by rw [hparts.groupsIn_eq]; exact mem_append_right _ hmem))
          (fun filter hfilter ↦ hyields filter
            (by rw [hparts.filtersIn_eq]; exact mem_append_right _ hfilter)) rfl
        rw [hcheck]
        revert hlhs hrhs
        generalize builder.resolveBooleanConditions
          (splitTerms (withoutAnds (first :: second :: rest))).1 = lhsResult
        generalize builder.resolveBooleanConditions
          (splitTerms (withoutAnds (first :: second :: rest))).2.1 = rhsResult
        intro hlhs hrhs
        cases hlhs with
        | refused message hleft => exact .refused message (hrefused.mpr (Or.inl hleft))
        | resolved hleft hlhsMeans =>
          cases hrhs with
          | refused message hright => exact .refused message (hrefused.mpr (Or.inr (Or.inl hright)))
          | resolved hright hrhsMeans =>
            exact outcome_combineSides hparts hplaced hne hleft hright hlhsMeans hrhsMeans
      · have hlacks : LacksOperand (first :: second :: rest) := by
          by_contra hnot
          rw [(placed_true_iff hne).mpr hnot] at hplaced
          exact absurd hplaced.symm Bool.false_ne_true
        rw [hcheck]
        exact .refused message ⟨_, mem_cons_self, Or.inl ⟨hlength, hlacks⟩⟩

def ParsedTerm.isFilter : ParsedTerm F A → Bool
  | .searchFilter _ | .aggregateFilter _ => true
  | _ => false

theorem groupsIn_of_forall_isFilter (h : ∀ term ∈ terms, term.isFilter = true) :
    groupsIn terms = [] := by
  rw [groupsIn_eq_flatMap, flatMap_eq_nil_iff]
  intro term hterm
  have hfilter := h term hterm
  cases term with
  | parenExpression children => exact absurd hfilter Bool.false_ne_true
  | _ => rfl

theorem evalAll_resolveWhere_and_resolveHaving (huse : builder.useAggregateConditions = true)
    (h : ∀ term ∈ terms, term.isFilter = true) (hyields : Yields builder terms) (truth : C → Bool) :
    (evalAll truth (builder.resolveWhere terms) && evalAll truth (builder.resolveHaving terms)) =
      terms.all (holds (builder.truth truth)) := by
  rw [QueryBuilder.resolveHaving, if_pos huse, QueryBuilder.resolveWhere]
  induction terms with
  | nil => rfl
  | cons term rest ih =>
    have hrest := ih (fun other hother ↦ h other (mem_cons_of_mem _ hother))
      fun filter hfilter ↦ hyields filter (mem_append_right _ hfilter)
    have hterm := h term mem_cons_self
    rw [all_cons, ← hrest]
    cases term with
    | searchFilter filter =>
      obtain ⟨condition, hcondition⟩ := isSome_iff_exists.mp
        (hyields (.inl filter) (mem_append_left _ (mem_singleton_self _)))
      have hformat : builder.formatSearchFilter filter = some condition := hcondition
      simp [hformat, evalAll, holds, QueryBuilder.truth, hcondition, Bool.and_assoc]
    | aggregateFilter filter =>
      obtain ⟨condition, hcondition⟩ := isSome_iff_exists.mp
        (hyields (.inr filter) (mem_append_left _ (mem_singleton_self _)))
      have hconvert : builder.convertAggregateFilterToCondition filter = some condition :=
        hcondition
      simp [hconvert, evalAll, holds, QueryBuilder.truth, hcondition, Bool.and_left_comm]
    | _ => exact absurd hterm Bool.false_ne_true

theorem invalid_iff : Invalid terms ↔ Refused terms ∨ OperatorAlone terms := by
  constructor
  · rintro ⟨level, hlevel, hlacks | hmixes⟩
    · by_cases hlength : 2 ≤ level.length
      · exact Or.inl ⟨level, hlevel, Or.inl ⟨hlength, hlacks⟩⟩
      · obtain ⟨before, operator, after, rfl, -⟩ := hlacks
        rw [length_append, length_cons] at hlength
        have hbefore : before = [] := eq_nil_of_length_eq_zero (by omega)
        have hafter : after = [] := eq_nil_of_length_eq_zero (by omega)
        exact Or.inr ⟨_, hlevel, operator, by rw [hbefore, hafter]; rfl⟩
    · exact Or.inl ⟨level, hlevel, Or.inr hmixes⟩
  · rintro (⟨level, hlevel, hrefused⟩ | ⟨level, hlevel, operator, rfl⟩)
    · exact ⟨level, hlevel, hrefused.imp_left fun hboth ↦ hboth.2⟩
    · exact ⟨_, hlevel, Or.inl ⟨[], operator, [], rfl, Or.inl (by simp)⟩⟩

theorem compiles_of_forall_isFilter (huse : builder.useAggregateConditions = true)
    (h : ∀ term ∈ terms, term.isFilter = true) (hyields : Yields builder terms) :
    builder.Compiles terms ∧ ¬ OperatorAlone terms := by
  have hlevels : levels terms = [terms] := by rw [levels, groupsIn_of_forall_isFilter h]
  have hoperator : ∀ operator, .operator operator ∉ terms :=
    fun operator hmem ↦ absurd (h _ hmem) Bool.false_ne_true
  have hplain : builder.resolveConditions terms =
      .ok (builder.resolveWhere terms, builder.resolveHaving terms) := by
    refine if_neg fun hany ↦ ?_
    obtain ⟨term, hterm, hboolean⟩ := List.any_eq_true.mp hany
    have hfilter := h term hterm
    cases term with
    | searchFilter | aggregateFilter => exact absurd hboolean Bool.false_ne_true
    | _ => exact absurd hfilter Bool.false_ne_true
  have hnoOr : ∀ term ∈ terms, term.isOr = false := by
    intro term hterm
    by_contra hor
    refine hoperator .booleanOr ?_
    rwa [← isOperator_of_isOr (by simpa using hor)]
  rw [QueryBuilder.Compiles, hplain]
  refine ⟨⟨?_, fun truth ↦ ?_⟩, ?_⟩
  · rintro ⟨level, hlevel, hlacks | ⟨⟨term, hterm, hor⟩, -⟩⟩
    · rw [hlevels, mem_singleton] at hlevel
      obtain ⟨before, operator, after, rfl, -⟩ := hlacks
      exact hoperator operator (by rw [← hlevel]; simp)
    · rw [hlevels, mem_singleton] at hlevel
      exact absurd ((hnoOr term (hlevel ▸ hterm)).symm.trans hor) Bool.false_ne_true
  · rw [evalAll_resolveWhere_and_resolveHaving huse h hyields,
      holdsAfter_of_noOr _ _ hnoOr, Bool.true_and]
  · rintro ⟨level, hlevel, operator, rfl⟩
    rw [hlevels, mem_singleton] at hlevel
    exact hoperator operator (by rw [← hlevel]; exact mem_singleton_self _)

/-- The conditions of a query mean what it means, and a query is refused exactly if an operator
lacks a term or if filters of both kinds are beside an `OR`, exactly if no operator is alone in the
query or between parentheses, or if the query is refused for another reason. -/
theorem compiles_iff (huse : builder.useAggregateConditions = true)
    (hgroups : [] ∉ groupsIn terms) (hyields : Yields builder terms) :
    builder.Compiles terms ↔ ¬ OperatorAlone terms ∨ Refused terms := by
  by_cases hfilters : ∀ term ∈ terms, term.isFilter = true
  · have hcompiles := compiles_of_forall_isFilter huse hfilters hyields
    exact iff_of_true hcompiles.1 (Or.inl hcompiles.2)
  · have hne : terms ≠ [] := by
      rintro rfl
      exact hfilters fun term hterm ↦ absurd hterm not_mem_nil
    have hboolean : builder.resolveConditions terms = builder.resolveBooleanConditions terms := by
      refine if_pos (List.any_eq_true.mpr ?_)
      push Not at hfilters
      obtain ⟨term, hterm, hfilter⟩ := hfilters
      refine ⟨term, hterm, ?_⟩
      cases term with
      | searchFilter | aggregateFilter => exact absurd rfl hfilter
      | _ => rfl
    have houtcome := outcome_resolveBooleanConditions huse hne hgroups hyields
    rw [QueryBuilder.Compiles, hboolean]
    generalize builder.resolveBooleanConditions terms = result at houtcome
    cases houtcome with
    | refused message hrefused =>
      exact iff_of_true (invalid_iff.mpr (Or.inl hrefused)) (Or.inr hrefused)
    | resolved hrefused hmeans =>
      show (¬ Invalid terms ∧ _) ↔ _
      rw [invalid_iff]
      constructor
      · exact fun h ↦ Or.inl fun halone ↦ h.1 (Or.inr halone)
      · rintro (halone | hany)
        · exact ⟨not_or.mpr ⟨hrefused, halone⟩, hmeans.eval halone⟩
        · exact absurd hany hrefused

/-- Filters that are their own conditions. -/
def plainBuilder : QueryBuilder ℕ ℕ (ℕ ⊕ ℕ) where
  formatSearchFilter filter := some (.condition (.inl filter))
  convertAggregateFilterToCondition filter := some (.condition (.inr filter))
  useAggregateConditions := true

theorem yields_plainBuilder (terms : List (ParsedTerm ℕ ℕ)) : Yields plainBuilder terms := by
  intro filter _
  cases filter with
  | inl | inr => rfl

/-- `a OR (b AND c)`. -/
theorem compiles_or_and : plainBuilder.Compiles [.searchFilter 0, .operator .booleanOr,
    .parenExpression [.searchFilter 1, .operator .booleanAnd, .searchFilter 2]] := by
  refine (compiles_iff rfl ?_ (yields_plainBuilder _)).mpr (Or.inl ?_)
  · simp [groupsIn, groups]
  · simp [OperatorAlone, levels, groupsIn, groups]

/-- The query `OR` has no conditions, and is not refused. -/
theorem not_compiles : ¬ ∀ terms : List (ParsedTerm ℕ ℕ), [] ∉ groupsIn terms →
    Yields plainBuilder terms → plainBuilder.Compiles terms := by
  intro h
  have hcompiles := h [.operator .booleanOr] (by simp [groupsIn, groups])
    (yields_plainBuilder _)
  have hresolve : plainBuilder.resolveConditions [.operator .booleanOr] = .ok ([], []) := by
    show plainBuilder.resolveBooleanConditions [.operator .booleanOr] = .ok ([], [])
    rw [QueryBuilder.resolveBooleanConditions]
  rw [QueryBuilder.Compiles, hresolve] at hcompiles
  exact hcompiles.1 (invalid_iff.mpr (Or.inr ⟨_, mem_cons_self, .booleanOr, rfl⟩))

end Sentry.EventSearch
