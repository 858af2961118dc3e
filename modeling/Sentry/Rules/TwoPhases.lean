import Sentry.Rules.Processor

/-!
# A rule in two phases

A rule with slow conditions is enqueued after its filters and fast conditions have been checked, and
its slow conditions are evaluated later. The two phases are compared with one check of all
(`fires_iff_satisfied_iff`). They decide otherwise for two kinds of rules: the match `none` is never
applied to conditions, and a rule without `action_match` is taken for `all` when it is enqueued and
for `any` when its slow conditions are evaluated.
-/

namespace Sentry.Rules

open List

variable {Action : Type*}

def Satisfies (name : MatchName) (truths : List Bool) : Prop :=
  truths = [] ∨ ∃ predicateFunc ∈ getMatchFunction name, predicateFunc truths = true

namespace RuleProcessor

variable (processor : RuleProcessor Action) (results : ConditionGroupResults) (rule : Rule Action)

def conditions : List ConditionData :=
  (splitConditionsAndFilters processor.ruleType rule.conditions).1

/-- The filters of a rule. -/
def filters : List ConditionData :=
  (splitConditionsAndFilters processor.ruleType rule.conditions).2

def isTrue (condition : ConditionData) : Bool :=
  if isConditionSlow condition then
    passesComparison results condition processor.groupId rule.environmentId
  else processor.passes rule condition

/-- The filters satisfy `filter_match`. -/
def FiltersSatisfied : Prop :=
  Satisfies (orDefault defaultFilterMatch rule.filterMatch)
    ((processor.filters rule).map (processor.passes rule))

/-- The conditions, fast and slow together, satisfy `action_match`. -/
def ConditionsSatisfied : Prop :=
  Satisfies (orDefault defaultConditionMatch rule.actionMatch)
    ((processor.conditions rule).map (processor.isTrue results rule))

/-- The rule fires for the group of the event, directly, or after it was enqueued and evaluated with
other rules and groups. -/
def FiresForGroup (alertRules : List (Rule Action)) (rulesToGroups : ℕ → List ℕ)
    (status : GroupRuleStatus) : Prop :=
  processor.applyRule rule status = .fired ∨
    processor.applyRule rule status = .enqueued ∧
      (rule, processor.groupId) ∈
        getRulesToFire results (rulesToSlowConditions processor.ruleType alertRules) rulesToGroups

/-- The match `none`, and a condition that is true. -/
def IgnoresNone : Prop :=
  rule.actionMatch = some .none ∧ ∃ c ∈ processor.conditions rule, processor.isTrue results rule c

/-- No match: every fast condition and some but not every slow one is true. -/
def TakesAnyForAll : Prop :=
  rule.actionMatch = none ∧
    (∀ c ∈ processor.conditions rule, ¬ isConditionSlow c → processor.isTrue results rule c) ∧
    (∃ c ∈ processor.conditions rule, isConditionSlow c ∧ processor.isTrue results rule c) ∧
    ∃ c ∈ processor.conditions rule, isConditionSlow c ∧ ¬ processor.isTrue results rule c

/-- The event is in the environment of the rule, and the rule is not within its frequency window.
-/
structure IsActive (status : GroupRuleStatus) : Prop where
  environment : ∃ environment ∈ processor.environment, ∀ id ∈ rule.environmentId, id = environment
  lastActive : ∀ time ∈ status.lastActive, time ≤ processor.freqOffset rule
  rowLastActive : ∀ time ∈ status.rowLastActive, time ≤ processor.freqOffset rule

end RuleProcessor

variable {results : ConditionGroupResults} {rule : Rule Action}
  {slowConditions : List ConditionData}
  {groupId : ℕ}

/-- The loop adds the group only for `any`, and only then does it not count to the end. -/
theorem matchSlowConditions_any (passes : ConditionData → Bool) (conditions : List ConditionData)
    (n : ℕ) : (matchSlowConditions .any passes conditions n).1 = conditions.any passes := by
  induction conditions with
  | nil => rfl
  | cons condition rest ih =>
    by_cases hpasses : passes condition = true
    · simp [matchSlowConditions, hpasses]
    · simp [matchSlowConditions, hpasses, ih]

theorem matchSlowConditions_all (passes : ConditionData → Bool) (conditions : List ConditionData)
    (n : ℕ) :
    matchSlowConditions .all passes conditions n = (false, n + conditions.countP passes) := by
  induction conditions generalizing n with
  | nil => rfl
  | cons condition rest ih =>
    by_cases hpasses : passes condition = true
    · simp only [matchSlowConditions, hpasses, if_true, ih, countP_cons_of_pos]
      rw [Nat.add_assoc, Nat.add_comm 1]
    · simp [matchSlowConditions, hpasses, ih]

/-- A rule that is evaluated for a group fires for `any` if some slow condition passes, -/
theorem ruleFiresForGroup_any (hmatch : rule.actionMatch.getD .any = .any) :
    ruleFiresForGroup results rule slowConditions groupId =
      slowConditions.any fun c ↦ passesComparison results c groupId rule.environmentId := by
  simp only [ruleFiresForGroup, hmatch, matchSlowConditions_any]
  simp

/-- and for `all` if every slow condition passes. -/
theorem ruleFiresForGroup_all (hmatch : rule.actionMatch = some .all) :
    ruleFiresForGroup results rule slowConditions groupId =
      slowConditions.all fun c ↦ passesComparison results c groupId rule.environmentId := by
  simp only [ruleFiresForGroup, hmatch, Option.getD_some, matchSlowConditions_all]
  rw [Bool.eq_iff_iff]
  simp [countP_eq_length]

theorem mem_getRulesToFire {ruleType : Str → Option Str} {alertRules : List (Rule Action)}
    {rulesToGroups : ℕ → List ℕ} (hrule : rule ∈ alertRules)
    (hgroup : groupId ∈ rulesToGroups rule.id) : (rule, groupId) ∈
        getRulesToFire results (rulesToSlowConditions ruleType alertRules) rulesToGroups ↔
      ruleFiresForGroup results rule (getSlowConditions ruleType rule) groupId = true := by
  simp only [getRulesToFire, rulesToSlowConditions, mem_flatMap, mem_map, mem_filter, Prod.mk.injEq]
  constructor
  · rintro ⟨_, ⟨other, -, rfl⟩, g, ⟨-, hfires⟩, rfl, rfl⟩
    exact hfires
  · intro hfires
    exact ⟨_, ⟨rule, hrule, rfl⟩, groupId, ⟨hgroup, hfires⟩, rfl, rfl⟩

namespace RuleProcessor

variable {processor : RuleProcessor Action} {status : GroupRuleStatus}
  {alertRules : List (Rule Action)} {rulesToGroups : ℕ → List ℕ}

def fastConditions (processor : RuleProcessor Action) (rule : Rule Action) : List ConditionData :=
  (processor.conditions rule).filter fun condition ↦ !isConditionSlow condition

theorem satisfies_nil (name : MatchName) : Satisfies name [] := Or.inl rfl

theorem filtersPass_iff :
    processor.filtersPass rule (processor.filters rule) = true ↔
      processor.FiltersSatisfied rule := by
  unfold filtersPass FiltersSatisfied
  by_cases hnil : processor.filters rule = []
  · simp [hnil, satisfies_nil]
  · rw [if_neg hnil]
    cases hfunc : getMatchFunction (orDefault defaultFilterMatch rule.filterMatch) with
    | none | some => simp [Satisfies, hfunc, hnil]

theorem applyRule_eq (hactive : processor.IsActive rule status) :
    processor.applyRule rule status =
      if processor.filtersPass rule (processor.filters rule) then
        processor.checkConditions rule (processor.fastConditions rule)
          (getSlowConditions processor.ruleType rule)
      else .returned := by
  obtain ⟨environment, henvironment, hrule⟩ := hactive.environment
  have hmatch : rule.environmentId.any (· ≠ environment) = false := by
    cases hid : rule.environmentId with
    | none => rfl
    | some id => simp [hrule id (by rw [hid]; rfl)]
  have hwindow (time : Option ℚ) (h : ∀ t ∈ time, t ≤ processor.freqOffset rule) :
      time.any (· > processor.freqOffset rule) = false := by
    cases time with
    | none => rfl
    | some t => simpa using h t rfl
  have hslow : (groupConditionsBySpeed (processor.conditions rule)).2 =
      getSlowConditions processor.ruleType rule := by
    simp [groupConditionsBySpeed, getSlowConditions, conditions, partition_eq_filter_filter,
      Function.comp_def]
  have hfast : (groupConditionsBySpeed (processor.conditions rule)).1 =
      processor.fastConditions rule := by
    simp [groupConditionsBySpeed, fastConditions, partition_eq_filter_filter]
  rw [applyRule, Option.mem_def.mp henvironment]
  simp only [hmatch, hwindow _ hactive.lastActive, hwindow _ hactive.rowLastActive,
    Bool.false_eq_true, if_false]
  rw [show (splitConditionsAndFilters processor.ruleType rule.conditions).1 =
    processor.conditions rule from rfl, show (splitConditionsAndFilters processor.ruleType
    rule.conditions).2 = processor.filters rule from rfl, hfast, hslow]
  by_cases hfilters : processor.filtersPass rule (processor.filters rule) = true
  · rw [if_neg (by simp [hfilters]), if_pos hfilters]
    cases processor.checkConditions rule (processor.fastConditions rule)
      (getSlowConditions processor.ruleType rule) <;> rfl
  · rw [if_pos (by simpa using hfilters), if_neg hfilters]

variable {c : ConditionData}

theorem mem_slowConditions :
    c ∈ getSlowConditions processor.ruleType rule ↔
      c ∈ processor.conditions rule ∧ isConditionSlow c = true :=
  mem_filter

theorem mem_fastConditions :
    c ∈ processor.fastConditions rule ↔
      c ∈ processor.conditions rule ∧ ¬ isConditionSlow c = true := by
  simp [fastConditions]

theorem isTrue_of_slow (hslow : isConditionSlow c = true) :
    processor.isTrue results rule c =
      passesComparison results c processor.groupId rule.environmentId := if_pos hslow

theorem map_passes_fastConditions (results : ConditionGroupResults) :
    (processor.fastConditions rule).map (processor.passes rule) =
      (processor.fastConditions rule).map (processor.isTrue results rule) :=
  map_congr_left fun _ hc ↦ (if_neg (mem_fastConditions.mp hc).2).symm

theorem all_slowConditions :
    ((getSlowConditions processor.ruleType rule).all fun c ↦
        passesComparison results c processor.groupId rule.environmentId) = true ↔
      ∀ c ∈ processor.conditions rule, isConditionSlow c = true →
        processor.isTrue results rule c = true := by
  rw [all_eq_true]
  constructor
  · intro hall c hc hslow
    rw [isTrue_of_slow hslow]
    exact hall c (mem_slowConditions.mpr ⟨hc, hslow⟩)
  · intro hall c hc
    obtain ⟨hmem, hslow⟩ := mem_slowConditions.mp hc
    rw [← isTrue_of_slow hslow]
    exact hall c hmem hslow

theorem any_slowConditions :
    ((getSlowConditions processor.ruleType rule).any fun c ↦
        passesComparison results c processor.groupId rule.environmentId) = true ↔
      ∃ c ∈ processor.conditions rule, isConditionSlow c = true ∧
        processor.isTrue results rule c = true := by
  rw [any_eq_true]
  constructor
  · rintro ⟨c, hc, htrue⟩
    obtain ⟨hmem, hslow⟩ := mem_slowConditions.mp hc
    exact ⟨c, hmem, hslow, (isTrue_of_slow hslow).trans htrue⟩
  · rintro ⟨c, hmem, hslow, htrue⟩
    exact ⟨c, mem_slowConditions.mpr ⟨hmem, hslow⟩, (isTrue_of_slow hslow).symm.trans htrue⟩

theorem all_fastConditions (results : ConditionGroupResults) :
    ((processor.fastConditions rule).map (processor.passes rule)).all id = true ↔
      ∀ c ∈ processor.conditions rule, ¬ isConditionSlow c = true →
        processor.isTrue results rule c = true := by
  rw [map_passes_fastConditions results, all_map, all_eq_true]
  constructor
  · intro hall c hc hfast
    exact hall c (mem_fastConditions.mpr ⟨hc, hfast⟩)
  · intro hall c hc
    exact hall c (mem_fastConditions.mp hc).1 (mem_fastConditions.mp hc).2

theorem any_fastConditions (results : ConditionGroupResults) :
    ((processor.fastConditions rule).map (processor.passes rule)).any id = true ↔
      ∃ c ∈ processor.conditions rule, ¬ isConditionSlow c = true ∧
        processor.isTrue results rule c = true := by
  rw [map_passes_fastConditions results, any_map, any_eq_true]
  constructor
  · rintro ⟨c, hc, htrue⟩
    exact ⟨c, (mem_fastConditions.mp hc).1, (mem_fastConditions.mp hc).2, htrue⟩
  · rintro ⟨c, hmem, hfast, htrue⟩
    exact ⟨c, mem_fastConditions.mpr ⟨hmem, hfast⟩, htrue⟩

theorem conditions_eq_nil_iff :
    processor.conditions rule = [] ↔
      getSlowConditions processor.ruleType rule = [] ∧ processor.fastConditions rule = [] := by
  simp only [eq_nil_iff_forall_not_mem, mem_slowConditions, mem_fastConditions]
  constructor
  · exact fun hnil ↦ ⟨fun c hc ↦ hnil c hc.1, fun c hc ↦ hnil c hc.1⟩
  · intro ⟨hslow, hfast⟩ c hc
    by_cases h : isConditionSlow c = true
    · exact hslow c ⟨hc, h⟩
    · exact hfast c ⟨hc, h⟩

def ConditionsDecide (processor : RuleProcessor Action) (results : ConditionGroupResults)
    (rule : Rule Action) : Prop :=
  let outcome := processor.checkConditions rule (processor.fastConditions rule)
    (getSlowConditions processor.ruleType rule)
  outcome = .fired ∨ outcome = .enqueued ∧
    ruleFiresForGroup results rule (getSlowConditions processor.ruleType rule)
      processor.groupId = true

theorem firesForGroup_iff (hactive : processor.IsActive rule status) (hrule : rule ∈ alertRules)
    (hgroup : processor.groupId ∈ rulesToGroups rule.id) :
    processor.FiresForGroup results rule alertRules rulesToGroups status ↔
      processor.FiltersSatisfied rule ∧ processor.ConditionsDecide results rule := by
  rw [FiresForGroup, mem_getRulesToFire hrule hgroup, applyRule_eq hactive, ← filtersPass_iff]
  by_cases hfilters : processor.filtersPass rule (processor.filters rule) = true
  · simp [hfilters, ConditionsDecide]
  · simp [hfilters]

theorem conditionsDecide_nil (hnil : processor.conditions rule = []) :
    processor.ConditionsDecide results rule :=
  Or.inl (if_pos (conditions_eq_nil_iff.mp hnil))

theorem slowConditions_eq_nil_iff :
    getSlowConditions processor.ruleType rule = [] ↔
      ∀ c ∈ processor.conditions rule, ¬ isConditionSlow c = true := by
  simp only [eq_nil_iff_forall_not_mem, mem_slowConditions, not_and]

/-- For `any`, one true condition decides, in whichever phase. -/
theorem conditionsDecide_any (hne : processor.conditions rule ≠ [])
    (hmatch : rule.actionMatch = some .any) :
    processor.ConditionsDecide results rule ↔
      ∃ c ∈ processor.conditions rule, processor.isTrue results rule c = true := by
  have hlists := mt conditions_eq_nil_iff.mpr hne
  have hphases : (∃ c ∈ processor.conditions rule, processor.isTrue results rule c = true) ↔
      ((processor.fastConditions rule).map (processor.passes rule)).any id = true ∨
        ((getSlowConditions processor.ruleType rule).any fun c ↦
          passesComparison results c processor.groupId rule.environmentId) = true := by
    rw [any_fastConditions results, any_slowConditions]
    constructor
    · rintro ⟨c, hc, htrue⟩
      by_cases hslow : isConditionSlow c = true
      · exact Or.inr ⟨c, hc, hslow, htrue⟩
      · exact Or.inl ⟨c, hc, hslow, htrue⟩
    · rintro (⟨c, hc, -, htrue⟩ | ⟨c, hc, -, htrue⟩)
      · exact ⟨c, hc, htrue⟩
      · exact ⟨c, hc, htrue⟩
  rw [hphases, ConditionsDecide, ruleFiresForGroup_any (by rw [hmatch]; rfl)]
  simp only [checkConditions, if_neg hlists, hmatch, orDefault, getMatchFunction]
  by_cases hfast : ((processor.fastConditions rule).map (processor.passes rule)).any id = true
  · simp [hfast]
  · by_cases hslow : getSlowConditions processor.ruleType rule = []
    · simp [hfast, hslow]
    · simp [hfast, hslow]

/-- For `all`, every condition of either phase has to be true. -/
theorem conditionsDecide_all (hne : processor.conditions rule ≠ [])
    (hmatch : rule.actionMatch = some .all) :
    processor.ConditionsDecide results rule ↔
      ∀ c ∈ processor.conditions rule, processor.isTrue results rule c = true := by
  have hlists := mt conditions_eq_nil_iff.mpr hne
  have hphases : (∀ c ∈ processor.conditions rule, processor.isTrue results rule c = true) ↔
      ((processor.fastConditions rule).map (processor.passes rule)).all id = true ∧
        ((getSlowConditions processor.ruleType rule).all fun c ↦
          passesComparison results c processor.groupId rule.environmentId) = true := by
    rw [all_fastConditions results, all_slowConditions]
    constructor
    · exact fun hall ↦ ⟨fun c hc _ ↦ hall c hc, fun c hc _ ↦ hall c hc⟩
    · intro ⟨hfast, hslow⟩ c hc
      by_cases h : isConditionSlow c = true
      · exact hslow c hc h
      · exact hfast c hc h
  rw [hphases, ConditionsDecide, ruleFiresForGroup_all hmatch]
  simp only [checkConditions, if_neg hlists, hmatch, orDefault, getMatchFunction]
  by_cases hfast : ((processor.fastConditions rule).map (processor.passes rule)).all id = true
  · by_cases hslow : getSlowConditions processor.ruleType rule = []
    · simp [hfast, hslow]
    · simp [hfast, hslow]
  · simp [hfast]

/-- For `none`, the conditions do not matter. -/
theorem conditionsDecide_none (hmatch : rule.actionMatch = some .none) :
    processor.ConditionsDecide results rule := by
  by_cases hnil : processor.conditions rule = []
  · exact conditionsDecide_nil hnil
  · left
    simp only [checkConditions, if_neg (mt conditions_eq_nil_iff.mpr hnil), hmatch, orDefault,
      getMatchFunction]

theorem conditionsDecide_missing (hne : processor.conditions rule ≠ [])
    (hmatch : rule.actionMatch = none) :
    processor.ConditionsDecide results rule ↔
      (∀ c ∈ processor.conditions rule, ¬ isConditionSlow c = true →
        processor.isTrue results rule c = true) ∧
      ((∀ c ∈ processor.conditions rule, ¬ isConditionSlow c = true) ∨
        ∃ c ∈ processor.conditions rule, isConditionSlow c = true ∧
          processor.isTrue results rule c = true) := by
  have hlists := mt conditions_eq_nil_iff.mpr hne
  rw [← all_fastConditions results, ← any_slowConditions, ← slowConditions_eq_nil_iff,
    ConditionsDecide, ruleFiresForGroup_any (by rw [hmatch]; rfl)]
  simp only [checkConditions, if_neg hlists, hmatch, orDefault, defaultConditionMatch,
    getMatchFunction]
  by_cases hfast : ((processor.fastConditions rule).map (processor.passes rule)).all id = true
  · by_cases hslow : getSlowConditions processor.ruleType rule = []
    · simp [hfast, hslow]
    · simp [hfast, hslow]
  · simp [hfast]

theorem not_conditionsDecide_unsupported (hne : processor.conditions rule ≠ []) {name : Str}
    (hname : name ≠ []) (hmatch : rule.actionMatch = some (.unsupported name)) :
    ¬ processor.ConditionsDecide results rule := by
  have hdefault : orDefault defaultConditionMatch (some (.unsupported name)) =
      .unsupported name := by
    cases name with
    | nil => exact absurd rfl hname
    | cons head tail => rfl
  have hlists := mt conditions_eq_nil_iff.mpr hne
  simp only [ConditionsDecide, checkConditions, if_neg hlists, hmatch, hdefault, getMatchFunction]
  simp

theorem conditionsSatisfied_nil (hnil : processor.conditions rule = []) :
    processor.ConditionsSatisfied results rule := by
  rw [ConditionsSatisfied, hnil]
  exact satisfies_nil _

section

variable (hne : processor.conditions rule ≠ [])

include hne

theorem conditionsSatisfied_iff_of_func {predicateFunc : List Bool → Bool}
    (hfunc : getMatchFunction (orDefault defaultConditionMatch rule.actionMatch) =
      some predicateFunc) :
    processor.ConditionsSatisfied results rule ↔
      predicateFunc ((processor.conditions rule).map (processor.isTrue results rule)) = true := by
  simp [ConditionsSatisfied, Satisfies, hfunc, hne]

theorem conditionsSatisfied_any (hmatch : rule.actionMatch = some .any) :
    processor.ConditionsSatisfied results rule ↔
      ∃ c ∈ processor.conditions rule, processor.isTrue results rule c = true := by
  rw [conditionsSatisfied_iff_of_func hne (by rw [hmatch]; rfl)]
  simp

/-- A rule without a match is one with the match `all`. -/
theorem conditionsSatisfied_all (hmatch : orDefault defaultConditionMatch rule.actionMatch = .all) :
    processor.ConditionsSatisfied results rule ↔
      ∀ c ∈ processor.conditions rule, processor.isTrue results rule c = true := by
  rw [conditionsSatisfied_iff_of_func hne (by rw [hmatch]; rfl)]
  simp

theorem conditionsSatisfied_none (hmatch : rule.actionMatch = some .none) :
    processor.ConditionsSatisfied results rule ↔
      ¬ ∃ c ∈ processor.conditions rule, processor.isTrue results rule c = true := by
  rw [conditionsSatisfied_iff_of_func hne (by rw [hmatch]; rfl)]
  simp

theorem not_conditionsSatisfied_unsupported {name : Str}
    (hname : name ≠ []) (hmatch : rule.actionMatch = some (.unsupported name)) :
    ¬ processor.ConditionsSatisfied results rule := by
  have hfunc : getMatchFunction (orDefault defaultConditionMatch rule.actionMatch) = none := by
    rw [hmatch]
    cases name with
    | nil => exact absurd rfl hname
    | cons head tail => rfl
  simp [ConditionsSatisfied, Satisfies, hfunc, hne]

end

theorem conditionsDecide_iff_satisfied_iff (hnull : rule.actionMatch ≠ some (.unsupported [])) :
    (processor.ConditionsDecide results rule ↔ processor.ConditionsSatisfied results rule) ↔
      ¬ (processor.IgnoresNone results rule ∨ processor.TakesAnyForAll results rule) := by
  by_cases hnil : processor.conditions rule = []
  · simp [conditionsDecide_nil hnil, conditionsSatisfied_nil hnil, IgnoresNone, TakesAnyForAll,
      hnil]
  cases hmatch : rule.actionMatch with
  | none =>
    rw [conditionsDecide_missing hnil hmatch, conditionsSatisfied_all hnil (by rw [hmatch]; rfl)]
    simp only [IgnoresNone, TakesAnyForAll, hmatch, reduceCtorEq, false_and, false_or, true_and]
    constructor
    · rintro hiff ⟨hfast, hsome, c, hc, -, hfalse⟩
      exact hfalse (hiff.mp ⟨hfast, Or.inr hsome⟩ c hc)
    · intro hnot
      constructor
      · rintro ⟨hfast, hslow⟩ c hc
        by_contra hfalse
        have hcslow : isConditionSlow c = true := by
          by_contra hcfast
          exact hfalse (hfast c hc hcfast)
        rcases hslow with hnone | hsome
        · exact hnone c hc hcslow
        · exact hnot ⟨hfast, hsome, c, hc, hcslow, hfalse⟩
      · intro hall
        refine ⟨fun c hc _ ↦ hall c hc, ?_⟩
        by_cases hsome : ∃ c ∈ processor.conditions rule, isConditionSlow c = true
        · obtain ⟨c, hc, hslow⟩ := hsome
          exact Or.inr ⟨c, hc, hslow, hall c hc⟩
        · exact Or.inl fun c hc hslow ↦ hsome ⟨c, hc, hslow⟩
  | some name =>
    cases name with
    | all =>
      rw [conditionsDecide_all hnil hmatch, conditionsSatisfied_all hnil (by rw [hmatch]; rfl)]
      simp [IgnoresNone, TakesAnyForAll, hmatch]
    | any =>
      rw [conditionsDecide_any hnil hmatch, conditionsSatisfied_any hnil hmatch]
      simp [IgnoresNone, TakesAnyForAll, hmatch]
    | none =>
      rw [conditionsSatisfied_none hnil hmatch, iff_true_left (conditionsDecide_none hmatch)]
      simp [IgnoresNone, TakesAnyForAll, hmatch]
    | unsupported text =>
      have hname : text ≠ [] := fun htext ↦ hnull (by rw [hmatch, htext])
      rw [iff_false_left (not_conditionsDecide_unsupported hnil hname hmatch)]
      simp [not_conditionsSatisfied_unsupported hnil hname hmatch, IgnoresNone, TakesAnyForAll,
        hmatch]

/-- Assumes: the rule is active, its match is not null, and if it is enqueued it is evaluated. The
rule fires for the group, directly or after it was enqueued, if and only if its filters and its
conditions satisfy their matches, but for the rules whose filters are satisfied and of which a
condition is true although the match is `none`, or which have no match and of which every fast
condition and some but not every slow one is true. -/
theorem fires_iff_satisfied_iff (hactive : processor.IsActive rule status)
    (hnull : rule.actionMatch ≠ some (.unsupported [])) (hrule : rule ∈ alertRules)
    (hgroup : processor.groupId ∈ rulesToGroups rule.id) :
    (processor.FiresForGroup results rule alertRules rulesToGroups status ↔
      processor.FiltersSatisfied rule ∧ processor.ConditionsSatisfied results rule) ↔
    ¬ (processor.FiltersSatisfied rule ∧
      (processor.IgnoresNone results rule ∨ processor.TakesAnyForAll results rule)) := by
  rw [firesForGroup_iff hactive hrule hgroup, and_congr_right_iff, not_and]
  exact imp_congr_right fun _ ↦ conditionsDecide_iff_satisfied_iff hnull

end RuleProcessor

def eventFrequency (value : ℚ) : ConditionData :=
  ⟨"event_frequency".toList, "1h".toList, none, none, value⟩

/-- A rule without a match and with two slow conditions. -/
def twoSlowConditions : Rule Unit :=
  ⟨1, none, none, none, none, [eventFrequency 5, eventFrequency 50], []⟩

/-- An event of group 7. -/
def eventOfGroup : RuleProcessor Unit where
  groupId := 7
  isUnresolved := true
  environment := some 1
  now := 0
  ruleType _ := some "condition/event".toList
  conditionMatches _ _ := some true

/-- Group 7 has had ten events. -/
def tenEvents : ConditionGroupResults :=
  [(⟨"event_frequency".toList, "1h".toList, none, none⟩, [(7, 10)])]

/-- No rule has been active. -/
def neverActive : GroupRuleStatus := ⟨none, none⟩

theorem isActive_twoSlowConditions : eventOfGroup.IsActive twoSlowConditions neverActive where
  environment := ⟨1, rfl, fun _ hid ↦ absurd hid (Option.not_mem_none _)⟩
  lastActive _ h := absurd h (Option.not_mem_none _)
  rowLastActive _ h := absurd h (Option.not_mem_none _)

/-- Ten events are more than 5 and not more than 50, and the rule fires. -/
theorem twoSlowConditions_fires_unsatisfied :
    ¬ (eventOfGroup.FiresForGroup tenEvents twoSlowConditions [twoSlowConditions] (fun _ ↦ [7])
        neverActive ↔
      eventOfGroup.FiltersSatisfied twoSlowConditions ∧
        eventOfGroup.ConditionsSatisfied tenEvents twoSlowConditions) := by
  intro hiff
  have henqueued : eventOfGroup.applyRule twoSlowConditions neverActive = .enqueued := by
    decide +kernel
  have hfires : (twoSlowConditions, 7) ∈ getRulesToFire tenEvents
      (rulesToSlowConditions eventOfGroup.ruleType [twoSlowConditions]) fun _ ↦ [7] :=
    (mem_getRulesToFire (mem_singleton_self _) (mem_singleton_self _)).mpr
      (by decide +kernel)
  have hsatisfied := (hiff.mp (Or.inr ⟨henqueued, hfires⟩)).2
  rw [RuleProcessor.conditionsSatisfied_all (by decide +kernel) rfl] at hsatisfied
  exact absurd hsatisfied (by decide +kernel)

theorem fires_iff_satisfied_iff_twoSlowConditions :
    (eventOfGroup.FiresForGroup tenEvents twoSlowConditions [twoSlowConditions] (fun _ ↦ [7])
        neverActive ↔
      eventOfGroup.FiltersSatisfied twoSlowConditions ∧
        eventOfGroup.ConditionsSatisfied tenEvents twoSlowConditions) ↔
    ¬ (eventOfGroup.FiltersSatisfied twoSlowConditions ∧
      (eventOfGroup.IgnoresNone tenEvents twoSlowConditions ∨
        eventOfGroup.TakesAnyForAll tenEvents twoSlowConditions)) :=
  RuleProcessor.fires_iff_satisfied_iff isActive_twoSlowConditions (by decide)
    (mem_singleton_self _) (mem_singleton_self _)

end Sentry.Rules
