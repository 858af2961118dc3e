import Sentry.Library.Dictionary
import Mathlib.Data.List.Infix
import Mathlib.Data.Rat.Floor

/-!
# Issue alert rules

`rules/processing/processor.py`, and the evaluation of slow conditions in
`rules/processing/delayed_processing.py`. `apply_rule` checks the filters and the fast conditions of
a rule; it fires the rule, or enqueues it when slow conditions have still to be evaluated, which
`get_rules_to_fire` does. The type of a condition, whether a condition or a filter matches, and the
futures of an action are given. `unsupported ""` also stands for a match that is null.
-/

namespace Sentry.Rules

open Library

/-- A string as its characters. -/
abbrev Str := List Char

scoped instance instLawfulBEqStr : LawfulBEq Str := List.instLawfulBEq

/-- The value of `action_match` and `filter_match`. -/
inductive MatchName
  | all
  | any
  | none
  | unsupported (name : Str)
  deriving DecidableEq

/-- `get_match_function` -/
def getMatchFunction : MatchName → Option (List Bool → Bool)
  | .all => some fun bools ↦ bools.all id
  | .any => some fun bools ↦ bools.any id
  | .none => some fun bools ↦ !bools.any id
  | .unsupported _ => none

/-- `Rule.DEFAULT_CONDITION_MATCH` -/
def defaultConditionMatch : MatchName := .all

/-- `Rule.DEFAULT_FILTER_MATCH` -/
def defaultFilterMatch : MatchName := .all

/-- `Rule.DEFAULT_FREQUENCY`, in minutes. -/
def defaultFrequency : ℕ := 30

/-- `data.get(key) or default` -/
def orDefault (default : MatchName) : Option MatchName → MatchName
  | some (.unsupported []) => default
  | some name => name
  | none => default

/-- A condition or filter of a rule. The fields after the id are those of a slow condition. -/
structure ConditionData where
  id : Str
  interval : Str
  comparisonType : Option Str
  comparisonInterval : Option Str
  value : ℚ
  deriving DecidableEq

/-- `Rule`, with the part of its data that decides. -/
structure Rule (Action : Type*) where
  id : ℕ
  environmentId : Option ℕ
  actionMatch : Option MatchName
  filterMatch : Option MatchName
  frequency : Option ℕ
  conditions : List ConditionData
  actions : List Action

/-- `SLOW_CONDITION_MATCHES` -/
def slowConditionMatches : List Str := ["event_frequency".toList]

/-- `is_condition_slow` -/
def isConditionSlow (condition : ConditionData) : Bool :=
  slowConditionMatches.any fun slowConditions ↦ decide (slowConditions <:+: condition.id)

/-- `split_conditions_and_filters`. A class that is not registered has no type. -/
def splitConditionsAndFilters (ruleType : Str → Option Str)
    (ruleConditionList : List ConditionData) : List ConditionData × List ConditionData :=
  ruleConditionList.partition fun condition ↦
    decide (ruleType condition.id = some "condition/event".toList)

/-- `group_conditions_by_speed`: the fast ones and the slow ones. -/
def groupConditionsBySpeed (conditions : List ConditionData) :
    List ConditionData × List ConditionData :=
  conditions.partition fun condition ↦ !isConditionSlow condition

/-- `get_slow_conditions` -/
def getSlowConditions {Action : Type*} (ruleType : Str → Option Str) (rule : Rule Action) :
    List ConditionData :=
  (splitConditionsAndFilters ruleType rule.conditions).1.filter isConditionSlow

/-- `UniqueConditionQuery` -/
structure UniqueConditionQuery where
  clsId : Str
  interval : Str
  environmentId : Option ℕ
  comparisonInterval : Option Str
  deriving DecidableEq

/-- `ComparisonType.PERCENT` -/
def percent : Str := "percent".toList

/-- `DEFAULT_COMPARISON_INTERVAL` -/
def defaultComparisonInterval : Str := "5m".toList

/-- `generate_unique_queries` -/
def generateUniqueQueries (conditionData : ConditionData) (environmentId : Option ℕ) :
    List UniqueConditionQuery :=
  let query : UniqueConditionQuery :=
    ⟨conditionData.id, conditionData.interval, environmentId, none⟩
  if conditionData.comparisonType = some percent then
    [query, { query with
      comparisonInterval :=
        some (conditionData.comparisonInterval.getD defaultComparisonInterval) }]
  else [query]

abbrev ConditionGroupResults := List (UniqueConditionQuery × List (ℕ × ℚ))

/-- `percent_increase`; `int` of a positive number rounds down. -/
def percentIncrease (result comparisonResult : ℚ) : ℤ :=
  if comparisonResult > 0 then ⌊max 0 ((result - comparisonResult) / comparisonResult * 100)⌋ else 0

/-- `passes_comparison`: no result for a query or a group is a `KeyError`. -/
def passesComparison (conditionGroupResults : ConditionGroupResults)
    (conditionData : ConditionData) (groupId : ℕ) (environmentId : Option ℕ) : Bool :=
  let queryValue (query : UniqueConditionQuery) : Option ℚ :=
    (getItem conditionGroupResults query).bind fun results ↦ getItem results groupId
  match (generateUniqueQueries conditionData environmentId).map queryValue with
  | [some value] => decide (value > conditionData.value)
  | [some value, some comparisonValue] =>
    decide ((percentIncrease value comparisonValue : ℚ) > conditionData.value)
  | _ => false

/-- The loop of `get_rules_to_fire` over the slow conditions of a rule: whether the group is added,
and `conditions_matched`. -/
def matchSlowConditions (actionMatch : MatchName) (passes : ConditionData → Bool) :
    List ConditionData → ℕ → Bool × ℕ
  | [], conditionsMatched => (false, conditionsMatched)
  | slowCondition :: rest, conditionsMatched =>
    if passes slowCondition then
      match actionMatch with
      | .any => (true, conditionsMatched)
      | .all => matchSlowConditions actionMatch passes rest (conditionsMatched + 1)
      | _ => matchSlowConditions actionMatch passes rest conditionsMatched
    else matchSlowConditions actionMatch passes rest conditionsMatched

variable {Action : Type*}

/-- `get_rules_to_fire` for one rule and one group. -/
def ruleFiresForGroup (conditionGroupResults : ConditionGroupResults) (alertRule : Rule Action)
    (slowConditions : List ConditionData) (groupId : ℕ) : Bool :=
  let actionMatch := alertRule.actionMatch.getD .any
  let matched := matchSlowConditions actionMatch
    (fun slowCondition ↦ passesComparison conditionGroupResults slowCondition groupId
      alertRule.environmentId) slowConditions 0
  matched.1 || (decide (actionMatch = .all) && decide (matched.2 = slowConditions.length))

/-- `get_rules_to_fire`: the rules with their slow conditions, and the groups of a rule's id. -/
def getRulesToFire (conditionGroupResults : ConditionGroupResults)
    (rulesToSlowConditions : List (Rule Action × List ConditionData))
    (rulesToGroups : ℕ → List ℕ) : List (Rule Action × ℕ) :=
  rulesToSlowConditions.flatMap fun (alertRule, slowConditions) ↦
    ((rulesToGroups alertRule.id).filter
      (ruleFiresForGroup conditionGroupResults alertRule slowConditions)).map
      fun groupId ↦ (alertRule, groupId)

/-- `rules_to_slow_conditions` of `apply_delayed`. -/
def rulesToSlowConditions (ruleType : Str → Option Str) (alertRules : List (Rule Action)) :
    List (Rule Action × List ConditionData) :=
  alertRules.map fun rule ↦ (rule, getSlowConditions ruleType rule)

/-- `CallbackFuture` -/
structure CallbackFuture (Key Callback Kwargs : Type*) where
  callback : Callback
  kwargs : Kwargs
  key : Option Key

/-- `RuleFuture` -/
structure RuleFuture (Action Kwargs : Type*) where
  rule : Rule Action
  kwargs : Kwargs

variable {Key Callback Kwargs : Type*} [DecidableEq Key] [DecidableEq Callback]

def CallbackFuture.groupKey (future : CallbackFuture Key Callback Kwargs) : Key ⊕ Callback :=
  match future.key with
  | some key => .inl key
  | none => .inr future.callback

abbrev GroupedFutures (Action Key Callback Kwargs : Type*) :=
  List ((Key ⊕ Callback) × (Callback × List (RuleFuture Action Kwargs)))

/-- One future in the loop of `activate_downstream_actions`. -/
def addFuture (rule : Rule Action) (groupedFutures : GroupedFutures Action Key Callback Kwargs)
    (future : CallbackFuture Key Callback Kwargs) : GroupedFutures Action Key Callback Kwargs :=
  match getItem groupedFutures future.groupKey with
  | none => setItem future.groupKey (future.callback, [⟨rule, future.kwargs⟩]) groupedFutures
  | some (callback, futures) =>
    setItem future.groupKey (callback, futures ++ [⟨rule, future.kwargs⟩]) groupedFutures

/-- `activate_downstream_actions`. An action whose class is not registered, or that fails, has no
futures. -/
def activateDownstreamActions
    (after : Rule Action → Action → Option (List (CallbackFuture Key Callback Kwargs)))
    (rule : Rule Action) : GroupedFutures Action Key Callback Kwargs :=
  rule.actions.foldl (fun groupedFutures action ↦
    match after rule action with
    | none => groupedFutures
    | some results => results.foldl (addFuture rule) groupedFutures) []

/-- `GroupRuleStatus`, as it was read and as its row is when it is updated; times in minutes. -/
structure GroupRuleStatus where
  lastActive : Option ℚ
  rowLastActive : Option ℚ

/-- What `RuleProcessor` knows of an event: its group, its environment if that exists, the classes
of conditions, and whether a condition matches, `none` when its class is not registered. -/
structure RuleProcessor (Action : Type*) where
  groupId : ℕ
  isUnresolved : Bool
  environment : Option ℕ
  now : ℚ
  ruleType : Str → Option Str
  conditionMatches : Rule Action → ConditionData → Option Bool

/-- How `apply_rule` ends. -/
inductive Outcome
  | returned
  | enqueued
  | fired
  deriving DecidableEq

namespace RuleProcessor

variable (processor : RuleProcessor Action)

/-- `condition_matches`, as the match functions read it. -/
def passes (rule : Rule Action) (condition : ConditionData) : Bool :=
  (processor.conditionMatches rule condition).getD false

/-- `freq_offset` -/
def freqOffset (rule : Rule Action) : ℚ :=
  let frequency := if rule.frequency.getD 0 = 0 then defaultFrequency else rule.frequency.getD 0
  processor.now - frequency

/-- The check of the filters in `apply_rule`. -/
def filtersPass (rule : Rule Action) (filterList : List ConditionData) : Bool :=
  if filterList = [] then true
  else
    match getMatchFunction (orDefault defaultFilterMatch rule.filterMatch) with
    | some predicateFunc => predicateFunc (filterList.map (processor.passes rule))
    | none => false

/-- The check of the conditions in `apply_rule`: whether the rule is fired or enqueued. -/
def checkConditions (rule : Rule Action) (fastConditions slowConditions : List ConditionData) :
    Outcome :=
  let conditionMatch := orDefault defaultConditionMatch rule.actionMatch
  if slowConditions = [] ∧ fastConditions = [] then .fired
  else
    match getMatchFunction conditionMatch with
    | none => .returned
    | some predicateFunc =>
      let result := predicateFunc (fastConditions.map (processor.passes rule))
      match conditionMatch with
      | .any =>
        if !result && decide (slowConditions ≠ []) then .enqueued
        else if !result then .returned
        else .fired
      | .all =>
        if !result then .returned
        else if slowConditions ≠ [] then .enqueued
        else .fired
      | _ => .fired

/-- `apply_rule` -/
def applyRule (rule : Rule Action) (status : GroupRuleStatus) : Outcome :=
  match processor.environment with
  | none => .returned
  | some environment =>
    if rule.environmentId.any (· ≠ environment) then .returned
    else if status.lastActive.any (· > processor.freqOffset rule) then .returned
    else
      let (conditionList, filterList) :=
        splitConditionsAndFilters processor.ruleType rule.conditions
      let (fastConditions, slowConditions) := groupConditionsBySpeed conditionList
      if !processor.filtersPass rule filterList then .returned
      else
        match processor.checkConditions rule fastConditions slowConditions with
        | .fired =>
          -- The update excludes a row that was active in the meantime.
          if status.rowLastActive.any (· > processor.freqOffset rule) then .returned else .fired
        | outcome => outcome

/-- A rule of `apply` that is not snoozed and fires. -/
def fires (snoozedRules : List ℕ) (ruleStatuses : ℕ → GroupRuleStatus) (rule : Rule Action) :
    Bool :=
  decide (rule.id ∉ snoozedRules) &&
    decide (processor.applyRule rule (ruleStatuses rule.id) = .fired)

/-- `grouped_futures` at the end of `apply`. -/
def groupedFutures
    (after : Rule Action → Action → Option (List (CallbackFuture Key Callback Kwargs)))
    (rules : List (Rule Action)) (snoozedRules : List ℕ) (ruleStatuses : ℕ → GroupRuleStatus) :
    GroupedFutures Action Key Callback Kwargs :=
  if !processor.isUnresolved then []
  else
    rules.foldl (fun groupedFutures rule ↦
      if processor.fires snoozedRules ruleStatuses rule then
        if groupedFutures = [] then activateDownstreamActions after rule
        else updateItems groupedFutures (activateDownstreamActions after rule)
      else groupedFutures) []

/-- `apply` -/
def apply (after : Rule Action → Action → Option (List (CallbackFuture Key Callback Kwargs)))
    (rules : List (Rule Action)) (snoozedRules : List ℕ) (ruleStatuses : ℕ → GroupRuleStatus) :
    List (Callback × List (RuleFuture Action Kwargs)) :=
  (processor.groupedFutures after rules snoozedRules ruleStatuses).map Prod.snd

end RuleProcessor

end Sentry.Rules
