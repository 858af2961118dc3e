import Sentry.Extraction.SearchQueryConverter
import Sentry.Library.PythonRepr
import Mathlib.Data.Finset.Insert
import Mathlib.Data.List.Sort
import Mathlib.Data.String.Basic

/-!
# On-demand metric specs

`snuba/metrics/extraction.py`. `OnDemandMetricSpec.create` is the constructor, `queryStrForHash` the
text whose hash identifies the metric, and `toMetricSpec` the rule that Relay extracts it by. The
hash, the parser of floats, the product with four, the metric of the threshold of the project and
what Python takes for printable are parameters.
-/

namespace Sentry.Extraction

open Library

/-- An element of a list of strings or numbers. -/
inductive Element
  | text (value : List Char)
  | number (value : Python.Number)

/-- A value that is no string. -/
inductive OtherValue
  | number (value : Python.Number)
  | date (value : Python.Date)
  | list (elements : List Element)

def Element.toPython : Element → Python.Value
  | text value => .str value
  | number value => .number value

def RawValue.toPython : RawValue OtherValue → Python.Value
  | text value => .str value
  | other (.number value) => .number value
  | other (.date value) => .date value
  | other (.list elements) => .list (elements.map Element.toPython)

/-- The text of an operator. -/
def CompareOp.text : CompareOp → List Char
  | eq => ['e', 'q']
  | lt => ['l', 't']
  | lte => ['l', 't', 'e']
  | gt => ['g', 't']
  | gte => ['g', 't', 'e']

def opKey : List Char := ['o', 'p']
def nameKey : List Char := ['n', 'a', 'm', 'e']
def valueKey : List Char := ['v', 'a', 'l', 'u', 'e']
def innerKey : List Char := ['i', 'n', 'n', 'e', 'r']

namespace RuleCondition

mutual

def toPython : RuleCondition OtherValue → Python.Value
  | compare op name value =>
    .dict [(opKey, .str op.text), (nameKey, .str name.toList),
      (valueKey, (value.map RawValue.toPython).getD .none)]
  | glob name value =>
    .dict [(opKey, .str ['g', 'l', 'o', 'b']), (nameKey, .str name.toList),
      (valueKey, .list (value.map .str))]
  | and inner => .dict [(opKey, .str ['a', 'n', 'd']), (innerKey, .list (toPythons inner))]
  | or inner => .dict [(opKey, .str ['o', 'r']), (innerKey, .list (toPythons inner))]
  | not inner => .dict [(opKey, .str ['n', 'o', 't']), (innerKey, toPython inner)]

def toPythons : List (RuleCondition OtherValue) → List Python.Value
  | [] => []
  | condition :: rest => toPython condition :: toPythons rest

end

end RuleCondition

mutual

/-- `_deep_sorted`: the items of a dictionary by their keys, and so in its values; lists stay. -/
def deepSorted : Python.Value → Python.Value
  | .dict items => .dict ((deepSortedItems items).insertionSort fun item other ↦ item.1 ≤ other.1)
  | value => value

def deepSortedItems : List (List Char × Python.Value) → List (List Char × Python.Value)
  | [] => []
  | item :: rest => deepSortedItem item :: deepSortedItems rest

def deepSortedItem : List Char × Python.Value → List Char × Python.Value
  | (key, value) => (key, deepSorted value)

end

/-- `_SEARCH_TO_METRIC_AGGREGATES` -/
def searchToMetricAggregates : List (String × String) :=
  [("count", "sum"), ("count_if", "sum"), ("avg", "avg"), ("min", "min"), ("max", "max"),
    ("p50", "p50"), ("p75", "p75"), ("p90", "p90"), ("p95", "p95"), ("p99", "p99"),
    ("p100", "max")]

/-- `_SEARCH_TO_DERIVED_METRIC_AGGREGATES` -/
def searchToDerivedMetricAggregates : List (String × String) :=
  [("failure_count", "on_demand_failure_count"), ("failure_rate", "on_demand_failure_rate"),
    ("apdex", "on_demand_apdex"), ("count_web_vitals", "on_demand_count_web_vitals"),
    ("count_unique", "on_demand_count_unique"), ("epm", "on_demand_epm"), ("eps", "on_demand_eps"),
    ("user_misery", "on_demand_user_misery")]

/-- `_AGGREGATE_TO_METRIC_TYPE` -/
def aggregateToMetricType : List (String × String) :=
  [("count", "c"), ("count_if", "c"), ("avg", "d"), ("max", "d"), ("p50", "d"), ("p75", "d"),
    ("p90", "d"), ("p95", "d"), ("p99", "d"), ("p100", "d"), ("percentile", "d"),
    ("failure_count", "c"), ("failure_rate", "c"), ("count_unique", "s"), ("count_web_vitals", "c"),
    ("apdex", "c"), ("epm", "c"), ("eps", "c"), ("user_misery", "s")]

/-- `_NO_ARG_METRICS` -/
def noArgMetrics : List String :=
  ["on_demand_epm", "on_demand_eps", "on_demand_failure_count", "on_demand_failure_rate"]

/-- `_MULTIPLE_ARGS_METRICS` -/
def multipleArgsMetrics : List String :=
  ["on_demand_apdex", "on_demand_count_unique", "on_demand_count_web_vitals",
    "on_demand_user_misery"]

/-- `_get_percentile_op` -/
def getPercentileOp : List String → Except Error (Option String)
  | [_, percentile] =>
    .ok <|
      if percentile ∈ ["0.5", "0.50"] then some "p50"
      else if percentile = "0.75" then some "p75"
      else if percentile ∈ ["0.9", "0.90"] then some "p90"
      else if percentile = "0.95" then some "p95"
      else if percentile = "0.99" then some "p99"
      else if percentile ∈ ["1", "1.0"] then some "p100"
      else none
  | _ => .error .notTwoArguments

def metricOperation (function : String) : Except Error String :=
  match (getItem searchToMetricAggregates function).or
      (getItem searchToDerivedMetricAggregates function) with
  | some op => .ok op
  | none => .error (.unsupportedAggregateFunction function)

/-- `_get_op` -/
def getOp (function : String) (args : List String) : Except Error String := do
  let percentileOp ← if function = "percentile" then getPercentileOp args else .ok none
  metricOperation (percentileOp.getD function)

/-- `_get_metric_type` -/
def getMetricType (function : String) : Except Error String :=
  match getItem aggregateToMetricType function with
  | some metricType => .ok metricType
  | none => .error (.unsupportedAggregateFunction function)

/-- `_parse_arguments` -/
def parseArguments (resolveColumn : String → String) (op metricType : String)
    (arguments : List String) : Except Error (List String) :=
  if ¬ (metricType ∈ ["s", "d"] ∨ op ∈ multipleArgsMetrics) then .ok []
  else
    match arguments with
    | [] => .error (.argumentsRequired op)
    | first :: _ =>
      if op ∈ multipleArgsMetrics then .ok arguments
      else do
        let name ← mapFieldName resolveColumn first
        return [name]

/-- An on-demand metric. -/
structure OnDemandMetricSpec where
  query : MetricQuery OtherValue
  groupbys : List String
  flags : Finset String
  op : String
  metricType : String
  arguments : List String

/-- `OnDemandMetricSpec.__init__`: the field is not in the groups, and a flag of the version has the
environment be one of a dynamic query. -/
def OnDemandMetricSpec.create (resolveColumn : String → String) (field : String)
    (query : MetricQuery OtherValue) (groupbys : List String) (flags : Finset String) :
    Except Error OnDemandMetricSpec := do
  let groupbys := groupbys.filter (· ≠ field)
  let groupbys :=
    if query.specType = .dynamicQuery ∧ "environment" ∉ groupbys ∧
        flags = {"include_environment_tag"} then groupbys ++ ["environment"]
    else groupbys
  let op ← getOp query.function query.arguments
  let metricType ← getMetricType query.function
  let arguments ← parseArguments resolveColumn op metricType query.arguments
  return ⟨query, groupbys, flags, op, metricType, arguments⟩

namespace OnDemandMetricSpec

section Hash

variable (printable : Char → Bool) (resolveColumn : String → String)
  (normalizeCountIfValue : String → String → Except Error (RawValue OtherValue))
  (spec : OnDemandMetricSpec)

/-- `_field_for_hash`, as it is formatted. -/
def fieldForHash : List Char :=
  if spec.op ∈ noArgMetrics then spec.op.toList
  else if spec.op ∈ multipleArgsMetrics then
    spec.op.toList ++ spec.arguments.flatMap fun arg ↦ ':' :: arg.toList
  else
    match spec.arguments with
    | [] => ['N', 'o', 'n', 'e']
    | first :: _ => first.toList

/-- `condition` -/
def condition : Except Error (Option (RuleCondition OtherValue)) :=
  processQuery resolveColumn normalizeCountIfValue spec.query

/-- `_query_for_hash` of a condition. -/
def queryForHash (condition : Option (RuleCondition OtherValue)) : List Char :=
  Python.repr printable
    (deepSorted ((condition.map RuleCondition.toPython).getD .none))

/-- `_groupbys_for_hash` -/
def groupbysForHash : List Char :=
  Python.repr printable
    (.list ((spec.groupbys.insertionSort (· ≤ ·)).map fun groupby ↦ .str groupby.toList))

/-- `_query_str_for_hash` -/
def queryStrForHash : Except Error (List Char) := do
  let condition ← spec.condition resolveColumn normalizeCountIfValue
  let strToHash := spec.fieldForHash ++ ';' :: queryForHash printable condition
  return if spec.groupbys = [] then strToHash
    else strToHash ++ ';' :: spec.groupbysForHash printable

end Hash

end OnDemandMetricSpec

/-- `TagSpec` -/
structure TagSpec where
  key : String
  field : Option String
  value : Option String
  condition : Option (RuleCondition OtherValue)

/-- `MetricSpec` -/
structure MetricSpec where
  category : String
  mri : String
  field : Option String
  tags : List TagSpec
  condition : Option (RuleCondition OtherValue)

/-- The numbers of the thresholds. -/
def number (text : List Char) (hne : text ≠ []) (hchars : ∀ c ∈ text, c ∈ Python.numberChars) :
    RawValue OtherValue :=
  .other (.number ⟨text, hne, hchars⟩)

/-- `VITAL_THRESHOLDS`, the poor and the meh one. -/
def vitalThresholds : List (String × RawValue OtherValue × RawValue OtherValue) :=
  [("lcp", number ['4', '0', '0', '0'] (by simp) (by decide),
      number ['2', '5', '0', '0'] (by simp) (by decide)),
    ("fp", number ['3', '0', '0', '0'] (by simp) (by decide),
      number ['1', '0', '0', '0'] (by simp) (by decide)),
    ("fcp", number ['3', '0', '0', '0'] (by simp) (by decide),
      number ['1', '0', '0', '0'] (by simp) (by decide)),
    ("fid", number ['3', '0', '0'] (by simp) (by decide),
      number ['1', '0', '0'] (by simp) (by decide)),
    ("cls", number ['0', '.', '2', '5'] (by simp) (by decide),
      number ['0', '.', '1'] (by simp) (by decide))]

section Tags

variable (resolveColumn : String → String) (parseFloat : String → Except Error Python.Number)
  (timesFour : Python.Number → Python.Number) (satisfactoryMetric : String)

def valueTag (key value : String) (condition : RuleCondition OtherValue) : TagSpec :=
  ⟨key, none, some value, some condition⟩

/-- `_get_threshold` -/
def getThreshold : List String → Except Error Python.Number
  | [] => .error .thresholdRequired
  | first :: _ => parseFloat first

/-- `failure_tag_spec` -/
def failureTagSpec : List TagSpec :=
  [valueTag "failure" "true" (.not (.compare .eq "event.contexts.trace.status"
    (some (.other (.list [.text ['o', 'k'],
      .text ['c', 'a', 'n', 'c', 'e', 'l', 'l', 'e', 'd'],
      .text ['u', 'n', 'k', 'n', 'o', 'w', 'n']])))))]

/-- `apdex_tag_spec` -/
def apdexTagSpec (arguments : List String) : Except Error (List TagSpec) := do
  let threshold ← getThreshold parseFloat arguments
  let field ← mapFieldName resolveColumn satisfactoryMetric
  let low : Option (RawValue OtherValue) := some (.other (.number threshold))
  let high : Option (RawValue OtherValue) := some (.other (.number (timesFour threshold)))
  return [valueTag "satisfaction" "satisfactory" (.compare .lte field low),
    valueTag "satisfaction" "tolerable"
      (.and [.compare .gt field low, .compare .lte field high]),
    valueTag "satisfaction" "frustrated" (.compare .gt field high)]

/-- `count_web_vitals_spec` -/
def countWebVitalsSpec : List String → Except Error (List TagSpec)
  | [measurement, measurementRating] => do
    let field ← mapFieldName resolveColumn measurement
    match measurement.splitOn "." with
    | [_, vital] =>
      match getItem vitalThresholds vital with
      | none => throw (.noVital measurement)
      | some (poor, meh) =>
        let condition : RuleCondition OtherValue :=
          if measurementRating = "good" then .compare .lt field (some meh)
          else if measurementRating = "meh" then
            .and [.compare .gte field (some meh), .compare .lt field (some poor)]
          else if measurementRating = "poor" then .compare .gte field (some poor)
          else .compare .gte field (some (number ['0'] (by simp) (by decide)))
        return [valueTag "measurement_rating" "matches_hash" condition]
    | _ => throw (.noVital measurement)
  | _ => .error .notTwoArguments

/-- `user_misery_tag_spec` -/
def userMiseryTagSpec (arguments : List String) : Except Error (List TagSpec) := do
  let threshold ← getThreshold parseFloat arguments
  let field ← mapFieldName resolveColumn satisfactoryMetric
  return [valueTag "satisfaction" "frustrated"
    (.compare .gt field (some (.other (.number (timesFour threshold)))))]

/-- `tags_conditions`, by `_ONDEMAND_OP_TO_SPEC_GENERATOR` and
`_ONDEMAND_OP_TO_PROJECT_SPEC_GENERATOR`. -/
def tagsConditions (op : String) (arguments : List String) : Except Error (List TagSpec) :=
  if op = "on_demand_apdex" then
    apdexTagSpec resolveColumn parseFloat timesFour satisfactoryMetric arguments
  else if op = "on_demand_user_misery" then
    userMiseryTagSpec resolveColumn parseFloat timesFour satisfactoryMetric arguments
  else if op ∈ ["on_demand_failure_count", "on_demand_failure_rate"] then .ok failureTagSpec
  else if op = "on_demand_count_web_vitals" then countWebVitalsSpec resolveColumn arguments
  else .ok []

/-- `_tag_for_field` -/
def tagForField (groupby : String) : Except Error TagSpec := do
  let field ← mapFieldName resolveColumn groupby
  return ⟨groupby, some field, none, none⟩

/-- `field_to_extract` -/
def fieldToExtract (op : String) (arguments : List String) : Except Error (Option String) :=
  if op ∈ ["on_demand_apdex", "on_demand_count_web_vitals"] then .ok none
  else if op = "on_demand_user_misery" then do
    let field ← mapFieldName resolveColumn "user"
    return some field
  else .ok arguments.head?

end Tags

section ToMetricSpec

variable (printable : Char → Bool) (hash : List Char → String) (resolveColumn : String → String)
  (normalizeCountIfValue : String → String → Except Error (RawValue OtherValue))
  (parseFloat : String → Except Error Python.Number) (timesFour : Python.Number → Python.Number)
  (satisfactoryMetric : String)

def TagSpec.isFieldTag (tag other : TagSpec) : Bool :=
  tag.key = other.key ∧ tag.field = other.field ∧ tag.value.isNone ∧ tag.condition.isNone

def OnDemandMetricSpec.environmentTags (spec : OnDemandMetricSpec) (tags : List TagSpec) :
    Except Error (List TagSpec) :=
  if spec.query.specType = .dynamicQuery ∧ spec.flags = ∅ then do
    let tag ← tagForField resolveColumn "environment"
    return if tags.any (·.isFieldTag tag) then [] else [tag]
  else .ok []

/-- `to_metric_spec` -/
def OnDemandMetricSpec.toMetricSpec (spec : OnDemandMetricSpec) : Except Error MetricSpec := do
  let tagsConditions ← tagsConditions resolveColumn parseFloat timesFour satisfactoryMetric spec.op
    spec.arguments
  let queryStr ← spec.queryStrForHash printable resolveColumn normalizeCountIfValue
  let tagsGroupbys ← spec.groupbys.mapM (tagForField resolveColumn)
  let tags := tagsConditions ++ ⟨"query_hash", none, some (hash queryStr), none⟩ :: tagsGroupbys
  let environmentTags ← spec.environmentTags resolveColumn tags
  let field ← fieldToExtract resolveColumn spec.op spec.arguments
  let condition ← spec.condition resolveColumn normalizeCountIfValue
  return ⟨"transaction", spec.metricType ++ ":transactions/on_demand@none", field,
    tags ++ environmentTags, condition⟩

end ToMetricSpec

end Sentry.Extraction
