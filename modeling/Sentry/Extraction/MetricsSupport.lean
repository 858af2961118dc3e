import Sentry.Extraction.OnDemandMetricSpec
import Sentry.Extraction.QueryCleanup

/-!
# Which metrics support what

`snuba/metrics/extraction.py`. An aggregate, a search query and the columns it is grouped by are
each supported by standard metrics, by on-demand metrics, by both or by neither (`SupportedBy`).
On-demand metrics are used where only they support everything (`shouldUseOnDemandMetrics`). The
parsers and the resolver of columns are parameters (`Parsers`).
-/

namespace Sentry.Extraction.MetricsSupport

open Library QueryCleanup

variable {Other Aggregate : Type}

/-- `SupportedBy` -/
structure SupportedBy where
  standardMetrics : Bool
  onDemandMetrics : Bool
deriving DecidableEq

namespace SupportedBy

def neither : SupportedBy := ⟨false, false⟩

def both : SupportedBy := ⟨true, true⟩

def combine (supportedBy : List SupportedBy) : SupportedBy :=
  ⟨supportedBy.all standardMetrics, supportedBy.all onDemandMetrics⟩

end SupportedBy

/-- What a parser of search queries raises: `InvalidSearchQuery`, or something else. -/
inductive ParseError
  | invalidSearchQuery
  | raised
deriving DecidableEq

/-- The parsers of the texts: `_extract_aggregate_components`, `parse_mri`, `parse_search_query`,
and the resolver of columns of the transactions dataset. -/
structure Parsers (Other Aggregate : Type) where
  extractAggregateComponents : String → Option (String × List String)
  isMri : String → Bool
  parseSearchQuery :
    Option String → Except ParseError (List (Token (SearchFilter Other ⊕ Aggregate)))
  resolveColumn : String → String

/-- `[a-zA-Z0-9-_.]` -/
def isKeyChar (c : Char) : Bool := c.isAlphanum ∨ c ∈ ['-', '_', '.']

/-- The patterns of the keys `measurements.…` and `spans.…`: the end of the pattern also matches
before a line feed at the end. -/
def matchesKeyRe (start key : List Char) : Bool :=
  let name := key.drop start.length
  let name := if name.getLast? = some '\n' then name.dropLast else name
  start.isPrefixOf key ∧ name ≠ [] ∧ name.all isKeyChar

/-- `is_measurement` -/
def isMeasurement (key : String) : Bool := matchesKeyRe "measurements.".toList key.toList

/-- `is_span_op_breakdown` -/
def isSpanOpBreakdown (key : String) : Bool := matchesKeyRe "spans.".toList key.toList

/-- `_is_standard_metrics_search_term` -/
def isStandardMetricsSearchTerm (field : String) : Bool := field ∈ standardMetricFields

/-- `_is_standard_metrics_field` -/
def isStandardMetricsField (field : String) : Bool :=
  isStandardMetricsSearchTerm field || isMeasurement field || isSpanOpBreakdown field ||
    field = "transaction.duration"

/-- `ERROR_RELATED_TOKENS` -/
def errorRelatedTokens : List String := ["level", "assignee", "issue", "culprit"]

/-- `_is_error_field` -/
def isErrorField (token : String) : Bool :=
  "error.".toList.isPrefixOf token.toList || token ∈ errorRelatedTokens

section Parsers

variable (parsers : Parsers Other Aggregate)

/-- `_is_on_demand_supported_field` -/
def isOnDemandSupportedField (field : String) : Bool :=
  field ∈ ignoredMetricFields || (mapFieldName parsers.resolveColumn field).isOk

/-- `_get_field_support` -/
def getFieldSupport (field : String) : SupportedBy :=
  ⟨isStandardMetricsField field, isOnDemandSupportedField parsers field⟩

/-- `_get_percentile_support` -/
def getPercentileSupport (args : List String) : SupportedBy :=
  match getPercentileOp args with
  | .ok (some _) => .both
  | _ => .neither

/-- `_get_function_support` -/
def getFunctionSupport (function : String) (args : List String) : SupportedBy :=
  if function = "percentile" then getPercentileSupport args
  else
    ⟨true,
      ((getItem searchToMetricAggregates function).isSome ||
          (getItem searchToDerivedMetricAggregates function).isSome) &&
        (getItem aggregateToMetricType function).isSome⟩

/-- `_get_args_support` -/
def getArgsSupport (usedInFunction : String) : List String → SupportedBy
  | [] => .both
  | arg :: _ =>
    if usedInFunction = "apdex" then ⟨false, true⟩
    else if usedInFunction ∈ ["epm", "eps"] then .both
    else getFieldSupport parsers arg

/-- `_get_aggregate_supported_by` -/
def getAggregateSupportedBy (function : String) (args : List String) : SupportedBy :=
  .combine [getFunctionSupport function args, getArgsSupport parsers function args]

/-- `_get_groupbys_support` -/
def getGroupbysSupport (groupbys : List String) : SupportedBy :=
  if groupbys = [] then .both else .combine (groupbys.map (getFieldSupport parsers))

def everyFilter {Filter : Type} (supported : Filter → Bool) : List (Token Filter) → Bool
  | [] => true
  | .filter filter :: rest => supported filter && everyFilter supported rest
  | .paren children :: rest => everyFilter supported children && everyFilter supported rest
  | .op _ :: rest => everyFilter supported rest

/-- `_is_standard_metrics_query` -/
def isStandardMetricsQuery : List (Token (SearchFilter Other ⊕ Aggregate)) → Bool :=
  everyFilter (Sum.elim (fun token ↦ isStandardMetricsSearchTerm token.key) fun _ ↦ true)

/-- `_is_excluding_transactions` -/
def isExcludingTransactions (token : SearchFilter Other) : Bool :=
  if token.key ≠ "event.type" then false
  else
    match token.value with
    | .other _ => false
    | .text rawValue =>
      token.operator = "!=" ∧ rawValue = "transaction".toList ∨
        token.operator = "=" ∧ rawValue ∈ ["error".toList, "default".toList]

/-- `_is_on_demand_supported_search_filter`, of a filter. -/
def isOnDemandSupportedSearchFilter : SearchFilter Other ⊕ Aggregate → Bool
  | .inr _ => false
  | .inl token =>
    if getItem searchToRelayOperators token.operator = none then false
    else
      ¬ isExcludingTransactions token ∧ ¬ isErrorField token.key ∧
        isOnDemandSupportedField parsers token.key

/-- `_is_on_demand_supported_query` -/
def isOnDemandSupportedQuery : List (Token (SearchFilter Other ⊕ Aggregate)) → Bool :=
  everyFilter (isOnDemandSupportedSearchFilter parsers)

/-- `_get_query_supported_by`: a query that cannot be parsed has no support. -/
def getQuerySupportedBy (query : Option String) : Except ParseError SupportedBy :=
  match parsers.parseSearchQuery query with
  | .ok parsedQuery =>
    .ok ⟨isStandardMetricsQuery parsedQuery, isOnDemandSupportedQuery parsers parsedQuery⟩
  | .error .invalidSearchQuery => .ok .neither
  | .error .raised => .error .raised

end Parsers

/-- `Dataset` -/
inductive Dataset
  | events
  | transactions
  | discover
  | outcomes
  | outcomesRaw
  | sessions
  | metrics
  | performanceMetrics
  | replays
  | profiles
  | issuePlatform
  | functions
  | spansIndexed
  | spansEAP
  | metricsSummaries
deriving DecidableEq

namespace Dataset

def value : Dataset → String
  | events => "events"
  | transactions => "transactions"
  | discover => "discover"
  | outcomes => "outcomes"
  | outcomesRaw => "outcomes_raw"
  | sessions => "sessions"
  | metrics => "metrics"
  | performanceMetrics => "generic_metrics"
  | replays => "replays"
  | profiles => "profiles"
  | issuePlatform => "search_issues"
  | functions => "functions"
  | spansIndexed => "spans"
  | spansEAP => "eap_spans"
  | metricsSummaries => "metrics_summaries"

def all : List Dataset :=
  [events, transactions, discover, outcomes, outcomesRaw, sessions, metrics, performanceMetrics,
    replays, profiles, issuePlatform, functions, spansIndexed, spansEAP, metricsSummaries]

/-- `Dataset(dataset)` -/
def ofValue (value : String) : Option Dataset := all.find? fun dataset ↦ dataset.value = value

end Dataset

/-- The arguments of `should_use_on_demand_metrics`; a dataset is given itself or by its value. -/
structure Arguments where
  dataset : Option (Dataset ⊕ String)
  aggregate : String
  query : Option String
  groupbys : Option (List String)
  prefilling : Bool

/-- What a call raises: the `ValueError` of a text that is no dataset, or what the parser of search
queries raises. -/
inductive Raised
  | notADataset (value : String)
  | parser
deriving DecidableEq

def Arguments.datasetGiven (arguments : Arguments) : Except Raised (Option Dataset) :=
  match arguments.dataset with
  | none => .ok none
  | some (.inl dataset) => .ok (some dataset)
  | some (.inr value) =>
    if value = "" then .ok none
    else
      match Dataset.ofValue value with
      | some dataset => .ok (some dataset)
      | none => .error (.notADataset value)

def supportedDatasets (prefilling : Bool) : List Dataset :=
  if prefilling then [.performanceMetrics, .transactions] else [.performanceMetrics]

section Parsers

variable (parsers : Parsers Other Aggregate)

def supportOf (function : String) (args : List String) (query : Option String)
    (groupbys : List String) : Except Raised SupportedBy :=
  match getQuerySupportedBy parsers query with
  | .ok querySupportedBy =>
    .ok (.combine [getAggregateSupportedBy parsers function args, querySupportedBy,
      getGroupbysSupport parsers groupbys])
  | .error _ => .error .parser

/-- `_should_use_on_demand_metrics` -/
def shouldUseOnDemandMetrics (arguments : Arguments) : Except Raised Bool := do
  let some dataset ← arguments.datasetGiven | return false
  if dataset ∉ supportedDatasets arguments.prefilling then return false
  let some (function, args) := parsers.extractAggregateComponents arguments.aggregate | return false
  if (args.head?.map parsers.isMri).getD false then return false
  let supportedBy ← supportOf parsers function args arguments.query (arguments.groupbys.getD [])
  return !supportedBy.standardMetrics && supportedBy.onDemandMetrics

theorem getGroupbysSupport_eq (groupbys : List String) :
    getGroupbysSupport parsers groupbys = .combine (groupbys.map (getFieldSupport parsers)) := by
  unfold getGroupbysSupport
  split_ifs with hnil
  · rw [hnil]
    rfl
  · rfl

end Parsers

end Sentry.Extraction.MetricsSupport
