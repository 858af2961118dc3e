import Sentry.Library.Dictionary

/-!
# From search queries to rule conditions

`snuba/metrics/extraction.py`. `SearchQueryConverter` is a recursive descent over the tokens of a
parsed search query that gives a condition of Relay; `processQuery` adds the filter of the
environment and the condition of a `count_if`. A method takes the tokens from its position on and
returns those that are left. The resolver of columns, the normalization of the values of `count_if`
and the conditions of Relay on a single field are parameters; a value that is no string is passed
on.
-/

namespace Sentry.Extraction

open Library

variable {Other Event : Type}

/-- The errors that end a conversion. -/
inductive Error
  | unexpectedToken
  | unexpectedEndOfQuery
  | unexpectedTrailingTokens
  | unsupportedOperator (operator : String)
  | unsupportedField (searchKey : String)
  | unsupportedCountIfOperator (op : String)
  | notThreeArguments
  | invalidValue
  | unsupportedAggregateFunction (function : String)
  | argumentsRequired (op : String)
  | notTwoArguments
  | thresholdRequired
  | noVital (measurement : String)

/-- `SearchValue`; the other values are numbers, dates and lists. -/
inductive RawValue (Other : Type)
  | text (value : List Char)
  | other (value : Other)

/-- `SearchFilter`, with the name of its key. -/
structure SearchFilter (Other : Type) where
  key : String
  operator : String
  value : RawValue Other

/-- A token of a parsed query: a filter, an operator, or a `ParenExpression`. -/
inductive QueryToken (Other : Type)
  | filter (token : SearchFilter Other)
  | and
  | or
  | paren (children : List (QueryToken Other))

def hasWildcard : ℕ → List Char → Bool
  | _, [] => false
  | backslashes, c :: rest =>
    if c = '\\' then hasWildcard (backslashes + 1) rest
    else c = '*' ∧ backslashes % 2 = 0 ∨ hasWildcard 0 rest

/-- `SearchValue.is_wildcard` -/
def RawValue.isWildcard : RawValue Other → Bool
  | text value => hasWildcard 0 value
  | other _ => false

/-- `translate_escape_sequences`: an escaped asterisk is an asterisk. -/
def translateEscapeSequences : List Char → List Char
  | '\\' :: '*' :: rest => '*' :: translateEscapeSequences rest
  | c :: rest => c :: translateEscapeSequences rest
  | [] => []

/-- `_escape_wildcard` -/
def escapeWildcard (value : List Char) : List Char :=
  value.flatMap fun c ↦ if c ∈ ['[', ']', '{', '}', '?'] then ['\\', c] else [c]

/-- `CompareOp` -/
inductive CompareOp
  | eq
  | lt
  | lte
  | gt
  | gte
deriving DecidableEq

/-- `RuleCondition`; the value `None` is null. -/
inductive RuleCondition (Other : Type)
  | compare (op : CompareOp) (name : String) (value : Option (RawValue Other))
  | glob (name : String) (value : List (List Char))
  | and (inner : List (RuleCondition Other))
  | or (inner : List (RuleCondition Other))
  | not (inner : RuleCondition Other)

/-- The conditions of Relay on a field of an event. -/
structure Relay (Other Event : Type) where
  compare : Event → CompareOp → String → Option (RawValue Other) → Bool
  glob : Event → String → List (List Char) → Bool

namespace RuleCondition

variable (relay : Relay Other Event) (event : Event)

mutual

/-- Whether a condition holds of an event. -/
def holds : RuleCondition Other → Bool
  | compare op name value => relay.compare event op name value
  | glob name value => relay.glob event name value
  | and inner => allHold inner
  | or inner => anyHolds inner
  | not inner => !holds inner

def allHold : List (RuleCondition Other) → Bool
  | [] => true
  | condition :: rest => holds condition && allHold rest

def anyHolds : List (RuleCondition Other) → Bool
  | [] => false
  | condition :: rest => holds condition || anyHolds rest

end

end RuleCondition

/-- `_SEARCH_TO_RELAY_OPERATORS` -/
def searchToRelayOperators : List (String × CompareOp) :=
  [("=", .eq), ("!=", .eq), ("<", .lt), ("<=", .lte), (">", .gt), (">=", .gte), ("IN", .eq),
    ("NOT IN", .eq)]

/-- `_COUNTIF_TO_RELAY_OPERATORS` -/
def countifToRelayOperators : List (String × CompareOp) :=
  [("equals", .eq), ("notEquals", .eq), ("less", .lt), ("greater", .gt), ("lessOrEquals", .lte),
    ("greaterOrEquals", .gte)]

/-- `_SEARCH_TO_PROTOCOL_FIELDS` -/
def searchToProtocolFields : List (String × String) :=
  [("release", "release"), ("dist", "dist"), ("environment", "environment"),
    ("transaction", "transaction"), ("platform", "platform"), ("platform.name", "platform"),
    ("level", "level"), ("logger", "logger"), ("user", "sentry_user"), ("user.email", "user.email"),
    ("user.id", "user.id"), ("user.ip", "user.ip_address"), ("user.username", "user.name"),
    ("user.segment", "user.segment"), ("geo.city", "user.geo.city"),
    ("geo.country_code", "user.geo.country_code"), ("geo.region", "user.geo.region"),
    ("geo.subdivision", "user.geo.subdivision"), ("http.method", "request.method"),
    ("http.url", "request.url"), ("http.referer", "request.headers.Referer"),
    ("transaction.source", "transaction.source"), ("url", "request.url"), ("sdk.name", "sdk.name"),
    ("sdk.version", "sdk.version"), ("app.in_foreground", "contexts.app.in_foreground"),
    ("device", "contexts.device.model"), ("device.arch", "contexts.device.arch"),
    ("device.battery_level", "contexts.device.battery_level"),
    ("device.brand", "contexts.device.brand"), ("device.charging", "contexts.device.charging"),
    ("device.family", "contexts.device.family"), ("device.locale", "contexts.device.locale"),
    ("device.online", "contexts.device.online"),
    ("device.orientation", "contexts.device.orientation"), ("device.name", "contexts.device.name"),
    ("device.screen_density", "contexts.device.screen_density"),
    ("device.screen_dpi", "contexts.device.screen_dpi"),
    ("device.screen_width_pixels", "contexts.device.screen_width_pixels"),
    ("device.screen_height_pixels", "contexts.device.screen_height_pixels"),
    ("device.simulator", "contexts.device.simulator"), ("os.build", "contexts.os.build"),
    ("os.kernel_version", "contexts.os.kernel_version"), ("os.name", "contexts.os.name"),
    ("os.version", "contexts.os.version"), ("browser.name", "contexts.browser.name"),
    ("device.uuid", "contexts.device.uuid"), ("transaction.status", "contexts.trace.status"),
    ("transaction.op", "contexts.trace.op"), ("http.status_code", "contexts.response.status_code"),
    ("unreal.crash_type", "contexts.unreal.crash_type"),
    ("profile.id", "contexts.profile.profile_id"), ("transaction.duration", "duration"),
    ("release.build", "release.build"), ("release.package", "release.package"),
    ("release.version", "release.version.short"), ("tags[level]", "level"),
    ("tags[logger]", "logger"), ("tags[environment]", "environment"),
    ("tags[transaction]", "transaction"), ("tags[release]", "release"), ("tags[dist]", "dist"),
    ("tags[app.device]", "device_app_hash"), ("tags[device]", "device.model"),
    ("tags[device.family]", "device.family"), ("tags[runtime]", "runtime"),
    ("tags[runtime.name]", "runtime.name"), ("tags[browser]", "browser"),
    ("tags[browser.name]", "browser.name"), ("tags[os]", "os"), ("tags[os.name]", "os.name"),
    ("tags[os.rooted]", "os.rooted"), ("tags[gpu.vendor]", "gpu.vendor_name"),
    ("tags[gpu.name]", "gpu.name"), ("tags[monitor.id]", "monitor.id"),
    ("tags[monitor.slug]", "monitor.slug")]

/-- `_map_field_name` -/
def mapFieldName (resolveColumn : String → String) (searchKey : String) : Except Error String :=
  match getItem searchToProtocolFields searchKey with
  | some field => .ok ("event." ++ field)
  | none =>
    if searchKey.startsWith "measurements." then .ok ("event." ++ searchKey ++ ".value")
    else if resolveColumn searchKey = "transaction_name" then
      .ok ("event." ++ (getItem searchToProtocolFields "transaction").getD "None")
    else if (resolveColumn searchKey).startsWith "tags[" then
      .ok ("event.tags." ++ String.ofList ((resolveColumn searchKey).toList.drop 5).dropLast)
    else .error (.unsupportedField searchKey)

section Converter

variable (fieldMapper : String → Except Error String)

abbrev Rest (tokens : List (QueryToken Other)) :=
  {rest : List (QueryToken Other) // sizeOf rest < sizeOf tokens}

theorem lt_of_cons_eq {tokens rest' : List (QueryToken Other)} {token : QueryToken Other}
    (rest : Rest tokens) (hrest : rest.1 = token :: rest') : sizeOf rest' < sizeOf tokens := by
  have hlt := rest.2
  rw [hrest, List.cons.sizeOf_spec] at hlt
  omega

/-- The value that a filter compares with: `has:x` is `x != ""`, so that the empty string stands for
null, and escape sequences of other strings are translated. -/
def comparedValue (token : SearchFilter Other) : Option (RawValue Other) :=
  match token.value with
  | .text value =>
    if token.operator ∈ ["!=", "="] ∧ value = [] then none
    else some (.text (translateEscapeSequences value))
  | .other value => some (.other value)

def positiveCondition (operator : CompareOp) (name : String) (token : SearchFilter Other) :
    RuleCondition Other :=
  match token.value with
  | .text value =>
    if operator = .eq ∧ token.value.isWildcard then .glob name [escapeWildcard value]
    else .compare operator name (comparedValue token)
  | .other _ => .compare operator name (comparedValue token)

/-- `_filter` -/
def filter (token : SearchFilter Other) : Except Error (RuleCondition Other) :=
  match getItem searchToRelayOperators token.operator with
  | none => .error (.unsupportedOperator token.operator)
  | some operator => do
    let name ← fieldMapper token.key
    let condition := positiveCondition operator name token
    return if token.operator ∈ ["!=", "NOT IN"] then .not condition else condition

def combine (compound : List (RuleCondition Other) → RuleCondition Other) :
    List (RuleCondition Other) → RuleCondition Other
  | [condition] => condition
  | conditions => compound conditions

mutual

/-- `convert` -/
def convert (tokens : List (QueryToken Other)) : Except Error (RuleCondition Other) := do
  let (condition, rest) ← expr tokens
  match rest.1 with
  | [] => return condition
  | _ :: _ => throw .unexpectedTrailingTokens
termination_by (sizeOf tokens, 5)

/-- `_expr` -/
def expr (tokens : List (QueryToken Other)) : Except Error (RuleCondition Other × Rest tokens) := do
  let (conditions, rest) ← terms tokens
  return (combine .or conditions, rest)
termination_by (sizeOf tokens, 4)

/-- The loop of `_expr`: the terms between `OR`. -/
def terms (tokens : List (QueryToken Other)) :
    Except Error (List (RuleCondition Other) × Rest tokens) := do
  let (condition, rest) ← term tokens
  match hrest : rest.1 with
  | .or :: rest' =>
    have hlt : sizeOf rest' < sizeOf tokens := lt_of_cons_eq rest hrest
    let (conditions, last) ← terms rest'
    return (condition :: conditions, ⟨last.1, Nat.lt_trans last.2 hlt⟩)
  | _ => return ([condition], rest)
termination_by (sizeOf tokens, 3)

/-- `_term` -/
def term (tokens : List (QueryToken Other)) : Except Error (RuleCondition Other × Rest tokens) := do
  let (conditions, rest) ← factors tokens
  return (combine .and conditions, rest)
termination_by (sizeOf tokens, 2)

/-- The loop of `_term`: the factors, up to an `OR` or the end; `AND` is optional. -/
def factors (tokens : List (QueryToken Other)) :
    Except Error (List (RuleCondition Other) × Rest tokens) := do
  let (condition, rest) ← factor tokens
  match hrest : rest.1 with
  | [] => return ([condition], rest)
  | .or :: _ => return ([condition], rest)
  | .and :: rest' =>
    have hlt : sizeOf rest' < sizeOf tokens := lt_of_cons_eq rest hrest
    let (conditions, last) ← factors rest'
    return (condition :: conditions, ⟨last.1, Nat.lt_trans last.2 hlt⟩)
  | _ :: _ =>
    let (conditions, last) ← factors rest.1
    return (condition :: conditions, ⟨last.1, Nat.lt_trans last.2 rest.2⟩)
termination_by (sizeOf tokens, 1)

/-- `_factor` -/
def factor (tokens : List (QueryToken Other)) : Except Error (RuleCondition Other × Rest tokens) :=
  match tokens with
  | .filter token :: rest => do
    let condition ← filter fieldMapper token
    return (condition, ⟨rest, by rw [List.cons.sizeOf_spec]; omega⟩)
  | .paren children :: rest => do
    let condition ← convert children
    return (condition, ⟨rest, by rw [List.cons.sizeOf_spec]; omega⟩)
  | _ :: _ => throw .unexpectedToken
  | [] => throw .unexpectedEndOfQuery
termination_by (sizeOf tokens, 0)

end

end Converter

/-- `_remove_redundant_parentheses` -/
def removeRedundantParentheses : List (QueryToken Other) → List (QueryToken Other)
  | [.paren children] => removeRedundantParentheses children
  | tokens => tokens
termination_by tokens => sizeOf tokens

/-- `MetricSpecType` -/
inductive MetricSpecType
  | simpleQuery
  | dynamicQuery
deriving DecidableEq

/-- The query of an on-demand metric and what is added to it; the query and the field are parsed. -/
structure MetricQuery (Other : Type) where
  query : List (QueryToken Other)
  specType : MetricSpecType
  environment : Option (List Char)
  function : String
  arguments : List String

section Spec

variable (resolveColumn : String → String)
  (normalizeCountIfValue : String → String → Except Error (RawValue Other))
  (spec : MetricQuery Other)

/-- `_parse_query` -/
def parseQuery : List (QueryToken Other) := removeRedundantParentheses spec.query

def environmentFilter (environment : List Char) : SearchFilter Other :=
  ⟨"environment", "=", .text environment⟩

/-- `_extend_parsed_query` -/
def extendParsedQuery (conditions : List (QueryToken Other)) : List (QueryToken Other) :=
  match spec.environment with
  | none => conditions
  | some environment =>
    .paren [.filter (environmentFilter environment)] ::
      match conditions with
      | [] => []
      | _ :: _ => [.paren conditions]

/-- `_convert_countif_filter` -/
def convertCountifFilter (key op value : String) : Except Error (RuleCondition Other) :=
  match getItem countifToRelayOperators op with
  | none => .error (.unsupportedCountIfOperator op)
  | some operator => do
    let name ← mapFieldName resolveColumn key
    let normalized ← normalizeCountIfValue key value
    let condition := .compare operator name (some normalized)
    return if op = "notEquals" then .not condition else condition

/-- `_aggregate_conditions` -/
def aggregateConditions : Except Error (Option (RuleCondition Other)) :=
  if spec.function = "count_if" then
    match spec.arguments with
    | [key, op, value] => do
      let condition ← convertCountifFilter resolveColumn normalizeCountIfValue key op value
      return some condition
    | _ => .error .notThreeArguments
  else .ok none

def parsedQuery : List (QueryToken Other) :=
  if spec.specType = .simpleQuery then extendParsedQuery spec (parseQuery spec)
  else parseQuery spec

/-- The converted query and the condition of the aggregate; an `and` is extended. -/
def withAggregate : RuleCondition Other → RuleCondition Other → RuleCondition Other
  | .and inner, aggregateConditions => .and (inner ++ [aggregateConditions])
  | ruleCondition, aggregateConditions => .and [ruleCondition, aggregateConditions]

/-- `_process_query`: an error of the converter is logged, and there is no condition. -/
def processQuery : Except Error (Option (RuleCondition Other)) := do
  let aggregate ← aggregateConditions resolveColumn normalizeCountIfValue spec
  if (parsedQuery spec).isEmpty ∧ aggregate.isSome then return aggregate
  else
    match convert (mapFieldName resolveColumn) (parsedQuery spec) with
    | .error _ => return none
    | .ok condition => return some ((aggregate.map (withAggregate condition)).getD condition)

end Spec

end Sentry.Extraction
