import Sentry.EventSearch.SearchValues

/-!
# The visitor of searches

The nodes of a search become tokens: filters, filters of aggregates, operators and groups. A filter
whose value does not have the type of its key goes from one visitor to the next. Errors other than
`InvalidSearchQuery` leave the visitor as a `VisitationError`. Field types and result types of
functions are looked up by the query builder, which raises `InvalidSearchQuery` if anything.
-/

namespace Sentry.EventSearch

open Grammar

/-- `raw_value`, which may be a node that was not converted. -/
inductive RawValue
  | string (text : Text)
  | number (value : ℚ)
  | datetime (date : ℤ)
  | strings (texts : List Text)
  | numbers (values : List ℚ)
  | node (text : Text)

structure SearchFilter where
  key : Text
  operator : Text
  value : RawValue

structure AggregateFilter where
  key : Text
  operator : Text
  value : RawValue

/-- What a search consists of; a group without tokens stays a string. -/
inductive Token
  | operator (text : Text)
  | filter (filter : SearchFilter)
  | aggregate (filter : AggregateFilter)
  | paren (children : List Token)
  | string (text : Text)

/-- What the visitor raises. -/
inductive Raised
  | invalidSearchQuery (message : Text)
  | visitationError

abbrev Visit (α : Type) : Type := Except Raised α

def invalidSearchQuery {α : Type} (message : Text) : Visit α :=
  .error (.invalidSearchQuery message)

/-- `except InvalidQuery as exc: raise InvalidSearchQuery(str(exc))`. -/
def orInvalidSearchQuery {α : Type} : Conversion α → Visit α
  | .ok value => .ok value
  | .error (.invalidQuery message) => .error (.invalidSearchQuery message)
  | .error .overflowError => .error .visitationError

structure SearchConfig where
  keyMappings : List (Text × List Text) := []
  textOperatorKeys : List Text := []
  durationKeys : List Text := []
  numericKeys : List Text := []
  dateKeys : List Text := []
  booleanKeys : List Text := []
  isFilterTranslation : List (Text × Text × RawValue) := []
  allowBoolean : Bool := true
  allowedKeys : List Text := []
  blockedKeys : List Text := []
  freeTextKey : Text := "message".toList

/-- The query builder, and the time, also as the text in which an error shows it. -/
structure SearchContext where
  getFieldType : Text → Except Text (Option Text)
  getFunctionResultType : Text → Except Text (Option Text)
  now : ℤ
  nowText : Text

variable (config : SearchConfig) (context : SearchContext)

def durationUnits : List Text :=
  ["nanosecond", "microsecond", "millisecond", "second", "minute", "hour", "day",
    "week"].map String.toList

def sizeUnits : List Text :=
  ["bit", "byte", "kibibyte", "mebibyte", "gibibyte", "tebibyte", "pebibyte", "exbibyte",
    "kilobyte", "megabyte", "gigabyte", "terabyte", "petabyte", "exabyte"].map String.toList

def isMeasurement (key : Text) : Bool :=
  "measurements.".toList <+: key && key.drop 13 ≠ [] && (key.drop 13).all isKeyChar

def isSpanOpBreakdown (key : Text) : Bool :=
  "spans.".toList <+: key && key.drop 6 ≠ [] && (key.drop 6).all isKeyChar

def isDurationMeasurement (key : Text) : Bool :=
  key ∈ (["measurements.fp", "measurements.fcp", "measurements.lcp", "measurements.fid",
    "measurements.ttfb", "measurements.ttfb.requesttime", "measurements.time_to_initial_display",
    "measurements.time_to_full_display", "measurements.app_start_cold",
    "measurements.app_start_warm", "measurements.inp"].map String.toList)

def lookedUp {α : Type} : Except Text α → Visit α
  | .ok value => .ok value
  | .error message => .error (.invalidSearchQuery message)

def isDurationKey (key : Text) : Visit Bool :=
  if key ∈ config.durationKeys || isDurationMeasurement key || isSpanOpBreakdown key then .ok true
  else do
    let fieldType ← lookedUp (context.getFieldType key)
    return fieldType.any fun name ↦ name ∈ durationUnits ++ ["duration".toList]

def isNumericKey (key : Text) : Visit Bool :=
  if key ∈ config.numericKeys || isMeasurement key || isSpanOpBreakdown key then .ok true
  else do
    let fieldType ← lookedUp (context.getFieldType key)
    if fieldType = some "number".toList then return true else isDurationKey config context key

def isSizeKey (key : Text) : Visit Bool := do
  let fieldType ← lookedUp (context.getFieldType key)
  return fieldType.any fun name ↦ name ∈ sizeUnits

def isDateKey (key : Text) : Bool := key ∈ config.dateKeys

def isBooleanKey (key : Text) : Bool := key ∈ config.booleanKeys

/-- `key_mappings_lookup.get(key, key)`: of two targets the last one counts. -/
def mappedKey (key : Text) : Text :=
  ((config.keyMappings.flatMap fun mapping ↦ mapping.2.map fun source ↦
    (source, mapping.1)).reverse.lookup key).getD key

def visitSearchKey (node : KeyNode) : Visit Text :=
  let key := match node with
    | .key name => name
    | .quotedKey name => name
  if (config.allowedKeys ≠ [] ∧ key ∉ config.allowedKeys) ∨ key ∈ config.blockedKeys then
    invalidSearchQuery ("Invalid key for this search: ".toList ++ key)
  else .ok (mappedKey config key)

def visitTextKey : TextKeyNode → Visit Text
  | .explicitTagKey key => do
    let name ← visitSearchKey config key
    return "tags[".toList ++ name ++ [']']
  | .searchKey key => visitSearchKey config key

def processList {α : Type} (items : α × List (Option α)) : Visit (List α) :=
  if items.2.any Option.isNone then invalidSearchQuery "Lists should not have empty values".toList
  else .ok (items.1 :: items.2.filterMap id)

def visitAggregateParam : ParamNode → Text
  | .quotedAggregateParam text => '"' :: text ++ ['"']
  | .rawAggregateParam text => text

def visitAggregateKey (node : AggregateNode) : Visit Text := do
  let args ← match node.args with
    | some args => do
      let args ← processList args
      pure (List.intercalate [',', ' '] (args.map visitAggregateParam))
    | none => pure []
  return mappedKey config (node.name ++ '(' :: args ++ [')'])

/-- `replace('\\"', '"')`. -/
def unescapeQuotes : Text → Text
  | '\\' :: '"' :: rest => '"' :: unescapeQuotes rest
  | c :: rest => c :: unescapeQuotes rest
  | [] => []

/-- Whether each quote comes after a backslash. What comes before a quote at the beginning of the
rest is the last character of the value, because of its index -1. -/
def quotesEscaped (last before : Char) : Text → Bool
  | [] => true
  | c :: rest =>
    if c = '"' then before = '\\' && quotesEscaped last last rest else quotesEscaped last c rest

def visitValue (text : Text) : Visit Text :=
  if text.head? ≠ some '"' ∧ quotesEscaped (text.getLastD ' ') ' ' text then
    .ok (unescapeQuotes text)
  else invalidSearchQuery
    ("Invalid quote at '".toList ++ text ++ "': quotes must enclose text or be escaped.".toList)

def visitSearchValue : ValueNode → Visit Text
  | .quotedValue text => .ok (unescapeQuotes text)
  | .value text => visitValue text

def visitTextInValue : ValueNode → Text
  | .quotedValue text => unescapeQuotes text
  | .value text => unescapeQuotes text

def getOperatorValue (operator : Option Text) : Text := operator.getD ['=']

def operatorNegationMap : List (Text × Text) :=
  [("=".toList, "!=".toList), ("!=".toList, "=".toList), ("<".toList, ">=".toList),
    ("<=".toList, ">".toList), (">".toList, "<=".toList), (">=".toList, "<".toList),
    ("IN".toList, "NOT IN".toList), ("NOT IN".toList, "IN".toList)]

def handleNegation (negated : Bool) (operator : Text) : Text :=
  if negated then (operatorNegationMap.lookup operator).getD ['!', '='] else operator

/-- `operator in ("=", "!=")`. -/
def isEquality (operator : Text) : Bool := operator ∈ [['='], ['!', '=']]

/-- `"!=" if is_negated(negation) else "="`. -/
def equalityOf (negated : Bool) : Text := if negated then ['!', '='] else ['=']

def RawValue.toText : RawValue → Text
  | .string text => text
  | .strings texts => List.intercalate [',', ' '] texts
  | _ => []

def handleBasicFilter (key operator : Text) (value : RawValue) : Visit SearchFilter :=
  if isDateKey config key then
    invalidSearchQuery (key ++ ": Invalid date: ".toList ++ value.toText ++
      ". Expected +/-duration (e.g. +1h) or ISO 8601-like (e.g. ".toList ++ context.nowText ++
      ").".toList)
  else if isBooleanKey config key then
    invalidSearchQuery (key ++ ": Invalid boolean: ".toList ++ value.toText ++
      ". Expected true, 1, false, or 0.".toList)
  else do
    let numeric ← isNumericKey config context key
    if numeric then
      invalidSearchQuery (key ++ ": Invalid number: ".toList ++ value.toText ++
        ". Expected number then optional k, m, or b suffix (e.g. 500k).".toList)
    else return ⟨key, operator, value⟩

def handleTextFilter (key operator value : Text) : Visit SearchFilter :=
  if ¬ isEquality operator ∧ key ∉ config.textOperatorKeys then
    handleBasicFilter config context key ['='] (.string (operator ++ value))
  else handleBasicFilter config context key operator (.string value)

def handleNumericFilter (key operator value suffix : Text) : Visit SearchFilter := do
  let numeric ← isNumericKey config context key
  if numeric then do
    let number ← orInvalidSearchQuery (parseNumericValue value suffix)
    return ⟨key, operator, .number number⟩
  else handleTextFilter config context key operator (value ++ suffix)

def visitDateFilter (key operator value : Text) : Visit SearchFilter :=
  if isDateKey config key then do
    let date ← orInvalidSearchQuery (parseDatetimeString value)
    return ⟨key, operator, .datetime date⟩
  else handleBasicFilter config context key ['=']
    (.string (if operator ≠ ['='] then operator ++ value else value))

def visitSpecificDateFilter (key value : Text) : Visit (List SearchFilter) :=
  if isDateKey config key then do
    let range ← orInvalidSearchQuery (parseDatetimeValue value)
    return [⟨key, ['>', '='], .datetime range.1⟩, ⟨key, ['<'], .datetime range.2⟩]
  else do
    let filter ← handleBasicFilter config context key ['='] (.string value)
    return [filter]

def visitRelDateFilter (key value : Text) : Visit SearchFilter :=
  if isDateKey config key then do
    let range ← orInvalidSearchQuery (parseDatetimeRange context.now value)
    return ⟨key, if range.1 then ['>', '='] else ['<', '='], .datetime range.2⟩
  else handleBasicFilter config context key ['='] (.string value)

def handleUnitFilter (negated : Bool) (key : Text) (operator : Option Text) (value : Text × Text) :
    Visit SearchFilter :=
  let text := value.1 ++ value.2
  let operator := getOperatorValue operator
  handleBasicFilter config context key (equalityOf negated)
    (.string (if ¬ isEquality operator then operator ++ text else text))

def visitDurationFilter (negated : Bool) (key : Text) (operator : Option Text)
    (value : Text × Text) : Visit SearchFilter := do
  let duration ← isDurationKey config context key
  if duration then do
    let milliseconds ← orInvalidSearchQuery (parseDuration value.1 value.2)
    return ⟨key, handleNegation negated (getOperatorValue operator), .number milliseconds⟩
  else do
    let numeric ← isNumericKey config context key
    if numeric then
      handleNumericFilter config context key (handleNegation negated (getOperatorValue operator))
        value.1 value.2
    else handleUnitFilter config context negated key operator value

def visitSizeFilter (negated : Bool) (key : Text) (operator : Option Text)
    (value : Text × Text) : Visit SearchFilter := do
  let size ← isSizeKey context key
  if size then do
    let byte ← orInvalidSearchQuery (parseSize value.1 value.2)
    return ⟨key, handleNegation negated (getOperatorValue operator), .number byte⟩
  else handleUnitFilter config context negated key operator value

def visitBooleanFilter (negated : Bool) (key value : Text) : Visit SearchFilter := do
  let numeric ← isNumericKey config context key
  if numeric then handleNumericFilter config context key (equalityOf negated) value []
  else if isBooleanKey config key then
    let lower := value.map Char.toLower
    if lower ∈ [['t', 'r', 'u', 'e'], ['1']] then
      return ⟨key, ['='], .number (if negated then 0 else 1)⟩
    else if lower ∈ [['f', 'a', 'l', 's', 'e'], ['0']] then
      return ⟨key, ['='], .number (if negated then 1 else 0)⟩
    else invalidSearchQuery ("Invalid boolean field: SearchKey(name='".toList ++ key ++ "')".toList)
  else handleBasicFilter config context key (equalityOf negated) (.string value)

/-- The number of a node, without its suffix. -/
def Grammar.NumericNode.number (node : NumericNode) : Text := node.sign ++ node.value

def visitNumericInFilter (negated : Bool) (key : Text) (values : List NumericNode) :
    Visit SearchFilter := do
  let operator := handleNegation negated ['I', 'N']
  let numeric ← isNumericKey config context key
  if numeric then do
    let numbers ← values.mapM fun value ↦
      orInvalidSearchQuery (parseNumericValue value.number value.suffix)
    return ⟨key, operator, .numbers numbers⟩
  else
    handleBasicFilter config context key operator
      (.strings (values.map fun value ↦ value.number ++ value.suffix))

def visitNumericFilter (negated : Bool) (key : Text) (operator : Option Text)
    (value : NumericNode) : Visit SearchFilter := do
  let numeric ← isNumericKey config context key
  let operator := if numeric ∨ key ∈ config.textOperatorKeys then
    handleNegation negated (getOperatorValue operator) else getOperatorValue operator
  let text := value.number ++ value.suffix
  if numeric then handleNumericFilter config context key operator value.number value.suffix
  else if key ∈ config.textOperatorKeys then
    handleBasicFilter config context key operator (.string text)
  else
    handleBasicFilter config context key (equalityOf negated)
      (.string (if ¬ isEquality operator then operator ++ text else text))

def visitAggregateDurationFilter (negated : Bool) (key : Text) (operator : Option Text)
    (value : Text × Text) : Visit AggregateFilter := do
  let resultType ← lookedUp (context.getFunctionResultType key)
  let number ← orInvalidSearchQuery <|
    if resultType.any fun name ↦ name = "duration".toList ∨ name ∈ durationUnits then
      parseDuration value.1 value.2
    else parseNumericValue value.1 value.2
  return ⟨key, handleNegation negated (getOperatorValue operator), .number number⟩

def visitAggregateSizeFilter (negated : Bool) (key : Text) (operator : Option Text)
    (value : Text × Text) : Visit AggregateFilter := do
  let number ← orInvalidSearchQuery (parseSize value.1 value.2)
  return ⟨key, handleNegation negated (getOperatorValue operator), .number number⟩

/-- `operator + search_value if operator != "=" else search_value`. -/
def pushedBack (operator value : Text) : Text :=
  if operator ≠ ['='] then operator ++ value else value

def visitAggregatePercentageFilter (negated : Bool) (key : Text) (operator : Option Text)
    (value : Text) : Visit AggregateFilter := do
  let operator := handleNegation negated (getOperatorValue operator)
  let resultType ← lookedUp (context.getFunctionResultType key)
  if resultType = some "percentage".toList then do
    let number ← orInvalidSearchQuery (parsePercentage value)
    return ⟨key, operator, .number number⟩
  else return ⟨key, ['='], .string (pushedBack operator value)⟩

def visitAggregateNumericFilter (negated : Bool) (key : Text) (operator : Option Text)
    (value : NumericNode) : Visit AggregateFilter := do
  let number ← orInvalidSearchQuery (parseNumericValue value.number value.suffix)
  return ⟨key, handleNegation negated (getOperatorValue operator), .number number⟩

/-- `any(key in search_key.name for key in self.config.date_keys)`. -/
def isDateAggregate (key : Text) : Bool := config.dateKeys.any fun dateKey ↦ dateKey <:+: key

def visitAggregateDateFilter (negated : Bool) (key : Text) (operator : Option Text)
    (value : Text) : Visit AggregateFilter :=
  let operator := handleNegation negated (getOperatorValue operator)
  if isDateAggregate config key then do
    let date ← orInvalidSearchQuery (parseDatetimeString value)
    return ⟨key, operator, .datetime date⟩
  else return ⟨key, ['='], .string (pushedBack operator value)⟩

def visitAggregateRelDateFilter (negated : Bool) (key : Text) (operator : Option Text)
    (value : Text) : Visit AggregateFilter :=
  let operator := handleNegation negated (getOperatorValue operator)
  if isDateAggregate config key then do
    let range ← orInvalidSearchQuery (parseDatetimeRange context.now value)
    return ⟨key, if range.1 then ['>', '='] else ['<', '='], .datetime range.2⟩
  else return ⟨key, ['='], if operator ≠ ['='] then .string (operator ++ value) else .node value⟩

def visitHasFilter (negated : Bool) (key : Text) : SearchFilter :=
  ⟨key, if negated then ['='] else ['!', '='], .string []⟩

/-- `valid values are [..]`. -/
def validKeys (translators : List (Text × Text × RawValue)) : Text :=
  let keys := (translators.map fun translator ↦ String.ofList translator.1).mergeSort
  '[' :: List.intercalate [',', ' '] (keys.map fun key ↦ '\'' :: key.toList ++ ['\'']) ++ [']']

def visitIsFilter (negated : Bool) (value : Text) : Visit SearchFilter :=
  if config.isFilterTranslation = [] then
    invalidSearchQuery "\"is:\" queries are not supported in this search.".toList
  else if value.head? = some '[' then
    invalidSearchQuery "\"in\" syntax invalid for \"is\" search".toList
  else
    match config.isFilterTranslation.lookup value with
    | none => invalidSearchQuery
      ("Invalid value for \"is\" search, valid values are ".toList ++
        validKeys config.isFilterTranslation)
    | some (key, value) => .ok ⟨key, equalityOf negated, value⟩

def visitTextInFilter (negated : Bool) (key : Text) (values : List Text) : Visit SearchFilter :=
  handleBasicFilter config context key (handleNegation negated ['I', 'N']) (.strings values)

def Grammar.ValueNode.isEmpty : ValueNode → Bool
  | .value [] => true
  | _ => false

def visitTextFilter (negated : Bool) (key : Text) (operator : Option Text) (node : ValueNode)
    (value : Text) : Visit SearchFilter :=
  let operator := getOperatorValue operator
  if node.isEmpty then
    invalidSearchQuery ("Empty string after '".toList ++ key ++ ":'".toList)
  else if ¬ isEquality operator ∧ key ∉ config.textOperatorKeys then
    handleTextFilter config context key (handleNegation negated ['=']) (operator ++ value)
  else handleTextFilter config context key (handleNegation negated operator) value

def visitFilter : FilterNode → Visit (List Token)
  | .date key operator value => do
    let key ← visitSearchKey config key
    let filter ← visitDateFilter config context key operator value
    return [.filter filter]
  | .specificDate key value => do
    let key ← visitSearchKey config key
    let filters ← visitSpecificDateFilter config context key value
    return filters.map Token.filter
  | .relDate key value => do
    let key ← visitSearchKey config key
    let filter ← visitRelDateFilter config context key value
    return [.filter filter]
  | .duration negated key operator value => do
    let key ← visitSearchKey config key
    let filter ← visitDurationFilter config context negated key operator value
    return [.filter filter]
  | .size negated key operator value => do
    let key ← visitSearchKey config key
    let filter ← visitSizeFilter config context negated key operator value
    return [.filter filter]
  | .boolean negated key value => do
    let key ← visitSearchKey config key
    let filter ← visitBooleanFilter config context negated key value
    return [.filter filter]
  | .numericIn negated key values => do
    let key ← visitSearchKey config key
    let values ← processList values
    let filter ← visitNumericInFilter config context negated key values
    return [.filter filter]
  | .numeric negated key operator value => do
    let key ← visitSearchKey config key
    let filter ← visitNumericFilter config context negated key operator value
    return [.filter filter]
  | .aggregateDuration negated key operator value => do
    let key ← visitAggregateKey config key
    let filter ← visitAggregateDurationFilter context negated key operator value
    return [.aggregate filter]
  | .aggregatePercentage negated key operator value => do
    let key ← visitAggregateKey config key
    let filter ← visitAggregatePercentageFilter context negated key operator value
    return [.aggregate filter]
  | .aggregateNumeric negated key operator value => do
    let key ← visitAggregateKey config key
    let filter ← visitAggregateNumericFilter negated key operator value
    return [.aggregate filter]
  | .aggregateSize negated key operator value => do
    let key ← visitAggregateKey config key
    let filter ← visitAggregateSizeFilter negated key operator value
    return [.aggregate filter]
  | .aggregateDate negated key operator value => do
    let key ← visitAggregateKey config key
    let filter ← visitAggregateDateFilter config negated key operator value
    return [.aggregate filter]
  | .aggregateRelDate negated key operator value => do
    let key ← visitAggregateKey config key
    let filter ← visitAggregateRelDateFilter config context negated key operator value
    return [.aggregate filter]
  | .has negated (.inl key) => do
    let key ← visitSearchKey config key
    return [.filter (visitHasFilter negated key)]
  | .has _ (.inr value) => do
    let _ ← visitSearchValue value
    invalidSearchQuery
      "Invalid format for \"has\" search: was expecting a field or tag instead".toList
  | .is negated value => do
    let value ← visitSearchValue value
    let filter ← visitIsFilter config negated value
    return [.filter filter]
  | .textIn negated key values => do
    let key ← visitTextKey config key
    let values ← processList values
    let filter ← visitTextInFilter config context negated key (values.map visitTextInValue)
    return [.filter filter]
  | .text negated key operator node => do
    let key ← visitTextKey config key
    let value ← visitSearchValue node
    let filter ← visitTextFilter config context negated key operator node value
    return [.filter filter]

def visitFreeText (node : FreeTextNode) : List Token :=
  let text := match node with
    | .freeTextQuoted text => unescapeQuotes text
    | .freeTextUnquoted text =>
      ((text.dropWhile (· = ' ')).reverse.dropWhile (· = ' ')).reverse
  if text = [] then [] else [.filter ⟨config.freeTextKey, ['='], .string text⟩]

mutual

def visitTerm : TermNode → Visit (List Token)
  | .booleanOperator text =>
    if config.allowBoolean then .ok [.operator (text.map Char.toUpper)]
    else invalidSearchQuery
      ("Boolean statements containing \"OR\" or \"AND\" are not supported in this search").toList
  | .parenGroup text terms => do
    let children ← visitTerms terms
    if ¬ config.allowBoolean then return [.filter ⟨config.freeTextKey, ['='], .string text⟩]
    else if children = [] then return [.string text]
    else return [.paren children]
  | .filter filter => visitFilter config context filter
  | .freeText node => .ok (visitFreeText config node)

def visitTerms : List TermNode → Visit (List Token)
  | [] => .ok []
  | term :: terms => do
    let first ← visitTerm term
    let rest ← visitTerms terms
    return first ++ rest

end

def defaultConfig : SearchConfig where
  durationKeys := ["transaction.duration".toList]
  textOperatorKeys := ["release.version".toList, "release.build".toList]
  numericKeys := ["project_id", "project.id", "issue.id", "stack.colno", "stack.lineno",
    "stack.stack_level", "transaction.duration"].map String.toList
  dateKeys := ["start", "end", "last_seen()", "time", "timestamp", "timestamp.to_hour",
    "timestamp.to_day", "error.received"].map String.toList
  booleanKeys := ["error.handled", "error.unhandled", "error.main_thread", "stack.in_app",
    "is_application", "team_key_transaction"].map String.toList

def parseSearchQuery (query : Text) : Visit (List Token) :=
  match search query with
  | some terms => visitTerms config context terms
  | none => invalidSearchQuery
    ("Parse error. This is commonly caused by unmatched parentheses. Enclose any text in double " ++
      "quotes.").toList

end Sentry.EventSearch
