import Sentry.Library.Dictionary
import Mathlib.Data.Rat.Defs

/-!
# A batch of the metrics indexer

`sentry_metrics/consumers/indexer/batch.py`. The indexer parses and validates the messages of a
batch (`extractMessages`), collects their strings (`extractStrings`), has the string indexer record
them, and writes the messages anew with ids (`reconstructMessages`).

A payload is whatever `orjson.loads` makes of its bytes. Every exception while a message is
extracted makes it invalid; the tags of a `ParsedMessage` have values that have a length, also lists
and dictionaries. In `reconstructMessages` only a `KeyError` in the loop over the tags is caught.
The serialisation of the new payload is left out.
-/

namespace Sentry.SentryMetrics

open Library

/-- A string as its characters. -/
abbrev Str := List Char

scoped instance instLawfulBEqStr : LawfulBEq Str := List.instLawfulBEq

/-- A JSON value; the members of an object as they are written. -/
inductive Json
  | null
  | bool (value : Bool)
  | int (value : ℤ)
  | float (value : ℚ)
  | str (value : Str)
  | arr (elements : List Json)
  | obj (members : List (Str × Json))

abbrev JsonDict := List (Str × Json)

def Json.hashable : Json → Bool
  | .arr _ => false
  | .obj _ => false
  | _ => true

/-- `len(value)`, `none` where it raises `TypeError`. -/
def Json.len : Json → Option ℕ
  | .str value => some value.length
  | .arr elements => some elements.length
  | .obj members => some (dictOfItems members).length
  | _ => none

/-- `isinstance(value, (int, float, list))`. -/
def Json.isNumberOrList : Json → Bool
  | .bool _ => true
  | .int _ => true
  | .float _ => true
  | .arr _ => true
  | _ => false

inductive UseCaseID
  | spans
  | transactions
  | sessions
  | escalatingIssues
  | custom
  | profiles
  | metricStats
  deriving DecidableEq

/-- The value of a `UseCaseID`. -/
def UseCaseID.value : UseCaseID → Str
  | .spans => "spans".toList
  | .transactions => "transactions".toList
  | .sessions => "sessions".toList
  | .escalatingIssues => "escalating_issues".toList
  | .custom => "custom".toList
  | .profiles => "profiles".toList
  | .metricStats => "metric_stats".toList

def splitPart (separator : Char) (s : Str) : Option (Str × Str) :=
  match s.takeWhile (· ≠ separator), s.dropWhile (· ≠ separator) with
  | part@(_ :: _), _ :: rest => some (part, rest)
  | _, _ => none

/-- The namespace of an MRI, `entity:namespace/name@unit`. The unit is at least one character, with
no line break before the end. -/
def mriNamespace (mri : Str) : Option Str :=
  match splitPart ':' mri with
  | none => none
  | some (_, afterEntity) =>
    match splitPart '/' afterEntity with
    | none => none
    | some (mriNamespace, afterNamespace) =>
      match splitPart '@' afterNamespace with
      | none => none
      | some (_, unit) =>
        let body := if unit.getLast? = some '\n' then unit.dropLast else unit
        if body ≠ [] ∧ '\n' ∉ body then some mriNamespace else none

/-- `extract_use_case_id`, `none` where it raises `ValidationError`. -/
def extractUseCaseId (mri : Str) : Option UseCaseID :=
  match mriNamespace mri with
  | none => none
  | some ns =>
    [UseCaseID.spans, .transactions, .sessions, .escalatingIssues, .custom, .profiles,
      .metricStats].find? fun useCaseId ↦ useCaseId.value = ns

/-- `ACCEPTED_METRIC_TYPES`. -/
inductive MetricType
  | set
  | counter
  | distribution
  | gauge
  deriving DecidableEq

def acceptedMetricType : Str → Option MetricType
  | ['s'] => some .set
  | ['c'] => some .counter
  | ['d'] => some .distribution
  | ['g'] => some .gauge
  | _ => none

structure BrokerMeta where
  partition : ℕ
  offset : ℕ
  deriving DecidableEq

/-- A broker message. The value of a header is its text, `none` when it is not UTF-8; the value of
the payload is what `orjson.loads` makes of it, `none` when it is no JSON. -/
structure BrokerMessage where
  brokerMeta : BrokerMeta
  timestamp : ℚ
  key : Option Str
  headers : List (Str × Option Str)
  value : Option Json

/-- The payload of the outer message. Kafka has one message at an offset of a partition. -/
structure MessageBatch where
  messages : List BrokerMessage
  nodup : (messages.map BrokerMessage.brokerMeta).Nodup

/-- What became of the schema validation: it can be skipped at random, and raise something else than
`ValidationError`. -/
inductive SchemaOutcome
  | accepted
  | validationError
  | otherError
  deriving DecidableEq

/-- The settings of the indexer. -/
structure IndexerConfig where
  shouldIndexTagValues : Bool
  isOutputSliced : Bool
  maxTagKeyLength : ℕ
  maxTagValueLength : ℕ
  raiseValidationErrors : Bool
  disabledNamespaces : List Str
  dropPercentilesPerUseCase : List Str
  tenSecondGranularity : Bool
  schemaValidator : BrokerMeta → JsonDict → SchemaOutcome

def maxNameLength : ℕ := 200

/-- A message that was extracted and validated; `fields` is the loaded payload. The value of a tag
is a string, a list or an object: anything else has no length. -/
structure ParsedMessage where
  name : Str
  useCaseId : UseCaseID
  orgId : Json
  metricType : MetricType
  tags : JsonDict
  value : Json
  fields : JsonDict
  hasLen : ∀ tag ∈ tags, tag.2.len.isSome

/-- `TagsValidator.is_allowed`. A value without a length raises `TypeError` there, and the message
is invalid as well. -/
def tagsAllowed (config : IndexerConfig) (tags : JsonDict) : Bool :=
  tags.all fun tag ↦
    tag.1.length ≤ config.maxTagKeyLength &&
      match tag.2.len with
      | none => false
      | some length => length ≤ config.maxTagValueLength

theorem hasLen_of_tagsAllowed {config : IndexerConfig} {tags : JsonDict}
    (h : tagsAllowed config tags) : ∀ tag ∈ tags, tag.2.len.isSome := by
  intro tag htag
  have hallowed := List.all_eq_true.mp h tag htag
  cases hlen : tag.2.len with
  | none => simp [hlen] at hallowed
  | some length => rfl

/-- The tags of a payload: none at all is allowed; `None` and numbers have no length, strings and
lists no items. -/
def payloadTags (fields : JsonDict) : Option JsonDict :=
  match getItem fields "tags".toList with
  | none => some []
  | some (.obj members) => some (dictOfItems members)
  | some _ => none

def schemaPasses (config : IndexerConfig) (brokerMeta : BrokerMeta) (fields : JsonDict) : Bool :=
  match config.schemaValidator brokerMeta fields with
  | .accepted => true
  | .validationError => !config.raiseValidationErrors
  | .otherError => false

/-- `_extract_message` and `_validate_message`: `none` where one of them raises, whatever it
raises. -/
def parseMessage (config : IndexerConfig) (message : BrokerMessage) : Option ParsedMessage :=
  match message.value with
  | some (.obj members) =>
    let fields := dictOfItems members
    match getItem fields "name".toList with
    | some (.str name) =>
      match extractUseCaseId name, getItem fields "type".toList, getItem fields "value".toList,
          payloadTags fields, getItem fields "org_id".toList with
      | some useCaseId, some (.str type), some value, some tags, some orgId =>
        match acceptedMetricType type with
        | some metricType =>
          if h : schemaPasses config message.brokerMeta fields ∧ name.length ≤ maxNameLength ∧
              tagsAllowed config tags then
            some ⟨name, useCaseId, orgId, metricType, tags, value, fields,
              hasLen_of_tagsAllowed h.2.2⟩
          else none
        | none => none
      | _, _, _, _, _ => none
    | _ => none
  | _ => none

/-- The exceptions that can leave the methods of a batch. -/
inductive BatchError
  | keyError
  | typeError
  | assertionError
  | unicodeDecodeError
  deriving DecidableEq

structure IndexerBatch where
  config : IndexerConfig
  outerMessage : MessageBatch
  invalidMsgMeta : List BrokerMeta
  filteredMsgMeta : List BrokerMeta
  parsedPayloadsByMeta : List (BrokerMeta × ParsedMessage)

/-- `_extract_namespace`: the first header of this name. -/
def extractNamespace : List (Str × Option Str) → Except BatchError (Option Str)
  | [] => .ok none
  | (string, encoded) :: rest =>
    if string = "namespace".toList then
      match encoded with
      | none => .error .unicodeDecodeError
      | some text => .ok (some text)
    else extractNamespace rest

def namespaceDisabled (config : IndexerConfig) (message : BrokerMessage) : Except BatchError Bool :=
  match extractNamespace message.headers with
  | .error e => .error e
  | .ok none => .ok false
  | .ok (some ns) =>
    if ns ∈ config.disabledNamespaces then
      if ns = [] then .error .assertionError else .ok true
    else .ok false

namespace IndexerBatch

/-- One message of `_extract_messages`. -/
def extractMessage (batch : IndexerBatch) (message : BrokerMessage) :
    Except BatchError IndexerBatch :=
  match namespaceDisabled batch.config message with
  | .error e => .error e
  | .ok true =>
    .ok { batch with filteredMsgMeta := batch.filteredMsgMeta ++ [message.brokerMeta] }
  | .ok false =>
    match parseMessage batch.config message with
    | none => .ok { batch with invalidMsgMeta := batch.invalidMsgMeta ++ [message.brokerMeta] }
    | some parsed =>
      .ok { batch with
        parsedPayloadsByMeta := setItem message.brokerMeta parsed batch.parsedPayloadsByMeta }

def extractMessages : List BrokerMessage → IndexerBatch → Except BatchError IndexerBatch
  | [], batch => .ok batch
  | message :: rest, batch =>
    match batch.extractMessage message with
    | .error e => .error e
    | .ok batch' => extractMessages rest batch'

/-- `IndexerBatch.__init__`. -/
def new (config : IndexerConfig) (outerMessage : MessageBatch) : Except BatchError IndexerBatch :=
  extractMessages outerMessage.messages ⟨config, outerMessage, [], [], []⟩

def filterMessages (batch : IndexerBatch) (keysToRemove : List BrokerMeta) : IndexerBatch :=
  { batch with filteredMsgMeta := batch.filteredMsgMeta ++ keysToRemove }

end IndexerBatch

/-- The values of the tags that are strings. -/
def ParsedMessage.tagValues (message : ParsedMessage) : List Str :=
  message.tags.filterMap fun tag ↦
    match tag.2 with
    | .str value => some value
    | _ => none

def ParsedMessage.indexedStrings (config : IndexerConfig) (message : ParsedMessage) : List Str :=
  message.name :: message.tags.map Prod.fst ++
    if config.shouldIndexTagValues then message.tagValues else []

/-- `strings_in_message`. A value that is no string cannot be an element of a set. -/
def stringsInMessage (config : IndexerConfig) (message : ParsedMessage) :
    Except BatchError (List Str) :=
  if config.shouldIndexTagValues && message.tags.any fun tag ↦ !tag.2.hashable then
    .error .typeError
  else
    .ok (message.indexedStrings config)

namespace IndexerBatch

/-- One payload of `extract_strings`. -/
def extractPayloadStrings (batch : IndexerBatch) (item : BrokerMeta × ParsedMessage)
    (strings : List (UseCaseID × Json × Str)) : Except BatchError (List (UseCaseID × Json × Str)) :=
  if item.1 ∈ batch.invalidMsgMeta ∨ item.1 ∈ batch.filteredMsgMeta then .ok strings
  else
    match stringsInMessage batch.config item.2 with
    | .error e => .error e
    | .ok new =>
      if item.2.orgId.hashable then
        .ok (strings ++ new.map fun string ↦ (item.2.useCaseId, item.2.orgId, string))
      else .error .typeError

/-- The loop of `extract_strings`. -/
def extractStringsLoop (batch : IndexerBatch) :
    List (BrokerMeta × ParsedMessage) → List (UseCaseID × Json × Str) →
      Except BatchError (List (UseCaseID × Json × Str))
  | [], strings => .ok strings
  | item :: rest, strings =>
    match batch.extractPayloadStrings item strings with
    | .error e => .error e
    | .ok strings' => batch.extractStringsLoop rest strings'

/-- `extract_strings`: the strings with their use case and organisation. -/
def extractStrings (batch : IndexerBatch) : Except BatchError (List (UseCaseID × Json × Str)) :=
  batch.extractStringsLoop batch.parsedPayloadsByMeta []

end IndexerBatch

end Sentry.SentryMetrics
