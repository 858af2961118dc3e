import Sentry.SentryMetrics.IndexerBatch

/-!
# Writing the messages of a batch anew

`IndexerBatch.reconstruct_messages`. A message that is kept is looked up string by string in the
result of the string indexer; a string without an id drops the message. The metadata of the strings
that the message uses goes into its `mapping_meta`, by the way the id was fetched.
-/

namespace Sentry.SentryMetrics

open Library

inductive FetchType
  | cacheHit
  | hardcoded
  | dbRead
  | firstSeen
  | rateLimited
  deriving DecidableEq

/-- The value of a `FetchType`. -/
def FetchType.value : FetchType → Char
  | .cacheHit => 'c'
  | .hardcoded => 'h'
  | .dbRead => 'd'
  | .firstSeen => 'f'
  | .rateLimited => 'r'

/-- `Metadata`; `fetchTypeExt` is `is_global`. -/
structure Metadata where
  id : Option ℤ
  fetchType : FetchType
  fetchTypeExt : Option Bool
  deriving DecidableEq

/-- What `bulk_record` returns: the ids and the metadata of the strings, by use case and
organisation. -/
structure RecordResult where
  mapping : UseCaseID → Option (Json → Option (Str → Option (Option ℤ)))
  bulkRecordMeta : UseCaseID → Option (Json → Option (Str → Option Metadata))

/-- `table[use_case_id][org_id]`. -/
def lookupOrg {α : Type} (table : UseCaseID → Option (Json → Option α)) (useCaseId : UseCaseID)
    (orgId : Json) : Except BatchError α :=
  match table useCaseId with
  | none => .error .keyError
  | some byOrg =>
    if orgId.hashable then
      match byOrg orgId with
      | none => .error .keyError
      | some found => .ok found
    else .error .typeError

/-- `mapping[use_case_id][org_id][string]`. -/
def RecordResult.lookup (result : RecordResult) (useCaseId : UseCaseID) (orgId : Json)
    (string : Str) : Except BatchError (Option ℤ) :=
  match lookupOrg result.mapping useCaseId orgId with
  | .error e => .error e
  | .ok ids =>
    match ids string with
    | none => .error .keyError
    | some id => .ok id

/-- What the loop over the tags of a message has gathered. -/
structure TagsState where
  usedTags : List Str
  newTags : List (ℤ × Json)
  exceededGlobalQuotas : ℕ
  exceededOrgQuotas : ℕ

def TagsState.countExceeded (state : TagsState) : Option Metadata → TagsState
  | some ⟨_, _, some true⟩ => { state with exceededGlobalQuotas := state.exceededGlobalQuotas + 1 }
  | _ => { state with exceededOrgQuotas := state.exceededOrgQuotas + 1 }

def exceededQuota (result : RecordResult) (message : ParsedMessage) (string : Str)
    (state : TagsState) : Except BatchError TagsState :=
  match lookupOrg result.bulkRecordMeta message.useCaseId message.orgId with
  | .error e => .error e
  | .ok metas => .ok (state.countExceeded (metas string))

/-- One tag of the loop. A list or an object cannot be an element of `used_tags`. -/
def indexTag (config : IndexerConfig) (result : RecordResult) (message : ParsedMessage)
    (tag : Str × Json) (state : TagsState) : Except BatchError TagsState :=
  match tag with
  | (k, .str v) =>
    let state := { state with usedTags := state.usedTags ++ [k, v] }
    match result.lookup message.useCaseId message.orgId k with
    | .error e => .error e
    | .ok none => exceededQuota result message k state
    | .ok (some newK) =>
      if config.shouldIndexTagValues then
        match result.lookup message.useCaseId message.orgId v with
        | .error e => .error e
        | .ok none => exceededQuota result message v state
        | .ok (some newV) =>
          .ok { state with newTags := setItem newK (.int newV) state.newTags }
      else .ok { state with newTags := setItem newK (.str v) state.newTags }
  | _ => .error .typeError

def indexTags (config : IndexerConfig) (result : RecordResult) (message : ParsedMessage) :
    List (Str × Json) → TagsState → Except BatchError TagsState
  | [], state => .ok state
  | tag :: rest, state =>
    match indexTag config result message tag state with
    | .error e => .error e
    | .ok state' => indexTags config result message rest state'

/-- An order in which the elements of a set are visited. -/
structure SetOrder where
  iterate : List Str → List Str
  mem_iterate : ∀ strings string, string ∈ iterate strings ↔ string ∈ strings
  nodup_iterate : ∀ strings, (iterate strings).Nodup

/-- `output_message_meta`: the strings by their fetch type and the text of their id, where `none`
stands for the text `None`. -/
abbrev MappingMeta := List (FetchType × List (Option ℤ × Str))

def enterMeta (metas : Str → Option Metadata) (mappingMeta : MappingMeta) (string : Str) :
    MappingMeta :=
  match metas string with
  | none => mappingMeta
  | some metadata =>
    setItem metadata.fetchType
      (setItem metadata.id string ((getItem mappingMeta metadata.fetchType).getD [])) mappingMeta

/-- `output_message_meta` for the strings in the order of their set. -/
def outputMessageMeta (order : SetOrder) (metas : Str → Option Metadata) (usedTags : List Str) :
    MappingMeta :=
  (order.iterate usedTags).foldl (enterMeta metas) []

/-- `mapping_header_content`: the values of the fetch types encountered, sorted. -/
def mappingSources (mappingMeta : MappingMeta) : Str :=
  (mappingMeta.map fun item ↦ item.1.value).mergeSort fun a b ↦ decide (a ≤ b)

inductive AggregationOption
  | hist
  | tenSecond
  | disablePercentiles
  deriving DecidableEq

/-- `get_aggregation_options`, of which the first option is used. -/
def getAggregationOptions (config : IndexerConfig) (message : ParsedMessage) :
    Option AggregationOption :=
  if message.name = "d:transactions/measurements.fcp@millisecond".toList ∨
      message.name = "d:transactions/measurements.lcp@millisecond".toList then some .hist
  else if message.name = "d:spans/webvital.inp@millisecond".toList then none
  else if message.useCaseId.value ∈ config.dropPercentilesPerUseCase then some .disablePercentiles
  else if message.useCaseId = .custom ∧ config.tenSecondGranularity then some .tenSecond
  else none

def Json.truthy : Json → Bool
  | .null => false
  | .bool value => value
  | .int value => value ≠ 0
  | .float value => value ≠ 0
  | .str value => value ≠ []
  | .arr elements => !elements.isEmpty
  | .obj members => !members.isEmpty

/-- The new payload: `new_payload_v1` where tag values are indexed, else `new_payload_v2`, which has
a version. -/
structure MetricPayload where
  tags : List (ℤ × Json)
  version : Option ℕ
  retentionDays : Json
  mappingMeta : MappingMeta
  useCaseId : Str
  metricId : ℤ
  orgId : Json
  timestamp : Json
  projectId : Json
  metricType : MetricType
  value : Json
  sentryReceivedTimestamp : ℚ
  aggregationOption : Option AggregationOption
  samplingWeight : Option Json

def newPayloadValue (config : IndexerConfig) (message : BrokerMessage) (parsed : ParsedMessage)
    (newTags : List (ℤ × Json)) (mappingMeta : MappingMeta) (numericMetricId : ℤ) :
    Except BatchError MetricPayload :=
  if config.shouldIndexTagValues && !parsed.value.isNumberOrList then .error .assertionError
  else
    match getItem parsed.fields "timestamp".toList, getItem parsed.fields "project_id".toList with
    | some timestamp, some projectId =>
      .ok {
        tags := newTags
        version := if config.shouldIndexTagValues then none else some 2
        retentionDays := (getItem parsed.fields "retention_days".toList).getD (.int 90)
        mappingMeta := mappingMeta
        useCaseId := parsed.useCaseId.value
        metricId := numericMetricId
        orgId := parsed.orgId
        timestamp := timestamp
        projectId := projectId
        metricType := parsed.metricType
        value := parsed.value
        sentryReceivedTimestamp := message.timestamp
        aggregationOption :=
          if config.shouldIndexTagValues then none else getAggregationOptions config parsed
        samplingWeight :=
          if config.shouldIndexTagValues then none
          else (getItem parsed.fields "sampling_weight".toList).filter Json.truthy }
    | _, _ => .error .keyError

/-- `KafkaPayload`; the headers of the message are kept, the two new ones are fields of their own.
-/
structure KafkaPayload where
  key : Option Str
  value : MetricPayload
  headers : List (Str × Option Str)
  mappingSources : Str
  metricType : MetricType

/-- What a new message carries. -/
inductive OutputPayload
  | invalidMessage (partition offset : ℕ)
  | kafka (payload : KafkaPayload)
  | routing (orgId : Json) (payload : KafkaPayload)

/-- The payload of the string indexer's message that went into an output, if any. -/
def OutputPayload.metricPayload : OutputPayload → Option MetricPayload
  | .invalidMessage _ _ => none
  | .kafka payload => some payload.value
  | .routing _ payload => some payload.value

/-- A new message: it keeps the place and the time of the one it replaces. -/
structure OutputMessage where
  brokerMeta : BrokerMeta
  timestamp : ℚ
  payload : OutputPayload

/-- `message.value.replace(payload)`. -/
def BrokerMessage.replace (message : BrokerMessage) (payload : OutputPayload) : OutputMessage :=
  ⟨message.brokerMeta, message.timestamp, payload⟩

def outputPayload (config : IndexerConfig) (message : BrokerMessage) (parsed : ParsedMessage)
    (newPayload : MetricPayload) : OutputPayload :=
  let kafkaPayload : KafkaPayload :=
    { key := message.key
      value := newPayload
      headers := message.headers
      mappingSources := mappingSources newPayload.mappingMeta
      metricType := newPayload.metricType }
  if config.isOutputSliced then .routing parsed.orgId kafkaPayload else .kafka kafkaPayload

/-- One kept message of `reconstruct_messages`, from the loop over its tags on; `none` where it goes
on with the next message. -/
def reconstructMessage (config : IndexerConfig) (order : SetOrder) (result : RecordResult)
    (message : BrokerMessage) (parsed : ParsedMessage) : Except BatchError (Option OutputMessage) :=
  match indexTags config result parsed parsed.tags ⟨[parsed.name], [], 0, 0⟩ with
  | .error .keyError => .ok none
  | .error e => .error e
  | .ok state =>
    if state.exceededOrgQuotas ≠ 0 ∨ state.exceededGlobalQuotas ≠ 0 then .ok none
    else
      match lookupOrg result.bulkRecordMeta parsed.useCaseId parsed.orgId with
      | .error e => .error e
      | .ok metas =>
        match result.lookup parsed.useCaseId parsed.orgId parsed.name with
        | .error e => .error e
        | .ok none => .ok none
        | .ok (some numericMetricId) =>
          match newPayloadValue config message parsed state.newTags
              (outputMessageMeta order metas state.usedTags) numericMetricId with
          | .error e => .error e
          | .ok newPayload =>
            .ok (some (message.replace (outputPayload config message parsed newPayload)))

structure IndexerOutputMessageBatch where
  data : List OutputMessage
  cogsData : List (UseCaseID × ℕ)

namespace IndexerBatch

/-- One message of `reconstruct_messages`. Popping the payload of a message changes the batch. -/
def reconstructStep (order : SetOrder) (result : RecordResult) (message : BrokerMessage) :
    IndexerBatch × IndexerOutputMessageBatch →
      Except BatchError (IndexerBatch × IndexerOutputMessageBatch)
  | (batch, output) =>
    if message.brokerMeta ∈ batch.filteredMsgMeta then .ok (batch, output)
    else if message.brokerMeta ∈ batch.invalidMsgMeta then
      .ok (batch, { output with data := output.data ++ [message.replace
        (.invalidMessage message.brokerMeta.partition message.brokerMeta.offset)] })
    else
      match getItem batch.parsedPayloadsByMeta message.brokerMeta with
      | none => .error .keyError
      | some parsed =>
        match reconstructMessage batch.config order result message parsed with
        | .error e => .error e
        | .ok newMessage =>
          .ok ({ batch with
                  parsedPayloadsByMeta := delItem message.brokerMeta batch.parsedPayloadsByMeta },
            { data := output.data ++ newMessage.toList
              cogsData := setItem parsed.useCaseId
                ((getItem output.cogsData parsed.useCaseId).getD 0 + 1) output.cogsData })

/-- The loop of `reconstruct_messages`. -/
def reconstructLoop (order : SetOrder) (result : RecordResult) :
    List BrokerMessage → IndexerBatch × IndexerOutputMessageBatch →
      Except BatchError (IndexerBatch × IndexerOutputMessageBatch)
  | [], state => .ok state
  | message :: rest, state =>
    match reconstructStep order result message state with
    | .error e => .error e
    | .ok state' => reconstructLoop order result rest state'

def reconstructMessages (order : SetOrder) (result : RecordResult) (batch : IndexerBatch) :
    Except BatchError IndexerOutputMessageBatch :=
  (reconstructLoop order result batch.outerMessage.messages (batch, ⟨[], []⟩)).map Prod.snd

end IndexerBatch

end Sentry.SentryMetrics
