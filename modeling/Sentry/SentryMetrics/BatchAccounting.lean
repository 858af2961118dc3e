import Sentry.SentryMetrics.Reconstruct
import Mathlib.Data.List.Dedup

/-!
# What a batch emits for each of its messages

Extraction gives each message of a batch a fate of its own (`fate`, `new_extracted`). With a result
that records every extracted string, the loop of `reconstruct_messages` emits for each message what
its own fate and its own strings say (`Emitted`), unless it raises. It raises exactly when some kept
message has a tag whose value is not a string, or lacks a field or the type of value that the new
payload needs (`accountedFor_iff_reconstructible`).
-/

namespace Sentry.SentryMetrics

open Library List Option

/-! ### The fate of a message -/

/-- What becomes of a message when it is extracted. -/
inductive Fate
  | filtered
  | invalid
  | kept (parsed : ParsedMessage)

/-- The fate of a message of which the namespace could be read. -/
def fate (config : IndexerConfig) (message : BrokerMessage) : Fate :=
  match namespaceDisabled config message with
  | .ok true => .filtered
  | _ =>
    match parseMessage config message with
    | none => .invalid
    | some parsed => .kept parsed

/-- A batch that has extracted some messages, and put each of them where its fate says. -/
structure Extracted (config : IndexerConfig) (outerMessage : MessageBatch)
    (done : List BrokerMessage) (batch : IndexerBatch) : Prop where
  config_eq : batch.config = config
  outerMessage_eq : batch.outerMessage = outerMessage
  filtered : ∀ brokerMeta, brokerMeta ∈ batch.filteredMsgMeta ↔
    ∃ message ∈ done, message.brokerMeta = brokerMeta ∧ fate config message = .filtered
  invalid : ∀ brokerMeta, brokerMeta ∈ batch.invalidMsgMeta ↔
    ∃ message ∈ done, message.brokerMeta = brokerMeta ∧ fate config message = .invalid
  parsed : ∀ brokerMeta parsed, getItem batch.parsedPayloadsByMeta brokerMeta = some parsed ↔
    ∃ message ∈ done, message.brokerMeta = brokerMeta ∧ fate config message = .kept parsed

variable {config : IndexerConfig}

theorem Extracted.extractMessage {outerMessage : MessageBatch}
    {done : List BrokerMessage} {batch batch' : IndexerBatch} {message : BrokerMessage}
    (h : Extracted config outerMessage done batch)
    (hfresh : message.brokerMeta ∉ done.map BrokerMessage.brokerMeta)
    (hextract : batch.extractMessage message = .ok batch') :
    Extracted config outerMessage (done ++ [message]) batch' := by
  have hnew : ∀ earlier ∈ done, earlier.brokerMeta ≠ message.brokerMeta :=
    fun earlier hearlier heq ↦ hfresh (List.mem_map.mpr ⟨earlier, hearlier, heq⟩)
  unfold IndexerBatch.extractMessage at hextract
  rw [h.config_eq] at hextract
  match hdisabled : namespaceDisabled config message with
  | .error e => simp [hdisabled] at hextract
  | .ok true =>
    have hfate : fate config message = .filtered := by simp [fate, hdisabled]
    simp only [hdisabled, Except.ok.injEq] at hextract
    subst hextract
    refine ⟨rfl, h.outerMessage_eq, fun k ↦ ?_, fun k ↦ ?_, fun k p ↦ ?_⟩
    · simp [h.filtered k, or_and_right, exists_or, hfate, eq_comm]
    · simp [h.invalid k, or_and_right, exists_or, hfate]
    · simp [h.parsed k p, or_and_right, exists_or, hfate]
  | .ok false =>
    cases hparse : parseMessage config message with
    | none =>
      have hfate : fate config message = .invalid := by simp [fate, hdisabled, hparse]
      simp only [hdisabled, hparse, Except.ok.injEq] at hextract
      subst hextract
      refine ⟨rfl, h.outerMessage_eq, fun k ↦ ?_, fun k ↦ ?_, fun k p ↦ ?_⟩
      · simp [h.filtered k, or_and_right, exists_or, hfate]
      · simp [h.invalid k, or_and_right, exists_or, hfate, eq_comm]
      · simp [h.parsed k p, or_and_right, exists_or, hfate]
    | some parsed =>
      have hfate : fate config message = .kept parsed := by simp [fate, hdisabled, hparse]
      simp only [hdisabled, hparse, Except.ok.injEq] at hextract
      subst hextract
      refine ⟨rfl, h.outerMessage_eq, fun k ↦ ?_, fun k ↦ ?_, fun k p ↦ ?_⟩
      · simp [h.filtered k, or_and_right, exists_or, hfate]
      · simp [h.invalid k, or_and_right, exists_or, hfate]
      · rw [getItem_setItem]
        by_cases hk : message.brokerMeta = k
        · subst hk
          simp only [if_true, Option.some.injEq, mem_append, mem_singleton,
            or_and_right, exists_or, exists_eq_left, hfate, Fate.kept.injEq, true_and]
          refine ⟨fun heq ↦ .inr heq, fun hor ↦ hor.resolve_left ?_⟩
          rintro ⟨earlier, hearlier, heq, -⟩
          exact hnew earlier hearlier heq
        · simp [h.parsed k p, or_and_right, exists_or, hk]

theorem Extracted.extractMessages {outerMessage : MessageBatch}
    {rest : List BrokerMessage} {done : List BrokerMessage} {batch batch' : IndexerBatch}
    (h : Extracted config outerMessage done batch)
    (hnodup : ((done ++ rest).map BrokerMessage.brokerMeta).Nodup)
    (hextract : IndexerBatch.extractMessages rest batch = .ok batch') :
    Extracted config outerMessage (done ++ rest) batch' := by
  induction rest generalizing done batch with
  | nil =>
    simp only [IndexerBatch.extractMessages, Except.ok.injEq] at hextract
    rw [append_nil, ← hextract]
    exact h
  | cons message rest ih =>
    have hfresh : message.brokerMeta ∉ done.map BrokerMessage.brokerMeta := by
      rw [map_append, nodup_append] at hnodup
      exact fun hmem ↦ hnodup.2.2 _ hmem _ (by simp) rfl
    unfold IndexerBatch.extractMessages at hextract
    cases hstep : batch.extractMessage message with
    | error e => simp [hstep] at hextract
    | ok next =>
      rw [hstep] at hextract
      have hnext := ih (h.extractMessage hfresh hstep) (by simpa using hnodup) hextract
      simpa using hnext

/-- After `__init__` every message of the batch is where its fate says. -/
theorem new_extracted {outerMessage : MessageBatch} {batch : IndexerBatch}
    (hnew : IndexerBatch.new config outerMessage = .ok batch) :
    Extracted config outerMessage outerMessage.messages batch := by
  have hempty : Extracted config outerMessage [] ⟨config, outerMessage, [], [], []⟩ :=
    ⟨rfl, rfl, by simp, by simp, by simp⟩
  have h := hempty.extractMessages (by simpa using outerMessage.nodup) hnew
  simpa using h

/-! ### The strings of a kept message -/

/-- Whether the string indexer returned an id or `None` for a string, and metadata for its
organisation. -/
def RecordResult.Records (result : RecordResult) (useCaseId : UseCaseID) (orgId : Json)
    (string : Str) : Prop :=
  (∃ id, result.lookup useCaseId orgId string = .ok id) ∧
    ∃ metas, lookupOrg result.bulkRecordMeta useCaseId orgId = .ok metas

/-- The id of a string of a message, `none` where it has none. -/
def RecordResult.idOf (result : RecordResult) (parsed : ParsedMessage) (string : Str) : Option ℤ :=
  match result.lookup parsed.useCaseId parsed.orgId string with
  | .ok id => id
  | .error _ => none

variable {parsed : ParsedMessage}

theorem RecordResult.Records.lookup_eq {result : RecordResult}
    {string : Str} (h : result.Records parsed.useCaseId parsed.orgId string) :
    result.lookup parsed.useCaseId parsed.orgId string = .ok (result.idOf parsed string) := by
  obtain ⟨⟨id, hid⟩, -⟩ := h
  simp [RecordResult.idOf, hid]

theorem mem_of_extractPayloadStrings {batch : IndexerBatch} {item : BrokerMeta × ParsedMessage}
    {strings strings' : List (UseCaseID × Json × Str)}
    (h : batch.extractPayloadStrings item strings = .ok strings') : (∀ x ∈ strings, x ∈ strings') ∧
      (item.1 ∉ batch.invalidMsgMeta → item.1 ∉ batch.filteredMsgMeta →
        ∀ string ∈ item.2.indexedStrings batch.config,
          (item.2.useCaseId, item.2.orgId, string) ∈ strings') := by
  unfold IndexerBatch.extractPayloadStrings at h
  by_cases hskip : item.1 ∈ batch.invalidMsgMeta ∨ item.1 ∈ batch.filteredMsgMeta
  · rw [if_pos hskip, Except.ok.injEq] at h
    subst h
    exact ⟨fun x hx ↦ hx, fun hinvalid hfiltered ↦ absurd hskip (by simp [hinvalid, hfiltered])⟩
  · rw [if_neg hskip] at h
    unfold stringsInMessage at h
    split_ifs at h with hvalues horg
    rw [Except.ok.injEq] at h
    subst h
    exact ⟨fun x hx ↦ mem_append_left _ hx, fun _ _ string hstring ↦
      mem_append_right _ (List.mem_map.mpr ⟨string, hstring, rfl⟩)⟩

theorem mem_of_extractStringsLoop {batch : IndexerBatch} {items : List (BrokerMeta × ParsedMessage)}
    {acc strings : List (UseCaseID × Json × Str)}
    (h : batch.extractStringsLoop items acc = .ok strings) : (∀ x ∈ acc, x ∈ strings) ∧
      ∀ item ∈ items, item.1 ∉ batch.invalidMsgMeta → item.1 ∉ batch.filteredMsgMeta →
        ∀ string ∈ item.2.indexedStrings batch.config,
          (item.2.useCaseId, item.2.orgId, string) ∈ strings := by
  induction items generalizing acc with
  | nil =>
    simp only [IndexerBatch.extractStringsLoop, Except.ok.injEq] at h
    subst h
    exact ⟨fun x hx ↦ hx, by simp⟩
  | cons item rest ih =>
    unfold IndexerBatch.extractStringsLoop at h
    cases hstep : batch.extractPayloadStrings item acc with
    | error e => simp [hstep] at h
    | ok acc' =>
      rw [hstep] at h
      obtain ⟨hkeep, hadd⟩ := mem_of_extractPayloadStrings hstep
      obtain ⟨hkeep', hadd'⟩ := ih h
      refine ⟨fun x hx ↦ hkeep' x (hkeep x hx), fun other hother hinvalid hfiltered s hs ↦ ?_⟩
      rcases mem_cons.mp hother with rfl | hother
      · exact hkeep' _ (hadd hinvalid hfiltered s hs)
      · exact hadd' other hother hinvalid hfiltered s hs

/-! ### One kept message -/

/-- A tag with its strings replaced by ids, `none` where one of them has no id. -/
def translateTag (config : IndexerConfig) (ids : Str → Option ℤ) : Str × Json → Option (ℤ × Json)
  | (k, .str v) =>
    match ids k with
    | none => none
    | some newK =>
      if config.shouldIndexTagValues then (ids v).map fun newV ↦ (newK, .int newV)
      else some (newK, .str v)
  | _ => none

def tagStrings : Str × Json → List Str
  | (k, .str v) => [k, v]
  | (k, _) => [k]

def TagsState.exceeded (state : TagsState) : ℕ :=
  state.exceededGlobalQuotas + state.exceededOrgQuotas

@[simp] theorem TagsState.exceeded_with (state : TagsState) (usedTags : List Str)
    (newTags : List (ℤ × Json)) :
    ({ state with usedTags := usedTags, newTags := newTags } : TagsState).exceeded =
      state.exceeded := rfl

def TagsState.addTag (config : IndexerConfig) (ids : Str → Option ℤ) (state : TagsState)
    (tag : Str × Json) : List Str × List (ℤ × Json) × ℕ :=
  match translateTag config ids tag with
  | none => (state.usedTags ++ tagStrings tag, state.newTags, state.exceeded + 1)
  | some entry =>
    (state.usedTags ++ tagStrings tag, setItem entry.1 entry.2 state.newTags, state.exceeded)

@[simp] theorem TagsState.usedTags_countExceeded (state : TagsState) (metadata : Option Metadata) :
    (state.countExceeded metadata).usedTags = state.usedTags := by
  unfold TagsState.countExceeded
  split <;> rfl

@[simp] theorem TagsState.newTags_countExceeded (state : TagsState) (metadata : Option Metadata) :
    (state.countExceeded metadata).newTags = state.newTags := by
  unfold TagsState.countExceeded
  split <;> rfl

@[simp] theorem TagsState.exceeded_countExceeded (state : TagsState) (metadata : Option Metadata) :
    (state.countExceeded metadata).exceeded = state.exceeded + 1 := by
  unfold TagsState.countExceeded TagsState.exceeded
  split <;> simp only [] <;> omega

def RecordsTag (config : IndexerConfig) (result : RecordResult) (parsed : ParsedMessage)
    (tag : Str × Json) : Prop :=
  result.Records parsed.useCaseId parsed.orgId tag.1 ∧
    ∀ v, config.shouldIndexTagValues → tag.2 = .str v →
      result.Records parsed.useCaseId parsed.orgId v

section

variable {config : IndexerConfig} {result : RecordResult}

theorem indexTag_ok {tag : Str × Json} (hrecords : RecordsTag config result parsed tag)
    {v : Str} (hstring : tag.2 = .str v) (state : TagsState) :
    ∃ state', indexTag config result parsed tag state = .ok state' ∧
      (state'.usedTags, state'.newTags, state'.exceeded) =
        state.addTag config (result.idOf parsed) tag := by
  obtain ⟨k, value⟩ := tag
  obtain rfl : value = .str v := hstring
  obtain ⟨hk, hv⟩ := hrecords
  obtain ⟨metas, hmetas⟩ := hk.2
  simp only [indexTag, hk.lookup_eq, exceededQuota, hmetas]
  cases hid : result.idOf parsed k with
  | none => simp [TagsState.addTag, translateTag, tagStrings, hid]
  | some newK =>
    by_cases hindex : config.shouldIndexTagValues
    · simp only [hindex, if_true, (hv v hindex rfl).lookup_eq]
      cases hidv : result.idOf parsed v with
      | none => simp [TagsState.addTag, translateTag, tagStrings, hid, hidv, hindex]
      | some newV =>
        simp [TagsState.addTag, translateTag, tagStrings, hid, hidv, hindex]
    · simp [TagsState.addTag, translateTag, tagStrings, hid, hindex]

theorem indexTag_error {tag : Str × Json} (hstring : ∀ v, tag.2 ≠ .str v) (state : TagsState) :
    indexTag config result parsed tag state = .error .typeError := by
  obtain ⟨k, value⟩ := tag
  cases value with
  | str v => exact absurd rfl (hstring v)
  | _ => rfl

theorem indexTags_ok {tags : List (Str × Json)}
    (hrecords : ∀ tag ∈ tags, RecordsTag config result parsed tag)
    (hstrings : ∀ tag ∈ tags, ∃ v, tag.2 = .str v) (state : TagsState) :
    ∃ state', indexTags config result parsed tags state = .ok state' ∧
      state'.usedTags = state.usedTags ++ tags.flatMap tagStrings ∧
      state'.newTags = (tags.filterMap (translateTag config (result.idOf parsed))).foldl
        (fun d entry ↦ setItem entry.1 entry.2 d) state.newTags ∧
      (state'.exceeded = 0 ↔ state.exceeded = 0 ∧
        ∀ tag ∈ tags, (translateTag config (result.idOf parsed) tag).isSome) := by
  induction tags generalizing state with
  | nil => exact ⟨state, rfl, by simp, rfl, by simp⟩
  | cons tag rest ih =>
    obtain ⟨v, hv⟩ := hstrings tag mem_cons_self
    obtain ⟨next, hnext, hgather⟩ := indexTag_ok (hrecords tag mem_cons_self) hv state
    obtain ⟨last, hlast, hused, hnew, hexceeded⟩ :=
      ih (fun t ht ↦ hrecords t (mem_cons_of_mem _ ht))
        (fun t ht ↦ hstrings t (mem_cons_of_mem _ ht)) next
    refine ⟨last, by simp [indexTags, hnext, hlast], ?_⟩
    unfold TagsState.addTag at hgather
    cases htag : translateTag config (result.idOf parsed) tag with
    | none =>
      simp only [htag, Prod.mk.injEq] at hgather
      obtain ⟨hused', hnew', hexceeded'⟩ := hgather
      refine ⟨?_, ?_, ?_⟩
      · rw [hused, hused', flatMap_cons, append_assoc]
      · rw [hnew, hnew', filterMap_cons_none htag]
      · simp [hexceeded, hexceeded', htag]
    | some entry =>
      simp only [htag, Prod.mk.injEq] at hgather
      obtain ⟨hused', hnew', hexceeded'⟩ := hgather
      refine ⟨?_, ?_, ?_⟩
      · rw [hused, hused', flatMap_cons, append_assoc]
      · rw [hnew, hnew', filterMap_cons_some htag, foldl_cons]
      · simp [hexceeded, hexceeded', htag]

theorem indexTags_error {tags : List (Str × Json)}
    (hrecords : ∀ tag ∈ tags, RecordsTag config result parsed tag)
    (hstrings : ∃ tag ∈ tags, ∀ v, tag.2 ≠ .str v) (state : TagsState) :
    indexTags config result parsed tags state = .error .typeError := by
  induction tags generalizing state with
  | nil => simp at hstrings
  | cons tag rest ih =>
    unfold indexTags
    by_cases htag : ∃ v, tag.2 = .str v
    · obtain ⟨v, hv⟩ := htag
      obtain ⟨next, hnext, -⟩ := indexTag_ok (hrecords tag mem_cons_self) hv state
      rw [hnext]
      refine ih (fun t ht ↦ hrecords t (mem_cons_of_mem _ ht)) ?_ next
      obtain ⟨other, hother, hno⟩ := hstrings
      rcases mem_cons.mp hother with rfl | hother
      · exact absurd hv (hno v)
      · exact ⟨other, hother, hno⟩
    · rw [indexTag_error (fun v hv ↦ htag ⟨v, hv⟩)]

end

/-- The metadata of the organisation of a message. -/
def RecordResult.metaOf (result : RecordResult) (parsed : ParsedMessage) : Str → Option Metadata :=
  match lookupOrg result.bulkRecordMeta parsed.useCaseId parsed.orgId with
  | .ok metas => metas
  | .error _ => fun _ ↦ none

def HasIds (config : IndexerConfig) (result : RecordResult) (parsed : ParsedMessage) : Prop :=
  ∀ string ∈ parsed.indexedStrings config, (result.idOf parsed string).isSome

def ParsedMessage.usedTags (parsed : ParsedMessage) : List Str :=
  parsed.name :: parsed.tags.flatMap tagStrings

def translation (config : IndexerConfig) (order : SetOrder) (result : RecordResult)
    (message : BrokerMessage) (parsed : ParsedMessage) : Except BatchError MetricPayload :=
  newPayloadValue config message parsed
    (dictOfItems (parsed.tags.filterMap (translateTag config (result.idOf parsed))))
    (outputMessageMeta order (result.metaOf parsed) parsed.usedTags)
    ((result.idOf parsed parsed.name).getD 0)

def HasPayloadFields (config : IndexerConfig) (parsed : ParsedMessage) : Prop :=
  (getItem parsed.fields "timestamp".toList).isSome ∧
    (getItem parsed.fields "project_id".toList).isSome ∧
      (config.shouldIndexTagValues → parsed.value.isNumberOrList)

theorem newPayloadValue_ok_iff {message : BrokerMessage}
    {newTags : List (ℤ × Json)} {mappingMeta : MappingMeta} {id : ℤ} :
    (∃ payload, newPayloadValue config message parsed newTags mappingMeta id = .ok payload) ↔
      HasPayloadFields config parsed := by
  unfold newPayloadValue HasPayloadFields
  by_cases hvalue : config.shouldIndexTagValues && !parsed.value.isNumberOrList
  · rw [if_pos hvalue]
    rw [Bool.and_eq_true, Bool.not_eq_true'] at hvalue
    refine iff_of_false (fun ⟨payload, h⟩ ↦ nomatch h) fun h ↦ ?_
    exact absurd (h.2.2 hvalue.1) (by simp [hvalue.2])
  · rw [if_neg hvalue]
    have hindexed : config.shouldIndexTagValues → parsed.value.isNumberOrList := by
      simpa using hvalue
    cases getItem parsed.fields "timestamp".toList with
    | none => exact iff_of_false (fun ⟨payload, h⟩ ↦ nomatch h) fun h ↦ nomatch h.1
    | some timestamp =>
      cases getItem parsed.fields "project_id".toList with
      | none => exact iff_of_false (fun ⟨payload, h⟩ ↦ nomatch h) fun h ↦ nomatch h.2.1
      | some projectId => exact iff_of_true ⟨_, rfl⟩ ⟨rfl, rfl, hindexed⟩

theorem recordsTag_of_mem {result : RecordResult}
    (hrecords : ∀ string ∈ parsed.indexedStrings config,
      result.Records parsed.useCaseId parsed.orgId string) :
    ∀ tag ∈ parsed.tags, RecordsTag config result parsed tag := by
  intro tag htag
  refine ⟨hrecords _ ?_, fun v hindex hv ↦ hrecords _ ?_⟩
  · exact mem_append_left _ (mem_cons_of_mem _ (mem_map_of_mem htag))
  · refine mem_append_right _ ?_
    rw [if_pos hindex]
    exact mem_filterMap.mpr ⟨tag, htag, by rw [hv]⟩

theorem hasIds_iff {result : RecordResult} (hstrings : ∀ tag ∈ parsed.tags, ∃ v, tag.2 = .str v) :
    HasIds config result parsed ↔ (result.idOf parsed parsed.name).isSome ∧
      ∀ tag ∈ parsed.tags, (translateTag config (result.idOf parsed) tag).isSome := by
  have htag : ∀ tag ∈ parsed.tags, (translateTag config (result.idOf parsed) tag).isSome ↔
      (result.idOf parsed tag.1).isSome ∧
        ∀ v, config.shouldIndexTagValues → tag.2 = .str v → (result.idOf parsed v).isSome := by
    rintro ⟨k, value⟩ hmem
    obtain ⟨v, rfl⟩ : ∃ v, value = .str v := hstrings _ hmem
    cases hk : result.idOf parsed k with
    | none => simp [translateTag, hk]
    | some newK =>
      by_cases hindex : config.shouldIndexTagValues
      all_goals simp [translateTag, hk, hindex]
  constructor
  · intro h
    refine ⟨h _ (by simp [ParsedMessage.indexedStrings]),
      fun tag hmem ↦ (htag tag hmem).mpr ⟨?_, ?_⟩⟩
    · exact h _ (mem_append_left _ (mem_cons_of_mem _ (mem_map_of_mem hmem)))
    · intro v hindex hv
      refine h _ (mem_append_right _ ?_)
      rw [if_pos hindex]
      exact mem_filterMap.mpr ⟨tag, hmem, by rw [hv]⟩
  · rintro ⟨hname, htags⟩ string hstring
    rcases mem_append.mp hstring with hstring | hstring
    · rcases mem_cons.mp hstring with rfl | hstring
      · exact hname
      · obtain ⟨tag, hmem, rfl⟩ := List.mem_map.mp hstring
        exact ((htag tag hmem).mp (htags tag hmem)).1
    · by_cases hindex : config.shouldIndexTagValues
      · rw [if_pos hindex] at hstring
        obtain ⟨tag, hmem, hv⟩ := mem_filterMap.mp hstring
        obtain ⟨v, htagv⟩ := hstrings tag hmem
        rw [htagv, Option.some.injEq] at hv
        subst hv
        exact ((htag tag hmem).mp (htags tag hmem)).2 v hindex htagv
      · simp [hindex] at hstring

section Message

variable {config : IndexerConfig} {order : SetOrder} {result : RecordResult}
  {message : BrokerMessage} {parsed : ParsedMessage}

section

variable
  (hrecords : ∀ string ∈ parsed.indexedStrings config, result.Records parsed.useCaseId parsed.orgId
    string)

include hrecords

theorem reconstructMessage_error (hstrings : ¬ ∀ tag ∈ parsed.tags, ∃ v, tag.2 = .str v) :
    reconstructMessage config order result message parsed = .error .typeError := by
  push Not at hstrings
  simp only [reconstructMessage, indexTags_error (recordsTag_of_mem hrecords) hstrings]

theorem reconstructMessage_none (hstrings : ∀ tag ∈ parsed.tags, ∃ v, tag.2 = .str v)
    (hids : ¬ HasIds config result parsed) :
    reconstructMessage config order result message parsed = .ok none := by
  obtain ⟨state, hstate, -, -, hexceeded⟩ := indexTags_ok (recordsTag_of_mem hrecords) hstrings
    ⟨[parsed.name], [], 0, 0⟩
  have hname := hrecords parsed.name (by simp [ParsedMessage.indexedStrings])
  obtain ⟨metas, hmetas⟩ := hname.2
  rw [hasIds_iff hstrings] at hids
  simp only [reconstructMessage, hstate]
  by_cases hquota : state.exceeded = 0
  · have hzero : ¬ (state.exceededOrgQuotas ≠ 0 ∨ state.exceededGlobalQuotas ≠ 0) := by
      unfold TagsState.exceeded at hquota
      omega
    have hnone : result.idOf parsed parsed.name = none := by
      rw [← not_isSome_iff_eq_none]
      exact fun hsome ↦ hids ⟨hsome, (hexceeded.mp hquota).2⟩
    simp only [if_neg hzero, hmetas, hname.lookup_eq, hnone]
  · have hsome : state.exceededOrgQuotas ≠ 0 ∨ state.exceededGlobalQuotas ≠ 0 := by
      unfold TagsState.exceeded at hquota
      omega
    rw [if_pos hsome]

theorem reconstructMessage_some (hstrings : ∀ tag ∈ parsed.tags, ∃ v, tag.2 = .str v)
    (hids : HasIds config result parsed) :
    reconstructMessage config order result message parsed =
      (translation config order result message parsed).map fun payload ↦
        some (message.replace (outputPayload config message parsed payload)) := by
  obtain ⟨state, hstate, hused, hnew, hexceeded⟩ := indexTags_ok (recordsTag_of_mem hrecords)
    hstrings ⟨[parsed.name], [], 0, 0⟩
  have hname := hrecords parsed.name (by simp [ParsedMessage.indexedStrings])
  obtain ⟨metas, hmetas⟩ := hname.2
  rw [hasIds_iff hstrings] at hids
  obtain ⟨id, hid⟩ := isSome_iff_exists.mp hids.1
  have hquota : state.exceeded = 0 := hexceeded.mpr ⟨rfl, hids.2⟩
  have hzero : ¬ (state.exceededOrgQuotas ≠ 0 ∨ state.exceededGlobalQuotas ≠ 0) := by
    unfold TagsState.exceeded at hquota
    omega
  have hmetaOf : result.metaOf parsed = metas := by simp [RecordResult.metaOf, hmetas]
  have husedTags : state.usedTags = parsed.usedTags := hused
  have hnewTags : state.newTags =
      dictOfItems (parsed.tags.filterMap (translateTag config (result.idOf parsed))) := hnew
  simp only [reconstructMessage, hstate, if_neg hzero, hmetas, hname.lookup_eq, hid, translation,
    hmetaOf, husedTags, hnewTags, getD_some]
  cases newPayloadValue config message parsed _ _ id with
  | error | ok => rfl

end

end Message

/-! ### The whole batch -/

/-- What may be emitted for a message, by its own fate and its own strings. -/
inductive Emitted (config : IndexerConfig) (keysToRemove : List BrokerMeta) (order : SetOrder)
    (result : RecordResult) (message : BrokerMessage) : List OutputMessage → Prop
  /-- A filtered message is left out. -/
  | filtered (h : fate config message = .filtered ∨ message.brokerMeta ∈ keysToRemove) :
      Emitted config keysToRemove order result message []
  /-- An invalid message leaves its partition and offset. -/
  | invalid (hkeep : message.brokerMeta ∉ keysToRemove) (h : fate config message = .invalid) :
      Emitted config keysToRemove order result message
        [message.replace (.invalidMessage message.brokerMeta.partition message.brokerMeta.offset)]
  /-- A message with a string that has no id is left out. -/
  | missingId (hkeep : message.brokerMeta ∉ keysToRemove) (parsed : ParsedMessage)
      (h : fate config message = .kept parsed) (hid : ¬ HasIds config result parsed) :
      Emitted config keysToRemove order result message []
  /-- Any other message is translated. -/
  | translated (hkeep : message.brokerMeta ∉ keysToRemove) (parsed : ParsedMessage)
      (h : fate config message = .kept parsed) (hids : HasIds config result parsed)
      (payload : MetricPayload)
      (hpayload : translation config order result message parsed = .ok payload) :
      Emitted config keysToRemove order result message
        [message.replace (outputPayload config message parsed payload)]

/-- An output that accounts for every message, in the order of the input. -/
def AccountedFor (config : IndexerConfig) (keysToRemove : List BrokerMeta) (order : SetOrder)
    (result : RecordResult) (messages : List BrokerMessage) (data : List OutputMessage) : Prop :=
  ∃ emissions, List.Forall₂ (Emitted config keysToRemove order result) messages emissions ∧
    data = emissions.flatten

/-- A message that does not end the batch: its tags have strings as values, and it has what the new
payload needs if it comes to that. -/
def Reconstructible (config : IndexerConfig) (result : RecordResult) (parsed : ParsedMessage) :
    Prop :=
  (∀ tag ∈ parsed.tags, ∃ v, tag.2 = .str v) ∧
    (HasIds config result parsed → HasPayloadFields config parsed)

section Batch

variable {config : IndexerConfig} {outerMessage : MessageBatch} {keysToRemove : List BrokerMeta}
  {result : RecordResult}

/-- The state of the loop before some messages: nothing of theirs has been popped. -/
structure Pending (config : IndexerConfig) (keysToRemove : List BrokerMeta)
    (rest : List BrokerMessage) (batch : IndexerBatch) : Prop where
  config_eq : batch.config = config
  filtered : ∀ message ∈ rest, message.brokerMeta ∈ batch.filteredMsgMeta ↔
    fate config message = .filtered ∨ message.brokerMeta ∈ keysToRemove
  invalid : ∀ message ∈ rest, message.brokerMeta ∈ batch.invalidMsgMeta ↔
    fate config message = .invalid
  parsed : ∀ message ∈ rest, ∀ parsed,
    getItem batch.parsedPayloadsByMeta message.brokerMeta = some parsed ↔
      fate config message = .kept parsed

theorem Extracted.eq_of_brokerMeta_eq {a b : BrokerMessage} (ha : a ∈ outerMessage.messages)
    (hb : b ∈ outerMessage.messages) (h : a.brokerMeta = b.brokerMeta) : a = b :=
  inj_on_of_nodup_map outerMessage.nodup ha hb h

variable {batch : IndexerBatch}

theorem Extracted.pending (h : Extracted config outerMessage outerMessage.messages batch)
    (keysToRemove : List BrokerMeta) :
    Pending config keysToRemove outerMessage.messages (batch.filterMessages keysToRemove) := by
  have hsame : ∀ {other message : BrokerMessage}, other ∈ outerMessage.messages →
      message ∈ outerMessage.messages → other.brokerMeta = message.brokerMeta → other = message :=
    fun ho hm heq ↦ Extracted.eq_of_brokerMeta_eq ho hm heq
  refine ⟨h.config_eq, fun message hm ↦ ?_, fun message hm ↦ ?_, fun message hm parsed ↦ ?_⟩
  · rw [IndexerBatch.filterMessages, mem_append, h.filtered]
    refine or_congr_left ⟨?_, fun hfate ↦ ⟨message, hm, rfl, hfate⟩⟩
    rintro ⟨other, ho, heq, hfate⟩
    exact hsame ho hm heq ▸ hfate
  · rw [IndexerBatch.filterMessages, h.invalid]
    refine ⟨?_, fun hfate ↦ ⟨message, hm, rfl, hfate⟩⟩
    rintro ⟨other, ho, heq, hfate⟩
    exact hsame ho hm heq ▸ hfate
  · rw [IndexerBatch.filterMessages, h.parsed]
    refine ⟨?_, fun hfate ↦ ⟨message, hm, rfl, hfate⟩⟩
    rintro ⟨other, ho, heq, hfate⟩
    exact hsame ho hm heq ▸ hfate

def RecordsKept (config : IndexerConfig) (keysToRemove : List BrokerMeta) (result : RecordResult)
    (message : BrokerMessage) : Prop :=
  message.brokerMeta ∉ keysToRemove → ∀ parsed, fate config message = .kept parsed →
    ∀ string ∈ parsed.indexedStrings config, result.Records parsed.useCaseId parsed.orgId string

def ReconstructibleKept (config : IndexerConfig) (keysToRemove : List BrokerMeta)
    (result : RecordResult) (message : BrokerMessage) : Prop :=
  message.brokerMeta ∉ keysToRemove → ∀ parsed, fate config message = .kept parsed →
    Reconstructible config result parsed

variable {rest : List BrokerMessage} {message : BrokerMessage}

theorem Pending.tail (h : Pending config keysToRemove (message :: rest) batch) :
    Pending config keysToRemove rest batch :=
  ⟨h.config_eq, fun m hm ↦ h.filtered m (mem_cons_of_mem _ hm),
    fun m hm ↦ h.invalid m (mem_cons_of_mem _ hm),
    fun m hm ↦ h.parsed m (mem_cons_of_mem _ hm)⟩

theorem Pending.delItem (h : Pending config keysToRemove (message :: rest) batch)
    (hfresh : message.brokerMeta ∉ rest.map BrokerMessage.brokerMeta) :
    Pending config keysToRemove rest { batch with
      parsedPayloadsByMeta := delItem message.brokerMeta batch.parsedPayloadsByMeta } := by
  refine ⟨h.config_eq, h.tail.filtered, h.tail.invalid, fun m hm parsed ↦ ?_⟩
  have hne : m.brokerMeta ≠ message.brokerMeta :=
    fun heq ↦ hfresh (List.mem_map.mpr ⟨m, hm, heq⟩)
  rw [getItem_delItem_of_ne hne]
  exact h.tail.parsed m hm parsed

theorem reconstructStep_ok (order : SetOrder)
    (h : Pending config keysToRemove (message :: rest) batch)
    (hfresh : message.brokerMeta ∉ rest.map BrokerMessage.brokerMeta)
    (hrecords : RecordsKept config keysToRemove result message)
    (hgood : ReconstructibleKept config keysToRemove result message)
    (output : IndexerOutputMessageBatch) :
    ∃ batch' output' emission,
      IndexerBatch.reconstructStep order result message (batch, output) = .ok (batch', output') ∧
      Pending config keysToRemove rest batch' ∧
      Emitted config keysToRemove order result message emission ∧
      output'.data = output.data ++ emission := by
  have hfiltered := h.filtered message mem_cons_self
  have hinvalid := h.invalid message mem_cons_self
  have hparsed := h.parsed message mem_cons_self
  unfold IndexerBatch.reconstructStep
  by_cases hmem : message.brokerMeta ∈ batch.filteredMsgMeta
  · exact ⟨batch, output, [], by simp only [if_pos hmem], h.tail, .filtered (hfiltered.mp hmem),
      (append_nil _).symm⟩
  have hnot := mt hfiltered.mpr hmem
  push Not at hnot
  obtain ⟨hfate, hkeep⟩ := hnot
  by_cases hbad : message.brokerMeta ∈ batch.invalidMsgMeta
  · simp only [if_neg hmem, if_pos hbad]
    exact ⟨batch, _, _, rfl, h.tail, .invalid hkeep (hinvalid.mp hbad), rfl⟩
  obtain ⟨parsed, hkept⟩ : ∃ parsed, fate config message = .kept parsed := by
    cases hcase : fate config message with
    | filtered => exact absurd hcase hfate
    | invalid => exact absurd (hinvalid.mpr hcase) hbad
    | kept parsed => exact ⟨parsed, rfl⟩
  obtain ⟨hstrings, hfields⟩ := hgood hkeep parsed hkept
  simp only [if_neg hmem, if_neg hbad, (hparsed parsed).mpr hkept, h.config_eq]
  by_cases hids : HasIds config result parsed
  · obtain ⟨payload, hpayload⟩ : ∃ payload,
        translation config order result message parsed = .ok payload :=
      newPayloadValue_ok_iff.mpr (hfields hids)
    rw [reconstructMessage_some (hrecords hkeep parsed hkept) hstrings hids, hpayload]
    exact ⟨_, _, _, rfl, h.config_eq ▸ h.delItem hfresh,
      .translated hkeep parsed hkept hids payload hpayload, rfl⟩
  · rw [reconstructMessage_none (hrecords hkeep parsed hkept) hstrings hids]
    exact ⟨_, _, _, rfl, h.config_eq ▸ h.delItem hfresh, .missingId hkeep parsed hkept hids, rfl⟩

theorem reconstructStep_error (order : SetOrder)
    (h : Pending config keysToRemove (message :: rest) batch)
    (hrecords : RecordsKept config keysToRemove result message)
    (hbad : ¬ ReconstructibleKept config keysToRemove result message)
    (output : IndexerOutputMessageBatch) :
    ∃ e, IndexerBatch.reconstructStep order result message (batch, output) = .error e := by
  unfold ReconstructibleKept at hbad
  push Not at hbad
  obtain ⟨hkeep, parsed, hkept, hbad⟩ := hbad
  have hfiltered : message.brokerMeta ∉ batch.filteredMsgMeta := by
    rw [h.filtered message mem_cons_self]
    simp [hkept, hkeep]
  have hinvalid : message.brokerMeta ∉ batch.invalidMsgMeta := by
    rw [h.invalid message mem_cons_self]
    simp [hkept]
  simp only [IndexerBatch.reconstructStep, if_neg hfiltered, if_neg hinvalid,
    (h.parsed message mem_cons_self parsed).mpr hkept, h.config_eq]
  by_cases hstrings : ∀ tag ∈ parsed.tags, ∃ v, tag.2 = .str v
  · obtain ⟨hids, hfields⟩ : HasIds config result parsed ∧ ¬ HasPayloadFields config parsed := by
      unfold Reconstructible at hbad
      push Not at hbad
      exact hbad hstrings
    rw [reconstructMessage_some (hrecords hkeep parsed hkept) hstrings hids]
    cases hpayload : translation config order result message parsed with
    | error e => exact ⟨e, rfl⟩
    | ok payload => exact absurd (newPayloadValue_ok_iff.mp ⟨payload, hpayload⟩) hfields
  · rw [reconstructMessage_error (hrecords hkeep parsed hkept) hstrings]
    exact ⟨_, rfl⟩

section

variable (order : SetOrder) (h : Pending config keysToRemove rest batch)
  (hnodup : (rest.map BrokerMessage.brokerMeta).Nodup)
  (hrecords : ∀ message ∈ rest, RecordsKept config keysToRemove result message)

include order h hnodup hrecords

theorem reconstructLoop_ok
    (hgood : ∀ message ∈ rest, ReconstructibleKept config keysToRemove result message)
    (output : IndexerOutputMessageBatch) :
    ∃ batch' output' data,
      IndexerBatch.reconstructLoop order result rest (batch, output) = .ok (batch', output') ∧
      output'.data = output.data ++ data ∧
      AccountedFor config keysToRemove order result rest data := by
  induction rest generalizing batch output with
  | nil => exact ⟨batch, output, [], rfl, (append_nil _).symm, [], .nil, rfl⟩
  | cons message rest ih =>
    obtain ⟨hfresh, hrest⟩ := nodup_cons.mp hnodup
    obtain ⟨next, output₁, emission, hstep, hnext, hemitted, hdata⟩ :=
      reconstructStep_ok order h hfresh (hrecords message mem_cons_self)
        (hgood message mem_cons_self) output
    obtain ⟨batch', output', data, hloop, hout, emissions, hall, rfl⟩ :=
      ih hnext hrest (fun m hm ↦ hrecords m (mem_cons_of_mem _ hm))
        (fun m hm ↦ hgood m (mem_cons_of_mem _ hm)) output₁
    refine ⟨batch', output', emission ++ emissions.flatten, ?_, ?_, emission :: emissions,
      .cons hemitted hall, rfl⟩
    · simp only [IndexerBatch.reconstructLoop, hstep, hloop]
    · rw [hout, hdata, append_assoc]

theorem reconstructLoop_error
    (hbad : ¬ ∀ message ∈ rest, ReconstructibleKept config keysToRemove result message)
    (output : IndexerOutputMessageBatch) :
    ∃ e, IndexerBatch.reconstructLoop order result rest (batch, output) = .error e := by
  induction rest generalizing batch output with
  | nil => simp at hbad
  | cons message rest ih =>
    obtain ⟨hfresh, hrest⟩ := nodup_cons.mp hnodup
    unfold IndexerBatch.reconstructLoop
    by_cases hgood : ReconstructibleKept config keysToRemove result message
    · obtain ⟨next, output₁, emission, hstep, hnext, -⟩ :=
        reconstructStep_ok order h hfresh (hrecords message mem_cons_self) hgood
          output
      rw [forall_mem_cons, not_and] at hbad
      obtain ⟨e, he⟩ := ih hnext hrest (fun m hm ↦ hrecords m (mem_cons_of_mem _ hm))
        (hbad hgood) output₁
      exact ⟨e, by simp only [hstep, he]⟩
    · obtain ⟨e, he⟩ := reconstructStep_error order h
        (hrecords message mem_cons_self) hgood output
      exact ⟨e, by simp only [he]⟩

end

variable {strings : List (UseCaseID × Json × Str)}

theorem recordsKept_of_extractStrings
    (hpending : Pending config keysToRemove outerMessage.messages batch)
    (hstrings : batch.extractStrings = .ok strings)
    (hresult : ∀ entry ∈ strings, result.Records entry.1 entry.2.1 entry.2.2) :
    ∀ message ∈ outerMessage.messages, RecordsKept config keysToRemove result message := by
  intro message hmem hkeep parsed hkept string hstring
  have hitem : (message.brokerMeta, parsed) ∈ batch.parsedPayloadsByMeta :=
    mem_of_getItem ((hpending.parsed message hmem parsed).mpr hkept)
  have hfiltered : message.brokerMeta ∉ batch.filteredMsgMeta := by
    rw [hpending.filtered message hmem]
    simp [hkept, hkeep]
  have hinvalid : message.brokerMeta ∉ batch.invalidMsgMeta := by
    rw [hpending.invalid message hmem]
    simp [hkept]
  refine hresult _ ((mem_of_extractStringsLoop hstrings).2 _ hitem hinvalid hfiltered string ?_)
  rw [hpending.config_eq]
  exact hstring

/-- When no kept message ends the batch, `reconstruct_messages` returns and accounts for every
message. -/
theorem accountedFor_of_reconstructible (order : SetOrder)
    (hnew : IndexerBatch.new config outerMessage = .ok batch)
    (hstrings : (batch.filterMessages keysToRemove).extractStrings = .ok strings)
    (hresult : ∀ entry ∈ strings, result.Records entry.1 entry.2.1 entry.2.2)
    (hgood : ∀ message ∈ outerMessage.messages,
      ReconstructibleKept config keysToRemove result message) :
    ∃ output, (batch.filterMessages keysToRemove).reconstructMessages order result = .ok output ∧
      AccountedFor config keysToRemove order result outerMessage.messages output.data := by
  have hextracted := new_extracted hnew
  have hpending := hextracted.pending keysToRemove
  have houter : (batch.filterMessages keysToRemove).outerMessage = outerMessage :=
    hextracted.outerMessage_eq
  obtain ⟨batch', output, data, hloop, hdata, hall⟩ := reconstructLoop_ok order hpending
    outerMessage.nodup (recordsKept_of_extractStrings hpending hstrings hresult) hgood ⟨[], []⟩
  refine ⟨output, ?_, ?_⟩
  · rw [IndexerBatch.reconstructMessages, houter, hloop]
    rfl
  · rw [hdata, nil_append]
    exact hall

/-- When `reconstruct_messages` returns, no kept message ends the batch. -/
theorem reconstructible_of_ok {order : SetOrder} {output : IndexerOutputMessageBatch}
    (hnew : IndexerBatch.new config outerMessage = .ok batch)
    (hstrings : (batch.filterMessages keysToRemove).extractStrings = .ok strings)
    (hresult : ∀ entry ∈ strings, result.Records entry.1 entry.2.1 entry.2.2)
    (hok : (batch.filterMessages keysToRemove).reconstructMessages order result = .ok output) :
    ∀ message ∈ outerMessage.messages, ReconstructibleKept config keysToRemove result message := by
  have hextracted := new_extracted hnew
  have hpending := hextracted.pending keysToRemove
  have houter : (batch.filterMessages keysToRemove).outerMessage = outerMessage :=
    hextracted.outerMessage_eq
  by_contra hbad
  obtain ⟨e, he⟩ := reconstructLoop_error order hpending outerMessage.nodup
    (recordsKept_of_extractStrings hpending hstrings hresult) hbad ⟨[], []⟩
  rw [IndexerBatch.reconstructMessages, houter, he] at hok
  exact nomatch hok

/-- With a result that records every extracted string, `reconstruct_messages` returns and accounts
for every message exactly when no kept message ends the batch. -/
theorem accountedFor_iff_reconstructible {order : SetOrder} {batch : IndexerBatch}
    {strings : List (UseCaseID × Json × Str)}
    (hnew : IndexerBatch.new config outerMessage = .ok batch)
    (hstrings : (batch.filterMessages keysToRemove).extractStrings = .ok strings)
    (hresult : ∀ entry ∈ strings, result.Records entry.1 entry.2.1 entry.2.2) :
    (∃ output, (batch.filterMessages keysToRemove).reconstructMessages order result = .ok output ∧
      AccountedFor config keysToRemove order result outerMessage.messages output.data) ↔
        ∀ message ∈ outerMessage.messages, message.brokerMeta ∉ keysToRemove →
          ∀ parsed, fate config message = .kept parsed → Reconstructible config result parsed := by
  constructor
  · rintro ⟨output, hok, -⟩
    exact reconstructible_of_ok hnew hstrings hresult hok
  · exact accountedFor_of_reconstructible order hnew hstrings hresult

end Batch

/-! ### A gauge in a batch of release health -/

/-- Release health: tag values are indexed, and a schema error is only logged. -/
def releaseHealth : IndexerConfig where
  shouldIndexTagValues := true
  isOutputSliced := false
  maxTagKeyLength := 200
  maxTagValueLength := 200
  raiseValidationErrors := false
  disabledNamespaces := ["profiles".toList]
  dropPercentilesPerUseCase := []
  tenSecondGranularity := false
  schemaValidator _ _ := .validationError

/-- The elements of a set in the order of their last occurrence. -/
def dedupOrder : SetOrder where
  iterate := List.dedup
  mem_iterate _ _ := mem_dedup
  nodup_iterate := nodup_dedup

/-- A result with the same metadata for every organisation. -/
def RecordResult.ofMeta (metas : Str → Option Metadata) : RecordResult where
  mapping _ := some fun _ ↦ some fun string ↦ (metas string).map Metadata.id
  bulkRecordMeta _ := some fun _ ↦ some metas

theorem records_ofMeta {metas : Str → Option Metadata} (useCaseId : UseCaseID) {orgId : Json}
    (horg : orgId.hashable) {string : Str} (hstring : (metas string).isSome) :
    (RecordResult.ofMeta metas).Records useCaseId orgId string := by
  obtain ⟨metadata, hmeta⟩ := isSome_iff_exists.mp hstring
  refine ⟨⟨metadata.id, ?_⟩, metas, ?_⟩
  · simp [RecordResult.lookup, lookupOrg, RecordResult.ofMeta, horg, hmeta]
  · simp [lookupOrg, RecordResult.ofMeta, horg]

/-- Every string has its length as its id. -/
def lengthMeta (string : Str) : Option Metadata := some ⟨some string.length, .dbRead, none⟩

def sessionMessage (offset : ℕ) (ns type : Str) (value : Json) : BrokerMessage where
  brokerMeta := ⟨0, offset⟩
  timestamp := 0
  key := none
  headers := [("namespace".toList, some ns)]
  value := some (.obj [("name".toList, .str "c:sessions/session@none".toList),
    ("type".toList, .str type), ("value".toList, value), ("org_id".toList, .int 1),
    ("timestamp".toList, .int 5), ("project_id".toList, .int 3)])

/-- A counter, a message that is filtered, and one that is no JSON. -/
def mixedBatch : MessageBatch where
  messages := [sessionMessage 0 "sessions".toList ['c'] (.int 1),
    sessionMessage 1 "profiles".toList ['c'] (.int 1),
    { sessionMessage 2 "sessions".toList ['c'] (.int 1) with value := none }]
  nodup := by decide

/-- A counter is translated beside a filtered and an invalid message. -/
theorem mixedBatch_accountedFor :
    ∃ batch, IndexerBatch.new releaseHealth mixedBatch = .ok batch ∧
      ∃ output, (batch.filterMessages []).reconstructMessages dedupOrder (.ofMeta lengthMeta) =
        .ok output ∧
        AccountedFor releaseHealth [] dedupOrder
          (.ofMeta lengthMeta) mixedBatch.messages output.data := by
  refine ⟨_, rfl, ?_⟩
  refine (accountedFor_iff_reconstructible (rfl : IndexerBatch.new _ mixedBatch = _) rfl
    fun entry hentry ↦ records_ofMeta _ ?_ rfl).mpr fun message hmessage _ parsed hkept ↦ ?_
  · revert entry
    decide
  · rcases mem_cons.mp hmessage with rfl | hmessage
    · obtain rfl := Fate.kept.inj (show Fate.kept _ = _ from hkept)
      exact ⟨by simp, fun _ ↦ ⟨rfl, rfl, fun _ ↦ rfl⟩⟩
    · rcases mem_cons.mp hmessage with rfl | hmessage
      · exact Fate.noConfusion (show Fate.filtered = _ from hkept)
      · obtain rfl := mem_singleton.mp hmessage
        exact Fate.noConfusion (show Fate.invalid = _ from hkept)

/-- A counter, and a gauge beside it. -/
def gaugeBatch : MessageBatch where
  messages := [sessionMessage 0 "sessions".toList ['c'] (.int 1),
    sessionMessage 1 "sessions".toList ['g'] (.obj [])]
  nodup := by decide

/-- The assertion on the value of the gauge ends the batch, the counter with it. -/
theorem gaugeBatch_assertionError :
    ∃ batch strings, IndexerBatch.new releaseHealth gaugeBatch = .ok batch ∧
      (batch.filterMessages []).extractStrings = .ok strings ∧
      (∀ entry ∈ strings, (RecordResult.ofMeta lengthMeta).Records entry.1 entry.2.1 entry.2.2) ∧
      (batch.filterMessages []).reconstructMessages dedupOrder (.ofMeta lengthMeta) =
        .error .assertionError := by
  refine ⟨_, _, rfl, rfl, fun entry hentry ↦ records_ofMeta _ ?_ rfl, rfl⟩
  revert entry
  decide

end Sentry.SentryMetrics
