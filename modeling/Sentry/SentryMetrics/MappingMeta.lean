import Sentry.SentryMetrics.BatchAccounting

/-!
# A translated message carries its own dictionary

`mapping_meta` holds, under the fetch type and the text of an id, the string that has the id
(`entry_foldl_enterMeta`), so that with distinct ids each id of the message leads back to its
string. The strings include values that are not indexed, one of which may be known to the result
from another message. When it was denied an id, the text `None` becomes a key
(`invertible_iff_no_unindexed_denied`).
-/

namespace Sentry.SentryMetrics

open Library List Option

/-! ### The entries of `mapping_meta` -/

/-- `mapping_meta[fetch_type].get(id)`. -/
def MappingMeta.entry (mappingMeta : MappingMeta) (fetchType : FetchType) (id : Option ℤ) :
    Option Str :=
  getItem ((getItem mappingMeta fetchType).getD []) id

/-- Every key is an integer: `None` is none. -/
def MappingMeta.IntegerKeys (mappingMeta : MappingMeta) : Prop :=
  ∀ fetchType, mappingMeta.entry fetchType none = none

def MappingMeta.MapsTo (mappingMeta : MappingMeta) (id : ℤ) (string : Str) : Prop :=
  (∃ fetchType, mappingMeta.entry fetchType (some id) = some string) ∧
    ∀ fetchType other, mappingMeta.entry fetchType (some id) = some other → other = string

theorem entry_enterMeta (metas : Str → Option Metadata) (mappingMeta : MappingMeta) (string : Str)
    (fetchType : FetchType) (id : Option ℤ) :
    (enterMeta metas mappingMeta string).entry fetchType id =
      if ∃ metadata, metas string = some metadata ∧ metadata.fetchType = fetchType ∧
        metadata.id = id then some string else mappingMeta.entry fetchType id := by
  unfold enterMeta MappingMeta.entry
  cases hmeta : metas string with
  | none => simp
  | some metadata =>
    by_cases htype : metadata.fetchType = fetchType
    · subst htype
      simp [getItem_setItem]
    · simp [getItem_setItem, htype]

variable {string : Str} {strings : List Str} {metas : Str → Option Metadata}

theorem mem_of_entry_foldl {mappingMeta : MappingMeta} {fetchType : FetchType} {id : Option ℤ}
    (h : MappingMeta.entry (strings.foldl (enterMeta metas) mappingMeta) fetchType id =
      some string) :
    (string ∈ strings ∧ ∃ metadata, metas string = some metadata ∧ metadata.fetchType = fetchType ∧
      metadata.id = id) ∨ mappingMeta.entry fetchType id = some string := by
  induction strings generalizing mappingMeta with
  | nil => exact .inr h
  | cons first rest ih =>
    rcases ih h with ⟨hmem, hmeta⟩ | hentry
    · exact .inl ⟨mem_cons_of_mem _ hmem, hmeta⟩
    · rw [entry_enterMeta] at hentry
      split_ifs at hentry with hmeta
      · rw [Option.some.injEq] at hentry
        subst hentry
        exact .inl ⟨mem_cons_self, hmeta⟩
      · exact .inr hentry

theorem isSome_entry_foldl {mappingMeta : MappingMeta}
    {fetchType : FetchType} {id : Option ℤ} (h : (mappingMeta.entry fetchType id).isSome) :
    (MappingMeta.entry (strings.foldl (enterMeta metas) mappingMeta) fetchType id).isSome := by
  induction strings generalizing mappingMeta with
  | nil => exact h
  | cons first rest ih =>
    refine ih ?_
    rw [entry_enterMeta]
    split_ifs
    · rfl
    · exact h

variable {metadata : Metadata}

theorem isSome_entry_of_mem (hmem : string ∈ strings)
    (hmeta : metas string = some metadata) (mappingMeta : MappingMeta) :
    (MappingMeta.entry (strings.foldl (enterMeta metas) mappingMeta) metadata.fetchType
      metadata.id).isSome := by
  induction strings generalizing mappingMeta with
  | nil => simp at hmem
  | cons first rest ih =>
    rcases mem_cons.mp hmem with rfl | hmem
    · rw [foldl_cons]
      apply isSome_entry_foldl
      rw [entry_enterMeta, if_pos ⟨metadata, hmeta, rfl, rfl⟩]
      rfl
    · exact ih hmem _

section OutputMessageMeta

variable {order : SetOrder} {metas : Str → Option Metadata} {usedTags : List Str}

theorem mem_of_entry_outputMessageMeta {fetchType : FetchType} {id : Option ℤ} {string : Str}
    (h : (outputMessageMeta order metas usedTags).entry fetchType id = some string) :
    string ∈ usedTags ∧ ∃ metadata, metas string = some metadata ∧
      metadata.fetchType = fetchType ∧ metadata.id = id := by
  rcases mem_of_entry_foldl h with ⟨hmem, hmeta⟩ | hentry
  · exact ⟨(order.mem_iterate _ _).mp hmem, hmeta⟩
  · simp [MappingMeta.entry] at hentry

theorem isSome_entry_outputMessageMeta (order : SetOrder) {string : Str} (hmem : string ∈ usedTags)
    {metadata : Metadata} (hmeta : metas string = some metadata) :
    ((outputMessageMeta order metas usedTags).entry metadata.fetchType metadata.id).isSome :=
  isSome_entry_of_mem ((order.mem_iterate _ _).mpr hmem) hmeta []

theorem integerKeys_iff : (outputMessageMeta order metas usedTags).IntegerKeys ↔
      ∀ string ∈ usedTags, ∀ metadata, metas string = some metadata → metadata.id.isSome := by
  constructor
  · intro h string hmem metadata hmeta
    by_contra hid
    have hentry := isSome_entry_outputMessageMeta order hmem hmeta
    rw [not_isSome_iff_eq_none.mp hid, h metadata.fetchType] at hentry
    exact nomatch hentry
  · intro h fetchType
    cases hentry : (outputMessageMeta order metas usedTags).entry fetchType none with
    | none => rfl
    | some string =>
      obtain ⟨hmem, metadata, hmeta, -, hid⟩ := mem_of_entry_outputMessageMeta hentry
      have hsome := h string hmem metadata hmeta
      rw [hid] at hsome
      exact nomatch hsome

theorem mapsTo_outputMessageMeta {string : Str} (hmem : string ∈ usedTags) {id : ℤ}
    {metadata : Metadata} (hmeta : metas string = some metadata) (hid : metadata.id = some id)
    (hinjective : ∀ other metadata', metas other = some metadata' → metadata'.id = some id →
      other = string) :
    (outputMessageMeta order metas usedTags).MapsTo id string := by
  have honly : ∀ fetchType other,
      (outputMessageMeta order metas usedTags).entry fetchType (some id) = some other →
        other = string := by
    intro fetchType other hentry
    obtain ⟨-, metadata', hmeta', -, hid'⟩ := mem_of_entry_outputMessageMeta hentry
    exact hinjective other metadata' hmeta' hid'
  have hentry := isSome_entry_outputMessageMeta order hmem hmeta
  rw [hid] at hentry
  obtain ⟨other, hother⟩ := isSome_iff_exists.mp hentry
  exact ⟨⟨metadata.fetchType, honly _ other hother ▸ hother⟩, honly⟩

end OutputMessageMeta

/-! ### The strings a message uses -/

variable {parsed : ParsedMessage}

theorem mem_usedTags (hstrings : ∀ tag ∈ parsed.tags, ∃ v, tag.2 = .str v)
    : string ∈ parsed.usedTags ↔
      string = parsed.name ∨ string ∈ parsed.tags.map Prod.fst ∨ string ∈ parsed.tagValues := by
  have htag : ∀ tag ∈ parsed.tags, ∀ s, s ∈ tagStrings tag ↔ s = tag.1 ∨ tag.2 = .str s := by
    rintro ⟨k, value⟩ htag s
    obtain ⟨v, rfl⟩ : ∃ v, value = .str v := hstrings _ htag
    simp [tagStrings, eq_comm]
  unfold ParsedMessage.usedTags ParsedMessage.tagValues
  rw [mem_cons, mem_flatMap, List.mem_map, mem_filterMap, ← exists_or]
  refine or_congr_right (exists_congr fun tag ↦ ?_)
  rw [← and_or_left]
  refine and_congr_right fun hmem ↦ ?_
  rw [htag tag hmem]
  obtain ⟨v, hv⟩ := hstrings tag hmem
  simp [hv, eq_comm]

theorem nodup_tags_of_parseMessage {config : IndexerConfig} {message : BrokerMessage}
    (h : parseMessage config message = some parsed) : (parsed.tags.map Prod.fst).Nodup := by
  have htags : ∀ {fields tags}, payloadTags fields = some tags → (tags.map Prod.fst).Nodup := by
    intro fields tags hpayload
    unfold payloadTags at hpayload
    split at hpayload
    · rw [Option.some.injEq] at hpayload
      subst hpayload
      exact nodup_nil
    · rw [Option.some.injEq] at hpayload
      subst hpayload
      exact nodup_keys_dictOfItems _
    · exact nomatch hpayload
  unfold parseMessage at h
  split at h
  · extract_lets fields at h
    split at h
    · split at h
      · next useCaseId type value tags orgId _ _ _ hpayload _ =>
        split at h
        · split_ifs at h with hvalid
          rw [Option.some.injEq] at h
          subst h
          exact htags hpayload
        · exact nomatch h
      · exact nomatch h
    · exact nomatch h
  · exact nomatch h

/-! ### Reading a message back -/

/-- A result of the string indexer whose ids and metadata agree, with an id of its own for every
string of an organisation. -/
structure RecordResult.Consistent (result : RecordResult) : Prop where
  injective : ∀ useCaseId orgId string other id,
    result.lookup useCaseId orgId string = .ok (some id) →
      result.lookup useCaseId orgId other = .ok (some id) → other = string
  meta_of_lookup : ∀ useCaseId orgId metas string id,
    lookupOrg result.bulkRecordMeta useCaseId orgId = .ok metas →
      result.lookup useCaseId orgId string = .ok id → ∃ metadata, metas string = some metadata
  lookup_of_meta : ∀ useCaseId orgId metas string metadata,
    lookupOrg result.bulkRecordMeta useCaseId orgId = .ok metas → metas string = some metadata →
      result.lookup useCaseId orgId string = .ok metadata.id

/-- The name and the tags of a message can be read back from the payload alone. -/
structure Invertible (config : IndexerConfig) (parsed : ParsedMessage) (payload : MetricPayload) :
    Prop where
  integerKeys : payload.mappingMeta.IntegerKeys
  metricId : payload.mappingMeta.MapsTo payload.metricId parsed.name
  tags : List.Forall₂ (fun (new : ℤ × Json) (old : Str × Json) ↦
    payload.mappingMeta.MapsTo new.1 old.1 ∧
      if config.shouldIndexTagValues then
        ∃ id v, new.2 = .int id ∧ old.2 = .str v ∧ payload.mappingMeta.MapsTo id v
      else new.2 = old.2) payload.tags parsed.tags

section Translation

variable {config : IndexerConfig} {order : SetOrder} {result : RecordResult}
  {message : BrokerMessage} {parsed : ParsedMessage} {payload : MetricPayload}

theorem newPayloadValue_fields {newTags : List (ℤ × Json)} {mappingMeta : MappingMeta} {id : ℤ}
    (h : newPayloadValue config message parsed newTags mappingMeta id = .ok payload) :
    payload.tags = newTags ∧ payload.mappingMeta = mappingMeta ∧ payload.metricId = id := by
  unfold newPayloadValue at h
  split at h
  · cases h
  · split at h
    · rw [Except.ok.injEq] at h
      subst h
      exact ⟨rfl, rfl, rfl⟩
    · cases h

theorem lookupOrg_eq_metaOf {string : Str}
    (hrecords : result.Records parsed.useCaseId parsed.orgId string) :
    lookupOrg result.bulkRecordMeta parsed.useCaseId parsed.orgId = .ok (result.metaOf parsed) := by
  obtain ⟨metas, hmetas⟩ := hrecords.2
  rw [RecordResult.metaOf, hmetas]

theorem mapsTo_of_idOf (hconsistent : result.Consistent) {string : Str}
    (hrecords : result.Records parsed.useCaseId parsed.orgId string)
    (hmem : string ∈ parsed.usedTags) {id : ℤ} (hid : result.idOf parsed string = some id) :
    (outputMessageMeta order (result.metaOf parsed) parsed.usedTags).MapsTo id string := by
  have hmetas := lookupOrg_eq_metaOf hrecords
  have hlookup : result.lookup parsed.useCaseId parsed.orgId string = .ok (some id) := by
    rw [hrecords.lookup_eq, hid]
  obtain ⟨metadata, hmeta⟩ := hconsistent.meta_of_lookup _ _ _ _ _ hmetas hlookup
  have hmetaId : metadata.id = some id := by
    have h := hconsistent.lookup_of_meta _ _ _ _ _ hmetas hmeta
    rw [hlookup, Except.ok.injEq] at h
    exact h.symm
  refine mapsTo_outputMessageMeta hmem hmeta hmetaId fun other metadata' hmeta' hid' ↦ ?_
  have hother := hconsistent.lookup_of_meta _ _ _ _ _ hmetas hmeta'
  rw [hid'] at hother
  exact hconsistent.injective _ _ _ _ _ hlookup hother

theorem translateTag_eq_some {ids : Str → Option ℤ} {old : Str × Json} {new : ℤ × Json}
    (h : translateTag config ids old = some new) :
    ids old.1 = some new.1 ∧ if config.shouldIndexTagValues then
      ∃ id v, new.2 = .int id ∧ old.2 = .str v ∧ ids v = some id else new.2 = old.2 := by
  obtain ⟨k, value⟩ := old
  unfold translateTag at h
  split at h
  · next v heq =>
    obtain ⟨rfl, rfl⟩ := Prod.mk.inj heq
    split at h
    · exact nomatch h
    · next newK hk =>
      split_ifs at h with hindex
      · obtain ⟨id, hid, rfl⟩ := map_eq_some_iff.mp h
        rw [if_pos hindex]
        exact ⟨hk, id, v, rfl, rfl, hid⟩
      · rw [Option.some.injEq] at h
        subst h
        rw [if_neg hindex]
        exact ⟨hk, rfl⟩
  · exact nomatch h

section

variable (hconsistent : result.Consistent)
  (hrecords : ∀ string ∈ parsed.indexedStrings config, result.Records parsed.useCaseId parsed.orgId
    string)

include hconsistent hrecords

theorem nodup_translatedKeys (hnodup : (parsed.tags.map Prod.fst).Nodup) :
    ((parsed.tags.filterMap (translateTag config (result.idOf parsed))).map Prod.fst).Nodup := by
  rw [List.Nodup, pairwise_map, pairwise_filterMap]
  rw [List.Nodup, pairwise_map] at hnodup
  refine hnodup.imp_of_mem fun {a b} ha hb hne new hnew new' hnew' heq ↦ hne ?_
  have hlookup : ∀ {tag new}, tag ∈ parsed.tags →
      translateTag config (result.idOf parsed) tag = some new →
        result.lookup parsed.useCaseId parsed.orgId tag.1 = .ok (some new.1) := by
    intro tag new htag hnew
    rw [(recordsTag_of_mem hrecords tag htag).1.lookup_eq, (translateTag_eq_some hnew).1]
  exact (hconsistent.injective _ _ _ _ _ (hlookup ha hnew) (heq ▸ hlookup hb hnew')).symm

theorem forall₂_translateTag (hstrings : ∀ tag ∈ parsed.tags, ∃ v, tag.2 = .str v)
    (hids : HasIds config result parsed) (hnodup : (parsed.tags.map Prod.fst).Nodup) :
    List.Forall₂ (fun new old ↦ old ∈ parsed.tags ∧
      translateTag config (result.idOf parsed) old = some new)
      (dictOfItems (parsed.tags.filterMap (translateTag config (result.idOf parsed)))) parsed.tags
    := by
  rw [dictOfItems_of_nodup (nodup_translatedKeys hconsistent hrecords hnodup)]
  have hsome := ((hasIds_iff hstrings).mp hids).2
  have hall : ∀ tags, (∀ tag ∈ tags, tag ∈ parsed.tags) →
      List.Forall₂ (fun new old ↦ old ∈ parsed.tags ∧
        translateTag config (result.idOf parsed) old = some new)
        (tags.filterMap (translateTag config (result.idOf parsed))) tags := by
    intro tags
    induction tags with
    | nil => exact fun _ ↦ .nil
    | cons tag rest ih =>
      intro hmem
      obtain ⟨new, hnew⟩ := isSome_iff_exists.mp (hsome tag (hmem tag mem_cons_self))
      rw [filterMap_cons_some hnew]
      exact .cons ⟨hmem tag mem_cons_self, hnew⟩
        (ih fun t ht ↦ hmem t (mem_cons_of_mem _ ht))
  exact hall _ fun tag htag ↦ htag

theorem invertible_iff_integerKeys (hstrings : ∀ tag ∈ parsed.tags, ∃ v, tag.2 = .str v)
    (hids : HasIds config result parsed) (hnodup : (parsed.tags.map Prod.fst).Nodup)
    (hpayload : translation config order result message parsed = .ok payload) :
    Invertible config parsed payload ↔ payload.mappingMeta.IntegerKeys := by
  refine ⟨Invertible.integerKeys, fun hkeys ↦ ⟨hkeys, ?_, ?_⟩⟩
  · obtain ⟨-, hmeta, hid⟩ := newPayloadValue_fields hpayload
    have hname : parsed.name ∈ parsed.indexedStrings config := by
      simp [ParsedMessage.indexedStrings]
    obtain ⟨id, hidOf⟩ := isSome_iff_exists.mp (hids _ hname)
    rw [hmeta, hid, hidOf]
    exact mapsTo_of_idOf hconsistent (hrecords _ hname) mem_cons_self hidOf
  · obtain ⟨htags, hmeta, -⟩ := newPayloadValue_fields hpayload
    rw [hmeta, htags]
    refine (forall₂_translateTag hconsistent hrecords hstrings hids hnodup).imp ?_
    rintro new old ⟨hmem, hnew⟩
    obtain ⟨hkey, hvalue⟩ := translateTag_eq_some hnew
    obtain ⟨hrecordsKey, hrecordsValue⟩ := recordsTag_of_mem hrecords old hmem
    refine ⟨mapsTo_of_idOf hconsistent hrecordsKey ((mem_usedTags hstrings).mpr (.inr (.inl
      (mem_map_of_mem hmem)))) hkey, ?_⟩
    by_cases hindex : config.shouldIndexTagValues
    · rw [if_pos hindex] at hvalue ⊢
      obtain ⟨id, v, hid, hv, hidOf⟩ := hvalue
      refine ⟨id, v, hid, hv, mapsTo_of_idOf hconsistent (hrecordsValue v hindex hv) ?_ hidOf⟩
      exact (mem_usedTags hstrings).mpr
        (.inr (.inr (mem_filterMap.mpr ⟨old, hmem, by rw [hv]⟩)))
    · rwa [if_neg hindex] at hvalue ⊢

/-- The keys of `mapping_meta` are integers exactly when tag values are indexed, or none of them is
known to the result without an id. -/
theorem integerKeys_translation_iff (hstrings : ∀ tag ∈ parsed.tags, ∃ v, tag.2 = .str v)
    (hids : HasIds config result parsed)
    (hpayload : translation config order result message parsed = .ok payload) :
    payload.mappingMeta.IntegerKeys ↔ config.shouldIndexTagValues ∨
      ∀ v ∈ parsed.tagValues, ∀ metadata, result.metaOf parsed v = some metadata →
        metadata.id.isSome := by
  obtain ⟨-, hmeta, -⟩ := newPayloadValue_fields hpayload
  have hindexed : ∀ string ∈ parsed.indexedStrings config, ∀ metadata,
      result.metaOf parsed string = some metadata → metadata.id.isSome := by
    intro string hstring metadata hmetadata
    have hlookup := hconsistent.lookup_of_meta _ _ _ _ _
      (lookupOrg_eq_metaOf (hrecords string hstring)) hmetadata
    have hid := hids string hstring
    rw [(hrecords string hstring).lookup_eq, Except.ok.injEq] at hlookup
    rwa [hlookup] at hid
  rw [hmeta, integerKeys_iff]
  constructor
  · intro h
    refine .inr fun v hv ↦ h v ((mem_usedTags hstrings).mpr (.inr (.inr hv)))
  · intro h string hstring metadata hmetadata
    rcases (mem_usedTags hstrings).mp hstring with rfl | hkey | hvalue
    · exact hindexed _ mem_cons_self metadata hmetadata
    · exact hindexed string
        (mem_append_left _ (mem_cons_of_mem _ hkey)) metadata hmetadata
    · rcases h with hindex | hvalues
      · refine hindexed string (mem_append_right _ ?_) metadata hmetadata
        rwa [if_pos hindex]
      · exact hvalues string hvalue metadata hmetadata

end

end Translation

/-! ### The translated messages of a batch -/

theorem exists_emitted_of_mem {config : IndexerConfig} {keysToRemove : List BrokerMeta}
    {order : SetOrder} {result : RecordResult} {messages : List BrokerMessage}
    {data : List OutputMessage} (h : AccountedFor config keysToRemove order result messages data)
    {out : OutputMessage} (hout : out ∈ data) :
    ∃ message ∈ messages, ∃ emission, out ∈ emission ∧
      Emitted config keysToRemove order result message emission := by
  obtain ⟨emissions, hall, rfl⟩ := h
  induction hall with
  | nil => simp at hout
  | cons hemitted hrest ih =>
    rw [flatten_cons, mem_append] at hout
    rcases hout with hout | hout
    · exact ⟨_, mem_cons_self, _, hout, hemitted⟩
    · obtain ⟨message, hmessage, hemission⟩ := ih hout
      exact ⟨message, mem_cons_of_mem _ hmessage, hemission⟩

@[simp] theorem metricPayload_outputPayload (config : IndexerConfig) (message : BrokerMessage)
    (parsed : ParsedMessage) (payload : MetricPayload) :
    (outputPayload config message parsed payload).metricPayload = some payload := by
  unfold outputPayload
  split <;> rfl

theorem parseMessage_of_fate {config : IndexerConfig} {message : BrokerMessage}
    (h : fate config message = .kept parsed) :
    parseMessage config message = some parsed := by
  unfold fate at h
  split at h
  · exact nomatch h
  · split at h
    · exact nomatch h
    · next hparse =>
      rw [hparse, Fate.kept.inj h]

/-- A translated message can be read back from its own `mapping_meta` exactly when tag values are
indexed, or no tag value of the message is a string that was denied an id as a name or as a key. -/
theorem invertible_iff_no_unindexed_denied {config : IndexerConfig} {outerMessage : MessageBatch}
    {keysToRemove : List BrokerMeta} {order : SetOrder} {result : RecordResult}
    {batch : IndexerBatch} {strings : List (UseCaseID × Json × Str)}
    {output : IndexerOutputMessageBatch} (hnew : IndexerBatch.new config outerMessage = .ok batch)
    (hstrings : (batch.filterMessages keysToRemove).extractStrings = .ok strings)
    (hresult : ∀ entry ∈ strings, result.Records entry.1 entry.2.1 entry.2.2)
    (hconsistent : result.Consistent)
    (hok : (batch.filterMessages keysToRemove).reconstructMessages order result = .ok output)
    {out : OutputMessage} (hout : out ∈ output.data) {payload : MetricPayload}
    (hpayload : out.payload.metricPayload = some payload) {message : BrokerMessage}
    (hmessage : message ∈ outerMessage.messages) (hmeta : message.brokerMeta = out.brokerMeta)
    {parsed : ParsedMessage} (hparsed : parseMessage config message = some parsed) :
    Invertible config parsed payload ↔ config.shouldIndexTagValues ∨
      ∀ v ∈ parsed.tagValues, ∀ metadata, result.metaOf parsed v = some metadata →
        metadata.id.isSome := by
  have hgood := reconstructible_of_ok hnew hstrings hresult hok
  have haccounted : AccountedFor config keysToRemove order result outerMessage.messages
      output.data := by
    obtain ⟨output', hok', haccounted⟩ :=
      accountedFor_of_reconstructible order hnew hstrings hresult hgood
    rw [hok, Except.ok.injEq] at hok'
    exact hok' ▸ haccounted
  have hrecords :=
      recordsKept_of_extractStrings ((new_extracted hnew).pending keysToRemove) hstrings
    hresult
  obtain ⟨source, hsource, emission, hmem, hemitted⟩ := exists_emitted_of_mem haccounted hout
  cases hemitted with
  | filtered | missingId => simp at hmem
  | invalid hkeep h =>
    rw [mem_singleton] at hmem
    subst hmem
    exact nomatch hpayload
  | translated hkeep kept h hids payload' hpayload' =>
    rw [mem_singleton] at hmem
    subst hmem
    obtain rfl : message = source := Extracted.eq_of_brokerMeta_eq hmessage hsource hmeta
    obtain rfl : parsed = kept := by
      rw [parseMessage_of_fate h, Option.some.injEq] at hparsed
      exact hparsed.symm
    obtain rfl : payload' = payload := by simpa [BrokerMessage.replace] using hpayload
    have hstringTags := (hgood _ hsource hkeep _ h).1
    have hrecordsParsed := hrecords _ hsource hkeep _ h
    rw [invertible_iff_integerKeys hconsistent hrecordsParsed hstringTags hids
      (nodup_tags_of_parseMessage hparsed) hpayload',
      integerKeys_translation_iff hconsistent hrecordsParsed hstringTags hids hpayload']

/-! ### A value that another message has as a key -/

/-- A configuration that leaves tag values as they are. -/
def performance : IndexerConfig :=
  { releaseHealth with shouldIndexTagValues := false, disabledNamespaces := [] }

def countMri : Str := ['c', ':', 's', 'p', 'a', 'n', 's', '/', 'n', '@', 'n']

def countFields (key value : Str) : JsonDict :=
  [("name".toList, .str countMri), ("type".toList, .str ['c']), ("value".toList, .int 1),
    ("org_id".toList, .int 1), ("timestamp".toList, .int 5), ("project_id".toList, .int 3),
    ("tags".toList, .obj [(key, .str value)])]

def countMessage (offset : ℕ) (key value : Str) : BrokerMessage where
  brokerMeta := ⟨0, offset⟩
  timestamp := 0
  key := none
  headers := []
  value := some (.obj (countFields key value))

/-- The counter, extracted. -/
def countParsed (key value : Str) : ParsedMessage where
  name := countMri
  useCaseId := .spans
  orgId := .int 1
  metricType := .counter
  tags := [(key, .str value)]
  value := .int 1
  fields := countFields key value
  hasLen := by simp [Json.len]

/-- The value of the first message is the key of the second. -/
def overlappingBatch : MessageBatch where
  messages := [countMessage 0 ['e'] ['x'], countMessage 1 ['x'] ['y']]
  nodup := by decide

/-- The batch after its extraction. -/
def overlappingExtracted : IndexerBatch where
  config := performance
  outerMessage := overlappingBatch
  invalidMsgMeta := []
  filteredMsgMeta := []
  parsedPayloadsByMeta := [(⟨0, 0⟩, countParsed ['e'] ['x']), (⟨0, 1⟩, countParsed ['x'] ['y'])]

theorem new_overlappingBatch :
    IndexerBatch.new performance overlappingBatch = .ok overlappingExtracted := by
  rfl

/-- The strings of the batch. -/
def overlappingStrings : List (UseCaseID × Json × Str) :=
  [countMri, ['e'], countMri, ['x']].map fun string ↦ (.spans, .int 1, string)

/-- The metadata of the strings of the batch, with that of `x` as given. -/
def overlapMeta (metadata : Metadata) (string : Str) : Option Metadata :=
  if string = countMri then some ⟨some 1, .cacheHit, none⟩
  else if string = ['e'] then some ⟨some 2, .dbRead, none⟩
  else if string = ['x'] then some metadata
  else none

/-- The key `x` was rate limited. -/
def denied : Metadata := ⟨none, .rateLimited, some false⟩

/-- The key `x` was recorded. -/
def granted : Metadata := ⟨some 3, .firstSeen, none⟩

theorem consistent_ofMeta (h : ∀ string other metadata metadata' id, metas string = some metadata →
      metas other = some metadata' → metadata.id = some id → metadata'.id = some id →
        other = string) : (RecordResult.ofMeta metas).Consistent := by
  have hlookup : ∀ {useCaseId : UseCaseID} {orgId : Json} {string : Str} {id : Option ℤ},
      (RecordResult.ofMeta metas).lookup useCaseId orgId string = .ok id →
        ∃ metadata, metas string = some metadata ∧ metadata.id = id := by
    intro useCaseId orgId string id hid
    cases horg : orgId.hashable with
    | false => simp [RecordResult.lookup, lookupOrg, RecordResult.ofMeta, horg] at hid
    | true =>
      cases hmeta : metas string with
      | none => simp [RecordResult.lookup, lookupOrg, RecordResult.ofMeta, horg, hmeta] at hid
      | some metadata =>
        simp only [RecordResult.lookup, lookupOrg, RecordResult.ofMeta, horg, hmeta, if_true,
          map_some, Except.ok.injEq] at hid
        exact ⟨metadata, rfl, hid⟩
  have hmetas : ∀ {useCaseId : UseCaseID} {orgId : Json} {metas' : Str → Option Metadata},
      lookupOrg (RecordResult.ofMeta metas).bulkRecordMeta useCaseId orgId = .ok metas' →
        orgId.hashable ∧ metas' = metas := by
    intro useCaseId orgId metas' hlookupOrg
    cases horg : orgId.hashable with
    | false => simp [lookupOrg, RecordResult.ofMeta, horg] at hlookupOrg
    | true =>
      simp only [lookupOrg, RecordResult.ofMeta, horg, if_true, Except.ok.injEq] at hlookupOrg
      exact ⟨rfl, hlookupOrg.symm⟩
  refine ⟨?_, ?_, ?_⟩
  · intro useCaseId orgId string other id hid hid'
    obtain ⟨metadata, hmeta, heq⟩ := hlookup hid
    obtain ⟨metadata', hmeta', heq'⟩ := hlookup hid'
    exact h string other metadata metadata' id hmeta hmeta' heq heq'
  · intro useCaseId orgId metas' string id hmetas' hid
    obtain ⟨-, rfl⟩ := hmetas hmetas'
    obtain ⟨metadata, hmeta, -⟩ := hlookup hid
    exact ⟨metadata, hmeta⟩
  · intro useCaseId orgId metas' string metadata hmetas' hmeta
    obtain ⟨horg, rfl⟩ := hmetas hmetas'
    simp [RecordResult.lookup, lookupOrg, RecordResult.ofMeta, horg, hmeta]

theorem isSome_of_overlapMeta {metadata found : Metadata}
    (hid : metadata.id.isSome) (h : overlapMeta metadata string = some found) :
    found.id.isSome := by
  unfold overlapMeta at h
  grind

theorem overlapMeta_records (metadata : Metadata) :
    ∀ entry ∈ overlappingStrings,
      (RecordResult.ofMeta (overlapMeta metadata)).Records entry.1 entry.2.1 entry.2.2 := by
  intro entry hentry
  obtain ⟨string, hstring, rfl⟩ := List.mem_map.mp hentry
  refine records_ofMeta _ rfl ?_
  unfold overlapMeta
  grind

theorem eq_of_metaOf_ofMeta (h : (RecordResult.ofMeta metas).metaOf parsed string = some metadata) :
    metas string = some metadata := by
  by_cases horg : parsed.orgId.hashable
  · simpa [RecordResult.metaOf, lookupOrg, RecordResult.ofMeta, horg] using h
  · simp [RecordResult.metaOf, lookupOrg, RecordResult.ofMeta, horg] at h

/-- The three strings have ids of their own, unless `x` takes one of the others'. -/
theorem overlapMeta_consistent (h₁ : metadata.id ≠ some 1)
    (h₂ : metadata.id ≠ some 2) : (RecordResult.ofMeta (overlapMeta metadata)).Consistent := by
  refine consistent_ofMeta fun string other m m' id hm hm' hid hid' ↦ ?_
  unfold overlapMeta at hm hm'
  grind

theorem extractStrings_overlappingBatch :
    (overlappingExtracted.filterMessages []).extractStrings = .ok overlappingStrings := by
  rfl

/-- With an id for `x`, both messages can be read back. -/
theorem granted_invertible :
    ∃ output, (overlappingExtracted.filterMessages []).reconstructMessages dedupOrder
        (.ofMeta (overlapMeta granted)) = .ok output ∧
      ∀ out ∈ output.data, ∀ payload, out.payload.metricPayload = some payload →
        ∀ message ∈ overlappingBatch.messages, message.brokerMeta = out.brokerMeta →
          ∀ parsed, parseMessage performance message = some parsed →
            Invertible performance parsed payload := by
  refine ⟨_, rfl, fun out hout payload hpayload message hmessage hmeta parsed hparsed ↦ ?_⟩
  refine (@invertible_iff_no_unindexed_denied performance overlappingBatch [] dedupOrder _
    overlappingExtracted overlappingStrings _ new_overlappingBatch extractStrings_overlappingBatch
    (overlapMeta_records granted) (overlapMeta_consistent (by decide) (by decide)) rfl _ hout _
    hpayload _ hmessage hmeta _ hparsed).mpr (.inr fun v _ metadata h ↦ ?_)
  exact isSome_of_overlapMeta rfl (eq_of_metaOf_ofMeta h)

/-- Without one, the value `x` of the first message gets the key `None`. -/
theorem denied_noneKey :
    IndexerBatch.new performance overlappingBatch = .ok overlappingExtracted ∧
      (overlappingExtracted.filterMessages []).extractStrings = .ok overlappingStrings ∧
      (∀ entry ∈ overlappingStrings, (RecordResult.ofMeta (overlapMeta denied)).Records entry.1
        entry.2.1 entry.2.2) ∧
      (RecordResult.ofMeta (overlapMeta denied)).Consistent ∧
      ∃ output, (overlappingExtracted.filterMessages []).reconstructMessages dedupOrder
          (.ofMeta (overlapMeta denied)) = .ok output ∧
        ∃ out ∈ output.data, ∃ payload, out.payload.metricPayload = some payload ∧
          payload.mappingMeta.entry .rateLimited none = some ['x'] ∧
          ¬ Invertible performance (countParsed ['e'] ['x']) payload := by
  refine ⟨new_overlappingBatch, extractStrings_overlappingBatch, overlapMeta_records denied,
    overlapMeta_consistent (by decide) (by decide), _, rfl, _, mem_cons_self, _, rfl, rfl,
    fun h ↦ ?_⟩
  have hkey := h.integerKeys .rateLimited
  exact nomatch (show some ['x'] = none from hkey)

end Sentry.SentryMetrics
