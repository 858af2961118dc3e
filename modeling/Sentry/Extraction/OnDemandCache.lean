import Sentry.Extraction.MetricsSupport

/-!
# The cache of the on-demand decisions

`snuba/metrics/extraction.py`. Calls of `should_use_on_demand_metrics` share a cache whose key is
the hash of the arguments joined to one text (`keyText`), where nothing keeps the separators out of
what they join. Only positive answers count, and they stay. So a run of calls is answered as without
the cache unless a positive call comes before one with the same text that is not
(`answers_transparent_iff`).
-/

namespace Sentry.Extraction.OnDemandCache

open Library List
open MetricsSupport hiding shouldUseOnDemandMetrics

variable {Other Aggregate Digest : Type} [DecidableEq Digest]

/-- `dataset_str` -/
def datasetStr : Option (Dataset ⊕ String) → String
  | none => ""
  | some (.inl dataset) => dataset.value
  | some (.inr value) => value

/-- `groupbys_str` -/
def groupbysStr (groupbys : List String) : String :=
  ",".intercalate (groupbys.insertionSort (· ≤ ·))

/-- The text that is hashed. -/
def keyText (arguments : Arguments) : String :=
  datasetStr arguments.dataset ++ "-" ++ arguments.aggregate ++ "-" ++ arguments.query.getD "" ++
    "-" ++ groupbysStr (arguments.groupbys.getD []) ++ "-prefilling=" ++
    if arguments.prefilling then "True" else "False"

/-- `WIDGET_QUERY_CACHE_MAX_CHUNKS` -/
def widgetQueryCacheMaxChunks : ℕ := 6

/-- `md5_text`: no two texts have one hash, and a hash has a first byte. -/
structure Md5 (Digest : Type) where
  digest : String ↪ Digest
  firstByte : Digest → ℕ

/-- `organization_bulk_query_cache`: a dictionary in each of its chunks. -/
abbrev Cache (Digest : Type) := ℕ → List (Digest × Bool)

namespace Md5

variable (md5 : Md5 Digest)

/-- `local_cache_digest_chunk` -/
def chunk (key : Digest) : ℕ := md5.firstByte key % widgetQueryCacheMaxChunks

/-- `cached_result` -/
def cachedResult (cache : Cache Digest) (key : Digest) : Option Bool :=
  getItem (cache (md5.chunk key)) key

/-- The cache after a result was stored. -/
def store (cache : Cache Digest) (key : Digest) (result : Bool) : Cache Digest :=
  Function.update cache (md5.chunk key) (setItem key result (cache (md5.chunk key)))

theorem cachedResult_store (cache : Cache Digest) (key other : Digest) (result : Bool) :
    md5.cachedResult (md5.store cache key result) other =
      if other = key then some result else md5.cachedResult cache other := by
  unfold cachedResult store
  by_cases hchunk : md5.chunk other = md5.chunk key
  · rw [hchunk, Function.update_self, getItem_setItem]
    simp only [eq_comm]
  · have hne : other ≠ key := fun heq ↦ hchunk (congrArg md5.chunk heq)
    rw [Function.update_of_ne hchunk, if_neg hne]

end Md5

/-- A call, and whether it is in the rollout of the cache. -/
structure Call where
  arguments : Arguments
  inRollout : Bool

section Runs

variable (parsers : Parsers Other Aggregate) (md5 : Md5 Digest)

/-- What a call answers without the cache. -/
def Call.uncached (call : Call) : Except Raised Bool :=
  MetricsSupport.shouldUseOnDemandMetrics parsers call.arguments

/-- `should_use_on_demand_metrics`, with the cache before and after the call. -/
def shouldUseOnDemandMetrics (cache : Cache Digest) (call : Call) :
    Except Raised Bool × Cache Digest :=
  if call.inRollout then
    let key := md5.digest (keyText call.arguments)
    if md5.cachedResult cache key = some true then (.ok true, cache)
    else
      match call.uncached parsers with
      | .ok result => (.ok result, md5.store cache key result)
      | .error raised => (.error raised, cache)
  else (call.uncached parsers, cache)

/-- The answers of calls one after the other. -/
def answers (cache : Cache Digest) : List Call → List (Except Raised Bool)
  | [] => []
  | call :: rest =>
    (shouldUseOnDemandMetrics parsers md5 cache call).1 ::
      answers (shouldUseOnDemandMetrics parsers md5 cache call).2 rest

def Call.Positive (text : String) (call : Call) : Prop :=
  call.inRollout ∧ keyText call.arguments = text ∧ call.uncached parsers = .ok true

def Remembers (past : List Call) (cache : Cache Digest) : Prop :=
  ∀ text, md5.cachedResult cache (md5.digest text) = some true ↔
    ∃ call ∈ past, call.Positive parsers text

variable {parsers md5}

theorem remembers_nil : Remembers parsers md5 [] fun _ ↦ [] := by
  intro text
  simp [Md5.cachedResult]

variable {cache : Cache Digest}

theorem answer_of_remembers {past : List Call} (hcache : Remembers parsers md5 past cache)
    (call : Call) : (shouldUseOnDemandMetrics parsers md5 cache call).1 = call.uncached parsers ↔
      (call.inRollout → (∃ earlier ∈ past, earlier.Positive parsers (keyText call.arguments)) →
        call.uncached parsers = .ok true) := by
  have hpositive := hcache (keyText call.arguments)
  unfold shouldUseOnDemandMetrics
  by_cases hrollout : call.inRollout
  · simp only [hrollout, ↓reduceIte, true_imp_iff, ← hpositive]
    split_ifs with hcached
    · simp only [hcached, true_imp_iff, eq_comm]
    · simp only [hcached, false_imp_iff, iff_true]
      split <;> simp_all
  · simp [hrollout]

theorem Remembers.step {past : List Call}
    (hcache : Remembers parsers md5 past cache) (call : Call) :
    Remembers parsers md5 (call :: past) (shouldUseOnDemandMetrics parsers md5 cache call).2 := by
  intro text
  rw [exists_mem_cons_iff, ← hcache text]
  unfold shouldUseOnDemandMetrics Call.Positive
  by_cases hrollout : call.inRollout
  · by_cases hcached : md5.cachedResult cache (md5.digest (keyText call.arguments)) = some true
    · simp only [hrollout, hcached, ↓reduceIte, true_and]
      refine ⟨Or.inr, fun h ↦ h.elim (fun hcall ↦ ?_) id⟩
      rw [← hcall.1]
      exact hcached
    · simp only [hrollout, hcached, ↓reduceIte, true_and]
      cases hresult : call.uncached parsers with
      | error raised => simp
      | ok result =>
        simp only [md5.cachedResult_store, md5.digest.injective.eq_iff]
        by_cases htext : text = keyText call.arguments
        · simp [htext, hcached]
        · simp [htext, Ne.symm htext]
  · simp [hrollout]

variable (parsers md5)

theorem answers_eq_uncached_iff {past : List Call}
    (hcache : Remembers parsers md5 past cache) (calls : List Call) :
    answers parsers md5 cache calls = calls.map (Call.uncached parsers) ↔
      (∀ call ∈ calls, call.inRollout →
        (∃ earlier ∈ past, earlier.Positive parsers (keyText call.arguments)) →
          call.uncached parsers = .ok true) ∧
      calls.Pairwise fun earlier call ↦ call.inRollout →
        earlier.Positive parsers (keyText call.arguments) → call.uncached parsers = .ok true := by
  induction calls generalizing past cache with
  | nil => simp [answers]
  | cons call rest ih =>
    rw [answers, map_cons, List.cons.injEq, answer_of_remembers hcache, ih (hcache.step call),
      forall_mem_cons, pairwise_cons]
    simp only [exists_mem_cons_iff, or_imp]
    constructor
    · rintro ⟨hcall, hrest, hpairwise⟩
      exact ⟨⟨hcall, fun later hlater hin ↦ (hrest later hlater hin).2⟩,
        fun later hlater hin ↦ (hrest later hlater hin).1, hpairwise⟩
    · rintro ⟨⟨hcall, hpast⟩, hlater, hpairwise⟩
      exact ⟨hcall, fun later hmem hin ↦ ⟨hlater later hmem hin, hpast later hmem hin⟩, hpairwise⟩

/-- Every call answers what it answers without the cache just if of two calls through the cache with
the same text the second is answered positively where the first one is. -/
theorem answers_transparent_iff (calls : List Call) :
    answers parsers md5 (fun _ ↦ []) calls = calls.map (Call.uncached parsers) ↔
      calls.Pairwise fun earlier call ↦ earlier.inRollout → call.inRollout →
        keyText earlier.arguments = keyText call.arguments →
          earlier.uncached parsers = .ok true → call.uncached parsers = .ok true := by
  rw [answers_eq_uncached_iff parsers md5 remembers_nil]
  constructor
  · refine fun h ↦ h.2.imp fun hpositive hearlier hin htext hresult ↦ ?_
    exact hpositive hin ⟨hearlier, htext, hresult⟩
  · refine fun h ↦ ⟨by simp, h.imp fun hpositive hin hearlier ↦ ?_⟩
    exact hpositive hearlier.1 hin hearlier.2.1 hearlier.2.2

end Runs

/-- The hash of a text is the text itself here. -/
def textMd5 : Md5 String := ⟨Function.Embedding.refl String, fun _ ↦ 0⟩

/-- The parsers on the texts of the two calls; `timestamp` is a column and no tag. -/
def hyphenParsers : Parsers Unit Unit where
  extractAggregateComponents aggregate := if aggregate = "count()" then some ("count", []) else none
  isMri _ := false
  parseSearchQuery
    | some "foo:a" => .ok [.filter (.inl ⟨"foo", "=", .text ['a']⟩)]
    | some "foo:a-b" => .ok [.filter (.inl ⟨"foo", "=", .text ['a', '-', 'b']⟩)]
    | _ => .error .invalidSearchQuery
  resolveColumn col := if col = "timestamp" then "finish_ts" else "tags[" ++ col ++ "]"

/-- A call with a query and a group. -/
def hyphenCall (query groupby : String) : Call where
  arguments := ⟨some (.inl .performanceMetrics), "count()", some query, some [groupby], false⟩
  inRollout := true

theorem isOnDemandSupportedField_tag (col : String) (h : getItem searchToProtocolFields col = none)
    (hmeasurement : col.startsWith "measurements." = false) (hcol : col ≠ "timestamp") :
    isOnDemandSupportedField hyphenParsers col := by
  have htag : ("tags[" ++ col ++ "]").startsWith "tags[" = true := by
    simp [String.append_assoc]
  by_cases htransaction : "tags[" ++ col ++ "]" = "transaction_name"
  · simp [isOnDemandSupportedField, mapFieldName, h, hmeasurement, hyphenParsers, hcol,
      htransaction, Except.isOk, Except.toBool]
  · simp [isOnDemandSupportedField, mapFieldName, h, hmeasurement, hyphenParsers, hcol,
      htransaction, htag, Except.isOk, Except.toBool]

theorem uncached_hyphenCall (query groupby : String) {querySupport : SupportedBy}
    (hquery : getQuerySupportedBy hyphenParsers (some query) = .ok querySupport) :
    (hyphenCall query groupby).uncached hyphenParsers =
      .ok (!(querySupport.standardMetrics && isStandardMetricsField groupby) &&
        (querySupport.onDemandMetrics && isOnDemandSupportedField hyphenParsers groupby)) := by
  have hcount : getAggregateSupportedBy hyphenParsers "count" [] = .both := by
    rfl
  have hsupport : supportOf hyphenParsers "count" [] (some query) [groupby] =
      .ok (.combine [.both, querySupport, getGroupbysSupport hyphenParsers [groupby]]) := by
    rw [supportOf, hquery, hcount]
  have hcomponents : hyphenParsers.extractAggregateComponents "count()" = some ("count", []) := by
    rfl
  show MetricsSupport.shouldUseOnDemandMetrics hyphenParsers _ = _
  simp [MetricsSupport.shouldUseOnDemandMetrics, hyphenCall, Arguments.datasetGiven,
    supportedDatasets, hcomponents, hsupport, SupportedBy.combine, SupportedBy.both,
    getGroupbysSupport_eq, getFieldSupport]
  rfl

theorem uncached_tag : (hyphenCall "foo:a" "b-timestamp").uncached hyphenParsers = .ok true := by
  have hfoo : isOnDemandSupportedField hyphenParsers "foo" :=
    isOnDemandSupportedField_tag "foo" (by decide) (by simp) (by decide)
  have hgroup : isOnDemandSupportedField hyphenParsers "b-timestamp" :=
    isOnDemandSupportedField_tag "b-timestamp" (by decide) (by simp) (by decide)
  have hquery : getQuerySupportedBy hyphenParsers (some "foo:a") = .ok ⟨false, true⟩ := by
    show Except.ok (SupportedBy.mk _ _) = _
    simp [isStandardMetricsQuery, isOnDemandSupportedQuery, everyFilter,
      isOnDemandSupportedSearchFilter, hfoo]
    decide
  rw [uncached_hyphenCall _ _ hquery, hgroup]
  rfl

theorem uncached_column :
    (hyphenCall "foo:a-b" "timestamp").uncached hyphenParsers = .ok false := by
  have hgroup : isOnDemandSupportedField hyphenParsers "timestamp" = false := by
    have h : getItem searchToProtocolFields "timestamp" = none := by decide
    simp [isOnDemandSupportedField, mapFieldName, h, hyphenParsers,
      QueryCleanup.ignoredMetricFields, Except.isOk, Except.toBool]
  have hquery : ∃ support, getQuerySupportedBy hyphenParsers (some "foo:a-b") = .ok support :=
    ⟨_, rfl⟩
  obtain ⟨support, hsupport⟩ := hquery
  rw [uncached_hyphenCall _ _ hsupport, hgroup]
  simp

/-- The second call is answered from the cache, with what the first one has stored. -/
theorem hyphens_not_transparent :
    answers hyphenParsers textMd5 (fun _ ↦ [])
        [hyphenCall "foo:a" "b-timestamp", hyphenCall "foo:a-b" "timestamp"] ≠
      [hyphenCall "foo:a" "b-timestamp", hyphenCall "foo:a-b" "timestamp"].map
        (Call.uncached hyphenParsers) := by
  have htext : keyText (hyphenCall "foo:a-b" "timestamp").arguments =
      keyText (hyphenCall "foo:a" "b-timestamp").arguments := by
    decide
  intro h
  rw [answers_eq_uncached_iff hyphenParsers textMd5 remembers_nil, pairwise_pair] at h
  have hsecond := h.2 rfl ⟨rfl, htext.symm, uncached_tag⟩
  rw [uncached_column] at hsecond
  cases hsecond

end Sentry.Extraction.OnDemandCache
