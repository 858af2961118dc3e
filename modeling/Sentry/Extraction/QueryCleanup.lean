import Mathlib.Algebra.Order.Ring.Nat
import Mathlib.Algebra.Order.SuccPred
import Mathlib.Data.List.Chain
import Mathlib.Data.List.Infix
import Sentry.Extraction.SearchQueryConverter
import Sentry.Library.DroppedEnds

/-!
# Cleaning up pruned queries

`snuba/metrics/extraction.py`. Filters that a kind of metrics cannot carry are taken out of a search
query (`removeFilters`), and `cleanupSearchQuery` drops the empty parentheses and the
operators that this leaves without operands. What it returns is empty or `Grammatical`
(`cleanupSearchQuery_repairs`), and of what is grammatical it changes nothing
(`cleanupSearchQuery_of_grammatical`).
-/

namespace Sentry.Extraction.QueryCleanup

open Library List

variable {Filter : Type*}

scoped instance instLawfulBEqStr : LawfulBEq (List Char) := List.instLawfulBEq

/-- `QueryOp` -/
inductive QueryOp
  | and
  | or
  deriving DecidableEq, Repr

/-- `QueryToken`: a filter, of which there are several kinds, an operator, or a
`ParenExpression`. -/
inductive Token (Filter : Type*)
  | filter (filter : Filter)
  | op (operator : QueryOp)
  | paren (children : List (Token Filter))

/-- `isinstance(token, str)` -/
def Token.isOp : Token Filter → Bool
  | op _ => true
  | _ => false

/-- The filters of a query in their order, those inside of parentheses too. -/
def filters : List (Token Filter) → List Filter
  | [] => []
  | .filter filter :: rest => filter :: filters rest
  | .op _ :: rest => filters rest
  | .paren children :: rest => filters children ++ filters rest

def mergeStep (state : List (Token Filter) × Option (Token Filter)) (token : Token Filter) :
    List (Token Filter) × Option (Token Filter) :=
  match token, state.2 with
  | .op operator, some (.op previous) =>
    (state.1, some (.op (if operator = .or then .or else previous)))
  | token, some previous => (state.1 ++ [previous], some token)
  | token, none => (state.1, some token)

def cleanupOperators (tokens : List (Token Filter)) : List (Token Filter) :=
  let state := ((tokens.dropWhile Token.isOp).rdropWhile Token.isOp).foldl mergeStep ([], none)
  state.1 ++ state.2.toList

def removedEmptyParens : List (Token Filter) → List (Token Filter)
  | [] => []
  | .paren children :: rest =>
    if cleanupOperators (removedEmptyParens children) = [] then removedEmptyParens rest
    else .paren (cleanupOperators (removedEmptyParens children)) :: removedEmptyParens rest
  | token :: rest => token :: removedEmptyParens rest

/-- `cleanup_search_query` -/
def cleanupSearchQuery (tokens : List (Token Filter)) : List (Token Filter) :=
  cleanupOperators (removedEmptyParens tokens)

/-- Queries: a filter, a query in parentheses, and two queries one after the other, with an operator
between them or without. -/
inductive Grammatical : List (Token Filter) → Prop
  | filter (filter : Filter) : Grammatical [.filter filter]
  | paren {children : List (Token Filter)} : Grammatical children → Grammatical [.paren children]
  | juxtaposed {left right : List (Token Filter)} :
      Grammatical left → Grammatical right → Grammatical (left ++ right)
  | operator {left right : List (Token Filter)} (operator : QueryOp) :
      Grammatical left → Grammatical right → Grammatical (left ++ .op operator :: right)

/-- There are tokens, and every operator among them stands between two that are none. -/
structure WellPlaced (tokens : List (Token Filter)) : Prop where
  ne_nil : tokens ≠ []
  head : ∀ token ∈ tokens.head?, token.isOp = false
  last : ∀ token ∈ tokens.getLast?, token.isOp = false
  chain : tokens.IsChain fun token next ↦ ¬ (token.isOp ∧ next.isOp)

/-- What a pair of parentheses has in it is grammatical. -/
def Token.Sound : Token Filter → Prop
  | paren children => Grammatical children
  | _ => True

theorem WellPlaced.append {left right : List (Token Filter)} (hleft : WellPlaced left)
    (hright : WellPlaced right) : WellPlaced (left ++ right) where
  ne_nil := by simp [hleft.ne_nil]
  head := by
    rw [head?_append_of_ne_nil _ hleft.ne_nil]
    exact hleft.head
  last := by
    rw [getLast?_append_of_ne_nil _ hright.ne_nil]
    exact hright.last
  chain := by
    refine isChain_append.mpr ⟨hleft.chain, hright.chain, fun token htoken next hnext ↦ ?_⟩
    simp [hleft.last token htoken]

theorem WellPlaced.operator {left right : List (Token Filter)} (operator : QueryOp)
    (hleft : WellPlaced left) (hright : WellPlaced right) :
    WellPlaced (left ++ .op operator :: right) where
  ne_nil := by simp
  head := by
    rw [head?_append_of_ne_nil _ hleft.ne_nil]
    exact hleft.head
  last := by
    rw [getLast?_append_of_ne_nil _ (cons_ne_nil _ _), getLast?_cons_of_ne_nil hright.ne_nil]
    exact hright.last
  chain := by
    refine isChain_append.mpr ⟨hleft.chain, ?_, fun token htoken next hnext ↦ ?_⟩
    · refine isChain_cons.mpr ⟨fun next hnext ↦ ?_, hright.chain⟩
      simp [hright.head next hnext]
    · simp [hleft.last token htoken]

theorem grammatical_singleton {token : Token Filter} (hop : token.isOp = false)
    (hsound : token.Sound) : Grammatical [token] := by
  cases token with
  | filter filter => exact .filter filter
  | op operator => simp [Token.isOp] at hop
  | paren children => exact .paren hsound

variable {tokens : List (Token Filter)}

theorem grammatical_of_wellPlaced (hplaced : WellPlaced tokens)
    (hsound : ∀ token ∈ tokens, token.Sound) : Grammatical tokens := by
  induction tokens using List.twoStepInduction with
  | nil => exact absurd rfl hplaced.ne_nil
  | singleton token =>
    exact grammatical_singleton (hplaced.head token rfl) (hsound token (mem_singleton_self _))
  | cons_cons first second rest ihrest ihsecond =>
    have hfirst : Grammatical [first] :=
      grammatical_singleton (hplaced.head first rfl) (hsound first mem_cons_self)
    have hchain := (isChain_cons_cons.mp hplaced.chain).2
    cases hsecond : second.isOp with
    | false =>
      refine hfirst.juxtaposed (ihsecond second ⟨cons_ne_nil _ _, ?_, ?_, hchain⟩ ?_)
      · simpa using hsecond
      · exact hplaced.last
      · exact fun token htoken ↦ hsound token (mem_cons_of_mem _ htoken)
    | true =>
      have hrest : rest ≠ [] := by
        rintro rfl
        have hlast := hplaced.last second rfl
        simp [hsecond] at hlast
      have hgrammatical : Grammatical rest := by
        refine ihrest ⟨hrest, fun next hnext ↦ ?_, ?_, ?_⟩ ?_
        · simpa [hsecond] using (isChain_cons.mp hchain).1 next hnext
        · rw [← getLast?_cons_of_ne_nil hrest, ← getLast?_cons_of_ne_nil (cons_ne_nil _ _)]
          exact hplaced.last
        · exact (isChain_cons.mp hchain).2
        · exact fun token htoken ↦ hsound token (mem_cons_of_mem _ (mem_cons_of_mem _ htoken))
      cases second with
      | op operator => exact hfirst.operator operator hgrammatical
      | filter | paren => simp [Token.isOp] at hsecond

theorem grammatical_iff (tokens : List (Token Filter)) :
    Grammatical tokens ↔ WellPlaced tokens ∧ ∀ token ∈ tokens, token.Sound := by
  constructor
  · intro hgrammatical
    induction hgrammatical with
    | filter filter => exact ⟨⟨by simp, by simp [Token.isOp], by simp [Token.isOp], by simp⟩,
        by simp [Token.Sound]⟩
    | paren hchildren => exact ⟨⟨by simp, by simp [Token.isOp], by simp [Token.isOp], by simp⟩,
        by simpa [Token.Sound] using hchildren⟩
    | juxtaposed _ _ ihleft ihright =>
      refine ⟨ihleft.1.append ihright.1, fun token htoken ↦ ?_⟩
      exact (mem_append.mp htoken).elim (ihleft.2 token) (ihright.2 token)
    | operator operator _ _ ihleft ihright =>
      refine ⟨ihleft.1.operator operator ihright.1, fun token htoken ↦ ?_⟩
      rcases mem_append.mp htoken with hleft | hright
      · exact ihleft.2 token hleft
      · rcases mem_cons.mp hright with rfl | hright
        · trivial
        · exact ihright.2 token hright
  · exact fun h ↦ grammatical_of_wellPlaced h.1 h.2

/-- What the loop has returned in the end from a token on that is still to be returned. -/
def merged : Token Filter → List (Token Filter) → List (Token Filter)
  | previous, [] => [previous]
  | .op previous, .op operator :: rest =>
    merged (.op (if operator = .or then .or else previous)) rest
  | previous, token :: rest => previous :: merged token rest

theorem foldl_mergeStep (result : List (Token Filter)) (previous : Token Filter)
    (tokens : List (Token Filter)) : (tokens.foldl mergeStep (result, some previous)).1 ++
      (tokens.foldl mergeStep (result, some previous)).2.toList =
      result ++ merged previous tokens := by
  fun_induction merged previous tokens generalizing result with
  | case1 previous => rfl
  | case2 previous operator rest ih => exact ih result
  | case3 previous token rest hboth ih =>
    have hstep : mergeStep (result, some previous) token = (result ++ [previous], some token) := by
      unfold mergeStep
      split
      · exact (hboth _ _ (Option.some.inj ‹_›) rfl).elim
      · simp_all
      · simp_all
    rw [foldl_cons, hstep, ih, append_assoc]
    rfl

theorem cleanupOperators_eq_merged {first : Token Filter} {rest : List (Token Filter)}
    (h : (tokens.dropWhile Token.isOp).rdropWhile Token.isOp = first :: rest) :
    cleanupOperators tokens = merged first rest := by
  have hstart : mergeStep ([], none) first = ([], some first) := by
    cases first <;> rfl
  rw [cleanupOperators, h, foldl_cons, hstart]
  exact foldl_mergeStep [] first rest

theorem merged_head (previous : Token Filter) (tokens : List (Token Filter)) :
    ∃ first rest, merged previous tokens = first :: rest ∧ first.isOp = previous.isOp := by
  fun_induction merged previous tokens with
  | case1 previous => exact ⟨previous, [], rfl, rfl⟩
  | case2 previous operator rest ih => exact ih
  | case3 previous token rest hboth ih => exact ⟨previous, _, rfl, rfl⟩

theorem merged_last (previous : Token Filter) (tokens : List (Token Filter)) :
    (merged previous tokens).getLast?.map Token.isOp =
      (previous :: tokens).getLast?.map Token.isOp := by
  fun_induction merged previous tokens with
  | case1 previous => rfl
  | case2 previous operator rest ih =>
    rw [ih]
    cases rest with
    | nil => rfl
    | cons next rest => simp
  | case3 previous token rest hboth ih =>
    obtain ⟨first, after, hmerged, -⟩ := merged_head token rest
    rw [hmerged] at ih ⊢
    simpa using ih

theorem isChain_merged (previous : Token Filter) (tokens : List (Token Filter)) :
    (merged previous tokens).IsChain fun token next ↦ ¬ (token.isOp ∧ next.isOp) := by
  fun_induction merged previous tokens with
  | case1 previous => simp
  | case2 previous operator rest ih => exact ih
  | case3 previous token rest hboth ih =>
    obtain ⟨first, after, hmerged, hfirst⟩ := merged_head token rest
    rw [hmerged] at ih ⊢
    refine isChain_cons_cons.mpr ⟨fun h ↦ ?_, ih⟩
    rw [hfirst] at h
    cases previous with
    | op previous =>
      cases token with
      | op operator => exact hboth previous operator rfl rfl
      | filter | paren => exact Bool.noConfusion h.2
    | filter | paren => exact Bool.noConfusion h.1

theorem sound_merged {previous : Token Filter} (h : ∀ token ∈ previous :: tokens, token.Sound) :
    ∀ token ∈ merged previous tokens, token.Sound := by
  fun_induction merged previous tokens with
  | case1 previous => exact h
  | case2 previous operator rest ih =>
    refine ih fun token htoken ↦ ?_
    rcases mem_cons.mp htoken with rfl | hrest
    · trivial
    · exact h token (mem_cons_of_mem _ (mem_cons_of_mem _ hrest))
  | case3 previous token rest hboth ih =>
    rw [forall_mem_cons] at h ⊢
    exact ⟨h.1, ih h.2⟩

theorem filters_merged (previous : Token Filter) (tokens : List (Token Filter)) :
    filters (merged previous tokens) = filters (previous :: tokens) := by
  fun_induction merged previous tokens with
  | case1 previous => rfl
  | case2 previous operator rest ih =>
    rw [ih]
    simp only [filters]
  | case3 previous token rest hboth ih => cases previous <;> simp [filters, ih]

theorem merged_of_isChain {previous : Token Filter}
    (h : (previous :: tokens).IsChain fun token next ↦ ¬ (token.isOp ∧ next.isOp)) :
    merged previous tokens = previous :: tokens := by
  fun_induction merged previous tokens with
  | case1 previous => rfl
  | case2 previous operator rest ih => exact ((isChain_cons_cons.mp h).1 ⟨rfl, rfl⟩).elim
  | case3 previous token rest hboth ih => rw [ih (isChain_cons_cons.mp h).2]

theorem filters_append (left right : List (Token Filter)) :
    filters (left ++ right) = filters left ++ filters right := by
  fun_induction filters left <;> simp [filters, *]

theorem filters_dropWhile (tokens : List (Token Filter)) :
    filters (tokens.dropWhile Token.isOp) = filters tokens := by
  induction tokens with
  | nil => rfl
  | cons token rest ih =>
    cases token with
    | op operator =>
      rw [dropWhile_cons_of_pos rfl, ih, filters]
    | filter | paren => rfl

theorem filters_rdropWhile (tokens : List (Token Filter)) :
    filters (tokens.rdropWhile Token.isOp) = filters tokens := by
  induction tokens using reverseRecOn with
  | nil => rfl
  | append_singleton rest token ih =>
    cases token with
    | op operator =>
      rw [rdropWhile_concat_pos _ _ _ rfl, ih, filters_append]
      simp [filters]
    | filter | paren => rw [rdropWhile_concat_neg _ _ _ (by simp [Token.isOp])]

theorem filters_cleanupOperators (tokens : List (Token Filter)) :
    filters (cleanupOperators tokens) = filters tokens := by
  rw [← filters_dropWhile tokens, ← filters_rdropWhile (tokens.dropWhile _)]
  cases h : (tokens.dropWhile Token.isOp).rdropWhile Token.isOp with
  | nil => simp [cleanupOperators, h]
  | cons first rest => rw [cleanupOperators_eq_merged h, filters_merged]

theorem cleanupOperators_grammatical
    (hsound : ∀ token ∈ tokens, token.Sound) (hne : cleanupOperators tokens ≠ []) :
    Grammatical (cleanupOperators tokens) := by
  cases h : (tokens.dropWhile Token.isOp).rdropWhile Token.isOp with
  | nil => exact absurd (by simp [cleanupOperators, h]) hne
  | cons first rest =>
    have hfirst : first.isOp = false := by
      refine not_head_dropWhile_rdropWhile (p := Token.isOp) (q := Token.isOp) (l := tokens) ?_
      simp [h]
    have hkept : ∀ token ∈ first :: rest, token.Sound := fun token htoken ↦ by
      refine hsound token ((dropWhile_sublist Token.isOp).subset ?_)
      exact ( rdropWhile_prefix Token.isOp _).subset (h ▸ htoken)
    rw [cleanupOperators_eq_merged h] at hne ⊢
    refine grammatical_of_wellPlaced ⟨hne, ?_, ?_, isChain_merged first rest⟩ (sound_merged hkept)
    · obtain ⟨head, after, hmerged, hhead⟩ := merged_head first rest
      simp [hmerged, hhead, hfirst]
    · intro token htoken
      have hmerged := merged_last first rest
      rw [Option.mem_def.mp htoken, getLast?_eq_getLast_of_ne_nil (cons_ne_nil first rest)]
        at hmerged
      have hlast := rdropWhile_last_not Token.isOp (tokens.dropWhile Token.isOp) (by simp [h])
      simp only [h] at hlast
      simpa [hlast] using hmerged

theorem cleanupOperators_of_wellPlaced (h : WellPlaced tokens) :
    cleanupOperators tokens = tokens := by
  have htrimmed : (tokens.dropWhile Token.isOp).rdropWhile Token.isOp = tokens := by
    rw [dropWhile_eq_self_iff.mpr, rdropWhile_eq_self_iff.mpr]
    · intro hne
      simp [h.last _ (getLast?_eq_getLast_of_ne_nil hne)]
    · intro hlength
      cases tokens with
      | nil => exact absurd rfl h.ne_nil
      | cons first rest => simp [h.head first rfl]
  cases tokens with
  | nil => exact absurd rfl h.ne_nil
  | cons first rest => rw [cleanupOperators_eq_merged htrimmed, merged_of_isChain h.chain]

theorem removedEmptyParens_append (left right : List (Token Filter)) :
    removedEmptyParens (left ++ right) = removedEmptyParens left ++ removedEmptyParens right := by
  fun_induction removedEmptyParens left <;> simp [removedEmptyParens, *]

theorem sound_removedEmptyParens (tokens : List (Token Filter)) :
    ∀ token ∈ removedEmptyParens tokens, token.Sound := by
  fun_induction removedEmptyParens tokens with
  | case1 => simp
  | case2 children rest hempty ihchildren ihrest => exact ihrest
  | case3 children rest hne ihchildren ihrest =>
    rw [forall_mem_cons]
    exact ⟨cleanupOperators_grammatical ihchildren hne, ihrest⟩
  | case4 token rest hparen ih =>
    rw [forall_mem_cons]
    refine ⟨?_, ih⟩
    cases token with
    | paren children => exact (hparen children rfl).elim
    | filter | op => trivial

theorem filters_removedEmptyParens (tokens : List (Token Filter)) :
    filters (removedEmptyParens tokens) = filters tokens := by
  fun_induction removedEmptyParens tokens with
  | case1 => rfl
  | case2 children rest hempty ihchildren ihrest =>
    rw [← filters_cleanupOperators, hempty] at ihchildren
    simp [filters, ← ihchildren, ihrest]
  | case3 children rest hne ihchildren ihrest =>
    simp [filters, filters_cleanupOperators, ihchildren, ihrest]
  | case4 token rest hparen ih =>
    cases token with
    | paren children => exact (hparen children rfl).elim
    | filter | op => simp [filters, ih]

theorem removedEmptyParens_of_grammatical (h : Grammatical tokens) :
    removedEmptyParens tokens = tokens := by
  induction h with
  | filter filter => simp [removedEmptyParens]
  | paren hchildren ih =>
    have hplaced := ((grammatical_iff _).mp hchildren).1
    simp [removedEmptyParens, ih, cleanupOperators_of_wellPlaced hplaced, hplaced.ne_nil]
  | juxtaposed _ _ ihleft ihright => rw [removedEmptyParens_append, ihleft, ihright]
  | operator operator _ _ ihleft ihright =>
    rw [removedEmptyParens_append, ihleft, removedEmptyParens, ihright]
    simp

theorem cleanupSearchQuery_of_grammatical
    (h : Grammatical tokens) : cleanupSearchQuery tokens = tokens := by
  rw [cleanupSearchQuery, removedEmptyParens_of_grammatical h,
    cleanupOperators_of_wellPlaced ((grammatical_iff tokens).mp h).1]

theorem cleanupSearchQuery_eq_nil_or_grammatical (tokens : List (Token Filter)) :
    cleanupSearchQuery tokens = [] ∨ Grammatical (cleanupSearchQuery tokens) :=
  or_iff_not_imp_left.mpr (cleanupOperators_grammatical (sound_removedEmptyParens tokens))

theorem filters_cleanupSearchQuery (tokens : List (Token Filter)) :
    filters (cleanupSearchQuery tokens) = filters tokens := by
  rw [cleanupSearchQuery, filters_cleanupOperators, filters_removedEmptyParens]

/-- Whatever tokens there are: the cleanup leaves a query or nothing, with all the filters in their
order, and has nothing left to do. -/
theorem cleanupSearchQuery_repairs (tokens : List (Token Filter)) :
    (cleanupSearchQuery tokens = [] ∨ Grammatical (cleanupSearchQuery tokens)) ∧
      filters (cleanupSearchQuery tokens) = filters tokens ∧
      cleanupSearchQuery (cleanupSearchQuery tokens) = cleanupSearchQuery tokens := by
  have hresult := cleanupSearchQuery_eq_nil_or_grammatical tokens
  refine ⟨hresult, filters_cleanupSearchQuery tokens, ?_⟩
  rcases hresult with hnil | hgrammatical
  · rw [hnil]
    simp [cleanupSearchQuery, removedEmptyParens, cleanupOperators]
  · exact cleanupSearchQuery_of_grammatical hgrammatical

def removeFilters (keep : Filter → Bool) : List (Token Filter) → List (Token Filter)
  | [] => []
  | .filter filter :: rest =>
    if keep filter then .filter filter :: removeFilters keep rest else removeFilters keep rest
  | .paren children :: rest => .paren (removeFilters keep children) :: removeFilters keep rest
  | .op operator :: rest => .op operator :: removeFilters keep rest

theorem filters_removeFilters (keep : Filter → Bool) (tokens : List (Token Filter)) :
    filters (removeFilters keep tokens) = (filters tokens).filter keep := by
  fun_induction removeFilters keep tokens <;> simp_all [filters]

theorem removeFilters_eq_self {keep : Filter → Bool} {tokens : List (Token Filter)}
    (h : ∀ filter ∈ filters tokens, keep filter = true) : removeFilters keep tokens = tokens := by
  fun_induction removeFilters keep tokens with
  | case3 filter rest hkeep ih => exact absurd (h filter (by simp [filters])) hkeep
  | _ => simp_all [filters]

/-- A way to take filters out of queries: it leaves a query or nothing, with the filters that are
kept in their order, changes nothing in a query that has no others, and nothing the second time. -/
structure Prunes (keep : Filter → Bool) (prune : List (Token Filter) → List (Token Filter)) :
    Prop where
  query : ∀ tokens, prune tokens = [] ∨ Grammatical (prune tokens)
  filters_eq : ∀ tokens, filters (prune tokens) = (filters tokens).filter keep
  eq_self : ∀ tokens, Grammatical tokens → (∀ filter ∈ filters tokens, keep filter = true) →
    prune tokens = tokens
  twice : ∀ tokens, prune (prune tokens) = prune tokens

theorem prunes_cleanupSearchQuery (keep : Filter → Bool) :
    Prunes keep fun tokens ↦ cleanupSearchQuery (removeFilters keep tokens) := by
  have hfilters (tokens : List (Token Filter)) :
      filters (cleanupSearchQuery (removeFilters keep tokens)) = (filters tokens).filter keep :=
    (filters_cleanupSearchQuery _).trans (filters_removeFilters keep tokens)
  have hself (tokens : List (Token Filter)) (hquery : Grammatical tokens)
      (hkeep : ∀ filter ∈ filters tokens, keep filter = true) :
      cleanupSearchQuery (removeFilters keep tokens) = tokens := by
    rw [removeFilters_eq_self hkeep, cleanupSearchQuery_of_grammatical hquery]
  have hquery (tokens : List (Token Filter)) :=
    cleanupSearchQuery_eq_nil_or_grammatical (removeFilters keep tokens)
  refine ⟨hquery, hfilters, hself, fun tokens ↦ ?_⟩
  rcases hquery tokens with hnil | hquery
  · rw [hnil]
    simp [removeFilters, cleanupSearchQuery, removedEmptyParens, cleanupOperators]
  · refine hself _ hquery fun filter hfilter ↦ ?_
    rw [hfilters] at hfilter
    exact of_mem_filter hfilter

section Fields

variable {Other Aggregate : Type}

/-- `_STANDARD_METRIC_FIELDS` -/
def standardMetricFields : List String :=
  ["release", "dist", "environment", "transaction", "platform", "transaction.status",
    "transaction.op", "http.method", "http.status_code", "browser.name", "os.name",
    "geo.country_code"]

/-- `_IGNORED_METRIC_FIELDS` -/
def ignoredMetricFields : List String := ["project", "timestamp.to_day", "timestamp.to_hour"]

/-- `_IGNORED_METRIC_CONDITION` -/
def ignoredMetricCondition : List (List Char) := ["event.type=transaction".toList]

/-- `SearchFilter.__str__`, with how a value that is no text prints. -/
def strFilter (strValue : Other → List Char) (filter : SearchFilter Other) : List Char :=
  filter.key.toList ++ filter.operator.toList ++
    match filter.value with
    | .text value => value
    | .other value => strValue value

/-- `_remove_on_demand_search_filters`; a filter on an aggregate is no `SearchFilter`, and stays. -/
def removeOnDemandSearchFilters :
    List (Token (SearchFilter Other ⊕ Aggregate)) → List (Token (SearchFilter Other ⊕ Aggregate)) :=
  removeFilters (Sum.elim (fun filter ↦ filter.key ∈ standardMetricFields) fun _ ↦ true)

/-- `_remove_blacklisted_search_filters` -/
def removeBlacklistedSearchFilters (strValue : Other → List Char) :
    List (Token (SearchFilter Other ⊕ Aggregate)) → List (Token (SearchFilter Other ⊕ Aggregate)) :=
  removeFilters (Sum.elim
    (fun filter ↦ filter.key ∉ ignoredMetricFields ∧
      strFilter strValue filter ∉ ignoredMetricCondition)
    fun _ ↦ true)

/-- `to_standard_metrics_tokens` -/
def toStandardMetricsTokens (tokens : List (Token (SearchFilter Other ⊕ Aggregate))) :
    List (Token (SearchFilter Other ⊕ Aggregate)) :=
  cleanupSearchQuery (removeOnDemandSearchFilters tokens)

/-- Of a query for on-demand metrics what is about standard fields or aggregates is left, and of
one from which a specification is made what is not ignored. -/
theorem prunes_toStandardMetricsTokens (strValue : Other → List Char) :
    Prunes (Sum.elim (fun filter ↦ filter.key ∈ standardMetricFields) fun _ ↦ true)
        (@toStandardMetricsTokens Other Aggregate) ∧
      Prunes (Sum.elim (fun filter ↦ filter.key ∉ ignoredMetricFields ∧
          strFilter strValue filter ∉ ignoredMetricCondition) fun _ ↦ true)
        fun tokens : List (Token (SearchFilter Other ⊕ Aggregate)) ↦
          cleanupSearchQuery (removeBlacklistedSearchFilters strValue tokens) :=
  ⟨prunes_cleanupSearchQuery _, prunes_cleanupSearchQuery _⟩

end Fields

end Sentry.Extraction.QueryCleanup
