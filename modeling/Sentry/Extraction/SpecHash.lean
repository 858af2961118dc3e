import Sentry.Extraction.OnDemandMetricSpec
import Sentry.Extraction.QueryMeaning

/-!
# The hash identifies the metric

The text that is hashed has the field, the query and the groups of a metric between semicolons. What
Python prints has no semicolon outside of a literal, so the parts are found from the text
(`identified`). The tag of the environment that the first version adds to a dynamic query is not in
the text: a simple and a dynamic query can have one hash (`not_identified`).
-/

namespace Sentry.Extraction

open Library List

/-! ### Conditions as dictionaries -/

theorem Element.toPython_injective : Function.Injective Element.toPython := by
  intro element element' h
  cases element <;> cases element' <;> simp_all [Element.toPython]

theorem RawValue.toPython_injective : Function.Injective RawValue.toPython := by
  intro value value' h
  rcases value with text | (number | date | elements) <;>
    rcases value' with text' | (number' | date' | elements') <;>
    simp only [RawValue.toPython, Python.Value.str.injEq, Python.Value.number.injEq,
      Python.Value.date.injEq, Python.Value.list.injEq, reduceCtorEq] at h
  · rw [h]
  · rw [h]
  · rw [h]
  · rw [map_injective_iff.mpr Element.toPython_injective h]

theorem RawValue.toPython_ne_none (value : RawValue OtherValue) : value.toPython ≠ .none := by
  rcases value with text | (number | date | elements) <;> simp [RawValue.toPython]

theorem getD_toPython_injective {value value' : Option (RawValue OtherValue)}
    (h : (value.map RawValue.toPython).getD .none = (value'.map RawValue.toPython).getD .none) :
    value = value' := by
  cases value with
  | none =>
    cases value' with
    | none => rfl
    | some value' => exact absurd h.symm value'.toPython_ne_none
  | some value =>
    cases value' with
    | none => exact absurd h value.toPython_ne_none
    | some value' => exact congrArg some (RawValue.toPython_injective h)

theorem CompareOp.text_injective {op op' : CompareOp} (h : op.text = op'.text) : op = op' := by
  cases op <;> cases op' <;> simp_all [CompareOp.text]

namespace RuleCondition

mutual

theorem toPython_inj : (condition condition' : RuleCondition OtherValue) →
    toPython condition = toPython condition' → condition = condition'
  | compare op name value, condition', h => by
    cases condition' with
    | compare op' name' value' =>
      simp only [toPython, Python.Value.dict.injEq, List.cons.injEq, Prod.mk.injEq,
        Python.Value.str.injEq, true_and, and_true] at h
      obtain ⟨hop, hname, hvalue⟩ := h
      rw [CompareOp.text_injective hop, String.toList_inj.mp hname, getD_toPython_injective hvalue]
    | glob name' value' => cases op <;> simp [toPython, CompareOp.text] at h
    | and | or | not => simp [toPython] at h
  | glob name value, condition', h => by
    cases condition' with
    | compare op' name' value' => cases op' <;> simp [toPython, CompareOp.text] at h
    | glob name' value' =>
      simp only [toPython, Python.Value.dict.injEq, List.cons.injEq, Prod.mk.injEq,
        Python.Value.str.injEq, Python.Value.list.injEq, true_and, and_true] at h
      have hinj : Function.Injective Python.Value.str := fun text text' ↦ Python.Value.str.inj
      rw [String.toList_inj.mp h.1, map_injective_iff.mpr hinj h.2]
    | and | or | not => simp [toPython] at h
  | and inner, condition', h => by
    cases condition' with
    | and inner' =>
      simp only [toPython, Python.Value.dict.injEq, List.cons.injEq, Prod.mk.injEq,
        Python.Value.list.injEq, true_and, and_true] at h
      rw [toPythons_inj inner inner' h]
    | compare | glob | or | not => simp [toPython] at h
  | or inner, condition', h => by
    cases condition' with
    | or inner' =>
      simp only [toPython, Python.Value.dict.injEq, List.cons.injEq, Prod.mk.injEq,
        Python.Value.list.injEq, true_and, and_true] at h
      rw [toPythons_inj inner inner' h]
    | compare | glob | and | not => simp [toPython] at h
  | not inner, condition', h => by
    cases condition' with
    | not inner' =>
      simp only [toPython, Python.Value.dict.injEq, List.cons.injEq, Prod.mk.injEq, true_and,
        and_true] at h
      rw [toPython_inj inner inner' h]
    | compare | glob | and | or => simp [toPython] at h

theorem toPythons_inj : (conditions conditions' : List (RuleCondition OtherValue)) →
    toPythons conditions = toPythons conditions' → conditions = conditions'
  | [], [], _ => rfl
  | [], _ :: _, h => by simp [toPythons] at h
  | _ :: _, [], h => by simp [toPythons] at h
  | condition :: rest, condition' :: rest', h => by
    simp only [toPythons, List.cons.injEq] at h
    rw [toPython_inj condition condition' h.1, toPythons_inj rest rest' h.2]

end

def unsort : Python.Value → Python.Value
  | .dict [name, op, value] => .dict [op, name, value]
  | .dict [(key, inner), op] => .dict [op, (key, unsort inner)]
  | value => value

theorem deepSorted_value (value : Option (RawValue OtherValue)) :
    deepSorted ((value.map RawValue.toPython).getD .none) =
      (value.map RawValue.toPython).getD .none := by
  rcases value with _ | (text | (number | date | elements)) <;> rfl

theorem unsort_deepSorted :
    (condition : RuleCondition OtherValue) → unsort (deepSorted (toPython condition)) =
      toPython condition
  | compare op name value => by
    show unsort (.dict [(nameKey, _), (opKey, _), (valueKey, deepSorted _)]) = _
    rw [deepSorted_value]
    rfl
  | glob name value => rfl
  | and inner => rfl
  | or inner => rfl
  | not inner => by
    show Python.Value.dict [_, (innerKey, unsort (deepSorted (toPython inner)))] = _
    rw [unsort_deepSorted inner]
    rfl

theorem deepSorted_injective {condition condition' : Option (RuleCondition OtherValue)}
    (h : deepSorted ((condition.map toPython).getD .none) =
      deepSorted ((condition'.map toPython).getD .none)) : condition = condition' := by
  have hne : ∀ condition : RuleCondition OtherValue, deepSorted (toPython condition) ≠ .none := by
    intro condition
    cases condition <;> simp [toPython, deepSorted]
  cases condition with
  | none =>
    cases condition' with
    | none => rfl
    | some condition' => exact absurd h.symm (hne condition')
  | some condition =>
    cases condition' with
    | none => exact absurd h (hne condition)
    | some condition' =>
      have hsame := congrArg unsort h
      simp only [Option.map_some, Option.getD_some, unsort_deepSorted] at hsame
      rw [toPython_inj condition condition' hsame]

end RuleCondition

/-! ### The parts of the text -/

section Text

variable {printable : Char → Bool}

def hashedText (printable : Char → Bool) (field : List Char) (query : Python.Value)
    (groupbys : List String) : List Char :=
  let strToHash := field ++ ';' :: Python.repr printable query
  if groupbys = [] then strToHash
  else strToHash ++ ';' :: Python.repr printable
    (.list ((groupbys.insertionSort (· ≤ ·)).map fun groupby ↦ .str groupby.toList))

theorem isSeparator_semicolon : Quoted.IsSeparator ';' := by
  refine ⟨?_, ?_, ?_⟩ <;> decide

theorem eq_of_append_repr {first first' : List Char} {last last' : Python.Value}
    (h : first ++ ';' :: Python.repr printable last =
      first' ++ ';' :: Python.repr printable last') : first = first' ∧ last = last' := by
  obtain ⟨hfirst, hlast⟩ := Quoted.eq_of_append_separator isSeparator_semicolon
    (Python.balanced_repr last) (Python.balanced_repr last') h
  exact ⟨hfirst, Python.repr_injective hlast⟩

theorem perm_of_insertionSort {groupbys groupbys' : List String}
    (h : (groupbys.insertionSort (· ≤ ·)).map (fun groupby ↦ Python.Value.str groupby.toList) =
      (groupbys'.insertionSort (· ≤ ·)).map fun groupby ↦ Python.Value.str groupby.toList) :
    groupbys.Perm groupbys' := by
  have hinj : Function.Injective fun groupby : String ↦ Python.Value.str groupby.toList :=
    fun groupby groupby' heq ↦ String.toList_inj.mp (Python.Value.str.inj heq)
  have hsort := map_injective_iff.mpr hinj h
  have hperm := (perm_insertionSort (· ≤ ·) groupbys).symm
  rw [hsort] at hperm
  exact hperm.trans (perm_insertionSort _ _)

theorem parts_of_hashedText {field field' : List Char} {query query' : Python.Value}
    (hquery : ∀ elements, query ≠ .list elements) (hquery' : ∀ elements, query' ≠ .list elements)
    {groupbys groupbys' : List String}
    (h : hashedText printable field query groupbys = hashedText printable field' query' groupbys') :
    field = field' ∧ query = query' ∧ groupbys.Perm groupbys' := by
  unfold hashedText at h
  by_cases hnil : groupbys = []
  · by_cases hnil' : groupbys' = []
    · rw [if_pos hnil, if_pos hnil'] at h
      obtain ⟨hfield, heq⟩ := eq_of_append_repr h
      exact ⟨hfield, heq, hnil ▸ hnil' ▸ List.Perm.refl _⟩
    · rw [if_pos hnil, if_neg hnil'] at h
      exact absurd (eq_of_append_repr h).2 (hquery _)
  · by_cases hnil' : groupbys' = []
    · rw [if_neg hnil, if_pos hnil'] at h
      exact absurd (eq_of_append_repr h).2.symm (hquery' _)
    · rw [if_neg hnil, if_neg hnil'] at h
      obtain ⟨hfirst, hlast⟩ := eq_of_append_repr h
      obtain ⟨hfield, heq⟩ := eq_of_append_repr hfirst
      exact ⟨hfield, heq, perm_of_insertionSort (Python.Value.list.inj hlast)⟩

end Text

/-! ### Fields -/

def distributionOps : List String := ["avg", "max", "p50", "p75", "p90", "p95", "p99"]

def derivedTypes : List (String × String) :=
  [("on_demand_epm", "c"), ("on_demand_eps", "c"), ("on_demand_failure_count", "c"),
    ("on_demand_failure_rate", "c"), ("on_demand_apdex", "c"), ("on_demand_count_unique", "s"),
    ("on_demand_count_web_vitals", "c"), ("on_demand_user_misery", "s")]

def operationTypes : List (String × String) :=
  ("sum", "c") :: distributionOps.map (·, "d") ++ derivedTypes

theorem mem_distributionOps_of_percentile {args : List String} {op : String}
    (h : getOp "percentile" args = .ok op) : op ∈ distributionOps := by
  rw [getOp, if_pos rfl] at h
  rcases hpercentile : getPercentileOp args with error | percentileOp
  · rw [hpercentile] at h
    exact absurd h (by simp [bind, Except.bind])
  · rw [hpercentile] at h
    change metricOperation (percentileOp.getD "percentile") = .ok op at h
    have hop : percentileOp ∈ [some "p50", some "p75", some "p90", some "p95", some "p99",
        some "p100", none] := by
      rcases args with _ | ⟨column, _ | ⟨percentile, _ | ⟨third, rest⟩⟩⟩
      · simp [getPercentileOp] at hpercentile
      · simp [getPercentileOp] at hpercentile
      · rw [getPercentileOp, Except.ok.injEq] at hpercentile
        rw [← hpercentile]
        split_ifs <;> simp
      · simp [getPercentileOp] at hpercentile
    have hall : ∀ percentileOp ∈ [some "p50", some "p75", some "p90", some "p95", some "p99",
        some "p100", none], ∀ op ∈ (metricOperation (percentileOp.getD "percentile")).toOption,
        op ∈ distributionOps := by
      decide
    exact hall percentileOp hop op (by rw [h]; rfl)

theorem mem_operationTypes {function op metricType : String} {args : List String}
    (hop : getOp function args = .ok op) (htype : getMetricType function = .ok metricType) :
    (op, metricType) ∈ operationTypes := by
  by_cases hpercentile : function = "percentile"
  · subst hpercentile
    obtain rfl : "d" = metricType := Except.ok.inj htype
    have hmem := mem_distributionOps_of_percentile hop
    refine mem_cons_of_mem _ (mem_append_left _ ?_)
    exact mem_map_of_mem hmem
  · rw [getOp, if_neg hpercentile] at hop
    change metricOperation function = .ok op at hop
    have hall : ∀ item ∈ aggregateToMetricType, ∀ op ∈ (metricOperation item.1).toOption,
        (op, item.2) ∈ operationTypes := by
      decide
    rw [getMetricType] at htype
    cases hget : getItem aggregateToMetricType function with
    | none => simp [hget] at htype
    | some found =>
      rw [hget] at htype
      obtain rfl : found = metricType := Except.ok.inj htype
      exact hall (function, found) (mem_of_getItem hget) op (by rw [hop]; rfl)

/-- What a metric can be: derived, a count, or a distribution of a mapped field. -/
inductive OnDemandMetricSpec.Shape (spec : OnDemandMetricSpec) : Prop
  | derived (hop : (spec.op, spec.metricType) ∈ derivedTypes)
      (hargs : spec.op ∈ noArgMetrics → spec.arguments = [])
  | count (hop : spec.op = "sum") (htype : spec.metricType = "c") (hargs : spec.arguments = [])
  | distribution {name : String} {rest : List Char} (hop : spec.op ∈ distributionOps)
      (htype : spec.metricType = "d") (hname : name.toList = 'e' :: rest)
      (hargs : spec.arguments = [name])

section

variable {resolveColumn : String → String}

theorem exists_toList_mapFieldName {searchKey name : String}
    (h : mapFieldName resolveColumn searchKey = .ok name) : ∃ rest, name.toList = 'e' :: rest := by
  have happend : ∀ (field : String), ∃ rest, ("event." ++ field).toList = 'e' :: rest := by
    intro field
    rw [String.toList_append]
    exact ⟨_, rfl⟩
  unfold mapFieldName at h
  split at h
  · rw [← Except.ok.inj h]
    exact happend _
  · split_ifs at h
    · rw [← Except.ok.inj h, String.append_assoc]
      exact happend _
    · rw [← Except.ok.inj h]
      exact happend _
    · rw [← Except.ok.inj h, String.toList_append]
      exact ⟨_, rfl⟩

theorem parseArguments_of_counter {op : String}
    {args arguments : List String} (hop : op ∉ multipleArgsMetrics)
    (h : parseArguments resolveColumn op "c" args = .ok arguments) : arguments = [] := by
  unfold parseArguments at h
  rw [if_pos (by simp [hop])] at h
  exact (Except.ok.inj h).symm

theorem parseArguments_of_distribution {op : String}
    {args arguments : List String} (hop : op ∉ multipleArgsMetrics)
    (h : parseArguments resolveColumn op "d" args = .ok arguments) :
    ∃ (name : String) (rest : List Char), name.toList = 'e' :: rest ∧ arguments = [name] := by
  unfold parseArguments at h
  cases args with
  | nil => simp at h
  | cons first rest =>
    simp only [if_neg hop] at h
    cases hname : mapFieldName resolveColumn first with
    | error error =>
      rw [hname] at h
      exact absurd h (by simp [bind, Except.bind])
    | ok name =>
      rw [hname] at h
      obtain ⟨tail, htail⟩ := exists_toList_mapFieldName hname
      exact ⟨name, tail, htail, (Except.ok.inj h).symm⟩

theorem OnDemandMetricSpec.shape_of_create {field : String} {query : MetricQuery OtherValue}
    {groupbys : List String} {flags : Finset String} {spec : OnDemandMetricSpec}
    (h : OnDemandMetricSpec.create resolveColumn field query groupbys flags = .ok spec) :
    spec.Shape := by
  unfold create at h
  rcases hop : getOp query.function query.arguments with error | op
  · rw [hop] at h
    exact absurd h (by simp [bind, Except.bind])
  · rcases htype : getMetricType query.function with error | metricType
    · rw [hop, htype] at h
      exact absurd h (by simp [bind, Except.bind])
    · rcases hargs : parseArguments resolveColumn op metricType query.arguments with
        error | arguments
      · rw [hop, htype] at h
        simp [bind, Except.bind, hargs] at h
      · rw [hop, htype] at h
        simp only [bind, Except.bind, hargs, pure, Except.pure, Except.ok.injEq] at h
        have hmem := mem_operationTypes hop htype
        subst h
        rcases mem_append.mp hmem with hmem | hmem
        · rcases mem_cons.mp hmem with heq | hmem
          · obtain ⟨rfl, rfl⟩ := Prod.mk.inj heq
            exact .count rfl rfl (parseArguments_of_counter (by decide) hargs)
          · obtain ⟨op', hop', heq⟩ := mem_map.mp hmem
            obtain ⟨rfl, rfl⟩ := Prod.mk.inj heq
            have hnot : ∀ op ∈ distributionOps, op ∉ multipleArgsMetrics := by decide
            obtain ⟨name, rest, hname, heq⟩ := parseArguments_of_distribution (hnot _ hop') hargs
            exact .distribution hop' rfl hname heq
        · refine .derived hmem fun hnoArg ↦ ?_
          have hall : ∀ item ∈ derivedTypes, item.1 ∈ noArgMetrics →
              item.2 = "c" ∧ item.1 ∉ multipleArgsMetrics := by decide
          obtain ⟨htype', hnot⟩ := hall _ hmem hnoArg
          obtain rfl : metricType = "c" := htype'
          exact parseArguments_of_counter hnot hargs

end

/-! ### The field is found from its hashed text -/

section Fields

variable {op op' : String} {args args' : List String}

def NoColon (args : List String) : Prop := ∀ arg ∈ args, ':' ∉ arg.toList

theorem head?_flatMap_colon {c : Char}
    (hc : c ∈ (args.flatMap fun arg ↦ ':' :: arg.toList).head?) : ¬ c ≠ ':' := by
  cases args with
  | nil => simp at hc
  | cons arg rest =>
    obtain rfl : ':' = c := by simpa using hc
    exact not_not.mpr rfl

theorem eq_of_flatMap_colon (hargs : NoColon args) (hargs' : NoColon args')
    (h : (args.flatMap fun arg ↦ ':' :: arg.toList) =
      args'.flatMap fun arg ↦ ':' :: arg.toList) : args = args' := by
  induction args generalizing args' with
  | nil =>
    cases args' with
    | nil => rfl
    | cons arg' rest' => simp at h
  | cons arg rest ih =>
    cases args' with
    | nil => simp at h
    | cons arg' rest' =>
      have hne : ∀ {arg : String}, ':' ∉ arg.toList → ∀ c ∈ arg.toList, c ≠ ':' :=
        fun hmem c hc heq ↦ hmem (heq ▸ hc)
      obtain ⟨heq, hrest⟩ := Python.eq_of_append_of_stop (hne (hargs arg mem_cons_self))
        (hne (hargs' arg' mem_cons_self)) (fun c hc ↦ head?_flatMap_colon hc)
        (fun c hc ↦ head?_flatMap_colon hc) (List.cons.inj h).2
      rw [String.toList_inj.mp heq, ih (fun a ha ↦ hargs a (mem_cons_of_mem _ ha))
        (fun a ha ↦ hargs' a (mem_cons_of_mem _ ha)) hrest]

theorem eq_of_append_flatMap_colon (hop : ':' ∉ op.toList) (hop' : ':' ∉ op'.toList)
    (hargs : NoColon args) (hargs' : NoColon args')
    (h : (op.toList ++ args.flatMap fun arg ↦ ':' :: arg.toList) =
      op'.toList ++ args'.flatMap fun arg ↦ ':' :: arg.toList) : op = op' ∧ args = args' := by
  have hne : ∀ {op : String}, ':' ∉ op.toList → ∀ c ∈ op.toList, c ≠ ':' :=
    fun hmem c hc heq ↦ hmem (heq ▸ hc)
  obtain ⟨heq, hrest⟩ := Python.eq_of_append_of_stop (hne hop) (hne hop')
    (fun c hc ↦ head?_flatMap_colon hc) (fun c hc ↦ head?_flatMap_colon hc) h
  exact ⟨String.toList_inj.mp heq, eq_of_flatMap_colon hargs hargs' hrest⟩

end Fields

namespace OnDemandMetricSpec

variable {spec spec' : OnDemandMetricSpec}

/-- Metrics that are extracted alike, as far as their fields go. -/
structure SameField (spec spec' : OnDemandMetricSpec) : Prop where
  metricType : spec.metricType = spec'.metricType
  arguments : spec.arguments = spec'.arguments
  op : spec.op = spec'.op ∨ spec.op ∈ distributionOps ∧ spec'.op ∈ distributionOps

theorem derivedTypes_spec :
    ∀ item ∈ derivedTypes, (item.1 ∈ noArgMetrics ∨ item.1 ∈ multipleArgsMetrics) ∧
      item.1.toList.head? = some 'o' ∧ ':' ∉ item.1.toList ∧
      ∀ item' ∈ derivedTypes, item.1 = item'.1 → item.2 = item'.2 := by
  decide

theorem fieldForHash_of_derived (hop : (spec.op, spec.metricType) ∈ derivedTypes)
    (hargs : spec.op ∈ noArgMetrics → spec.arguments = []) :
    spec.fieldForHash = spec.op.toList ++ spec.arguments.flatMap fun arg ↦ ':' :: arg.toList := by
  rw [fieldForHash]
  by_cases hnoArg : spec.op ∈ noArgMetrics
  · rw [if_pos hnoArg, hargs hnoArg]
    exact (append_nil _).symm
  · rw [if_neg hnoArg, if_pos ((derivedTypes_spec _ hop).1.resolve_left hnoArg)]

theorem fieldForHash_of_count (hop : spec.op = "sum") (hargs : spec.arguments = []) :
    spec.fieldForHash = ['N', 'o', 'n', 'e'] := by
  rw [fieldForHash, hop, hargs]
  rfl

theorem fieldForHash_of_distribution {name : String} (hop : spec.op ∈ distributionOps)
    (hargs : spec.arguments = [name]) : spec.fieldForHash = name.toList := by
  have hall : ∀ op ∈ distributionOps, op ∉ noArgMetrics ∧ op ∉ multipleArgsMetrics := by decide
  obtain ⟨hnot, hnot'⟩ := hall _ hop
  rw [fieldForHash, if_neg hnot, if_neg hnot', hargs]

theorem head?_of_derived (hop : (spec.op, spec.metricType) ∈ derivedTypes)
    (hargs : spec.op ∈ noArgMetrics → spec.arguments = []) :
    spec.fieldForHash.head? = some 'o' := by
  rw [fieldForHash_of_derived hop hargs, head?_append, (derivedTypes_spec _ hop).2.1]
  rfl

theorem head?_of_distribution {name : String} {rest : List Char} (hop : spec.op ∈ distributionOps)
    (hname : name.toList = 'e' :: rest) (hargs : spec.arguments = [name]) :
    spec.fieldForHash.head? = some 'e' := by
  rw [fieldForHash_of_distribution hop hargs, hname]
  rfl

/-- The arguments of a derived metric without colons. -/
def ColonFree (spec : OnDemandMetricSpec) : Prop :=
  spec.op ∈ multipleArgsMetrics → NoColon spec.arguments

theorem ColonFree.noColon (h : spec.ColonFree) (hop : (spec.op, spec.metricType) ∈ derivedTypes)
    (hargs : spec.op ∈ noArgMetrics → spec.arguments = []) : NoColon spec.arguments := by
  rcases (derivedTypes_spec _ hop).1 with hnoArg | hmultiple
  · rw [hargs hnoArg]
    simp [NoColon]
  · exact h hmultiple

theorem sameField_of_fieldForHash (h : spec.Shape) (h' : spec'.Shape) (hcolon : spec.ColonFree)
    (hcolon' : spec'.ColonFree) (heq : spec.fieldForHash = spec'.fieldForHash) :
    SameField spec spec' := by
  have hhead := congrArg List.head? heq
  cases h with
  | derived hop hargs =>
    rw [head?_of_derived hop hargs] at hhead
    cases h' with
    | derived hop' hargs' =>
      rw [fieldForHash_of_derived hop hargs, fieldForHash_of_derived hop' hargs'] at heq
      obtain ⟨-, -, hno, htype⟩ := derivedTypes_spec _ hop
      obtain ⟨hsame, harguments⟩ := eq_of_append_flatMap_colon hno (derivedTypes_spec _ hop').2.2.1
        (hcolon.noColon hop hargs) (hcolon'.noColon hop' hargs') heq
      exact ⟨htype _ hop' hsame, harguments, Or.inl hsame⟩
    | count hop' htype' hargs' =>
      rw [fieldForHash_of_count hop' hargs'] at hhead
      exact absurd hhead (by decide)
    | distribution hop' htype' hname' hargs' =>
      rw [head?_of_distribution hop' hname' hargs'] at hhead
      exact absurd hhead (by decide)
  | count hop htype hargs =>
    rw [fieldForHash_of_count hop hargs] at hhead
    cases h' with
    | derived hop' hargs' =>
      rw [head?_of_derived hop' hargs'] at hhead
      exact absurd hhead (by decide)
    | count hop' htype' hargs' =>
      exact ⟨htype.trans htype'.symm, hargs.trans hargs'.symm, Or.inl (hop.trans hop'.symm)⟩
    | distribution hop' htype' hname' hargs' =>
      rw [head?_of_distribution hop' hname' hargs'] at hhead
      exact absurd hhead (by decide)
  | distribution hop htype hname hargs =>
    rw [head?_of_distribution hop hname hargs] at hhead
    cases h' with
    | derived hop' hargs' =>
      rw [head?_of_derived hop' hargs'] at hhead
      exact absurd hhead (by decide)
    | count hop' htype' hargs' =>
      rw [fieldForHash_of_count hop' hargs'] at hhead
      exact absurd hhead (by decide)
    | distribution hop' htype' hname' hargs' =>
      rw [fieldForHash_of_distribution hop hargs, fieldForHash_of_distribution hop' hargs',
        String.toList_inj] at heq
      refine ⟨htype.trans htype'.symm, ?_, Or.inr ⟨hop, hop'⟩⟩
      rw [hargs, hargs', heq]

end OnDemandMetricSpec

/-! ### The same metric spec -/

/-- Both raise an error, or both return the same up to a relation. -/
def Agree {α : Type} (R : α → α → Prop) : Except Error α → Except Error α → Prop
  | .ok result, .ok result' => R result result'
  | .error _, .error _ => True
  | _, _ => False

/-- The same but for the order of the tags. -/
structure MetricSpec.Same (metricSpec metricSpec' : MetricSpec) : Prop where
  category : metricSpec.category = metricSpec'.category
  mri : metricSpec.mri = metricSpec'.mri
  field : metricSpec.field = metricSpec'.field
  tags : metricSpec.tags.Perm metricSpec'.tags
  condition : metricSpec.condition = metricSpec'.condition

section Agree

variable {α β : Type} {R : α → α → Prop} {S : β → β → Prop}

theorem agree_of_eq (hR : ∀ a, R a a) {x y : Except Error α} (h : x = y) : Agree R x y := by
  subst h
  cases x with
  | error error => trivial
  | ok a => exact hR a

theorem Agree.bind {x y : Except Error α} (h : Agree R x y) {f g : α → Except Error β}
    (hf : ∀ a b, x = .ok a → y = .ok b → R a b → Agree S (f a) (g b)) :
    Agree S (x >>= f) (y >>= g) := by
  cases x with
  | error error =>
    cases y with
    | error error' => trivial
    | ok b => exact absurd h id
  | ok a =>
    cases y with
    | error error' => exact absurd h id
    | ok b => exact hf a b rfl rfl h

theorem Agree.trans_perm {x y z : Except Error (List α)} (h : Agree List.Perm x y)
    (h' : Agree List.Perm y z) : Agree List.Perm x z := by
  cases x <;> cases y <;> cases z <;> simp_all [Agree]
  exact h.trans h'

theorem agree_mapM {l l' : List α} (h : l.Perm l') (f : α → Except Error β) :
    Agree List.Perm (l.mapM f) (l'.mapM f) := by
  induction h with
  | nil => exact List.Perm.refl _
  | cons a _ ih =>
    rw [mapM_cons, mapM_cons]
    refine (agree_of_eq (R := (· = ·)) (fun _ ↦ rfl) rfl).bind fun b b' _ _ heq ↦ ?_
    subst heq
    exact ih.bind fun rest rest' _ _ hrest ↦ hrest.cons b
  | swap a b l =>
    simp only [mapM_cons]
    cases f a with
    | error error => cases f b <;> cases l.mapM f <;> trivial
    | ok y =>
      cases f b with
      | error error => cases l.mapM f <;> trivial
      | ok z =>
        cases l.mapM f with
        | error error => trivial
        | ok rest => exact List.Perm.swap _ _ _
  | trans _ _ ih ih' => exact ih.trans_perm ih'

end Agree

theorem mem_of_mapM {α β : Type} {f : α → Except Error β} {l : List α} {result : List β}
    (h : l.mapM f = .ok result) {a : α} (ha : a ∈ l) {b : β} (hb : f a = .ok b) : b ∈ result := by
  induction l generalizing result with
  | nil => simp at ha
  | cons first rest ih =>
    rw [mapM_cons] at h
    cases hfirst : f first with
    | error error =>
      rw [hfirst] at h
      exact absurd h (by simp [bind, Except.bind])
    | ok c =>
      cases hrest : rest.mapM f with
      | error error =>
        rw [hfirst, hrest] at h
        exact absurd h (by simp [bind, Except.bind])
      | ok others =>
        rw [hfirst, hrest] at h
        obtain rfl : c :: others = result := Except.ok.inj h
        rcases mem_cons.mp ha with rfl | hmem
        · rw [hfirst, Except.ok.injEq] at hb
          exact mem_cons.mpr (Or.inl hb.symm)
        · exact mem_cons_of_mem _ (ih hrest hmem)

namespace OnDemandMetricSpec

section Identified

variable {printable : Char → Bool} {hash : List Char → String} {resolveColumn : String → String}
  {normalizeCountIfValue : String → String → Except Error (RawValue OtherValue)}
  {parseFloat : String → Except Error Python.Number} {timesFour : Python.Number → Python.Number}
  {satisfactoryMetric : String} {spec spec' : OnDemandMetricSpec}

/-- Whether the metric has the tag of the environment without grouping by it: a dynamic query of a
version without flags. -/
def AddsEnvironment (spec : OnDemandMetricSpec) : Prop :=
  spec.query.specType = .dynamicQuery ∧ spec.flags = ∅ ∧ "environment" ∉ spec.groupbys

def environmentTag : TagSpec := ⟨"environment", some "event.environment", none, none⟩

theorem tagForField_environment : tagForField resolveColumn "environment" = .ok environmentTag := by
  rfl

theorem environmentTags_eq (tags : List TagSpec) :
    spec.environmentTags resolveColumn tags =
      .ok (if (spec.query.specType = .dynamicQuery ∧ spec.flags = ∅) ∧
        tags.any (·.isFieldTag environmentTag) = false then [environmentTag] else []) := by
  rw [environmentTags, tagForField_environment]
  by_cases hdynamic : spec.query.specType = .dynamicQuery ∧ spec.flags = ∅
  · rw [if_pos hdynamic]
    cases hany : tags.any (·.isFieldTag environmentTag) with
    | true =>
      rw [if_neg (by simp)]
      exact congrArg Except.ok (if_pos hany)
    | false =>
      rw [if_pos ⟨hdynamic, rfl⟩]
      exact congrArg Except.ok (if_neg (by simp [hany]))
  · rw [if_neg hdynamic, if_neg fun h ↦ hdynamic h.1]

theorem addsEnvironment_of_any {tags tagsGroupbys : List TagSpec}
    (hgroupbys : spec.groupbys.mapM (tagForField resolveColumn) = .ok tagsGroupbys)
    (hsub : ∀ tag ∈ tagsGroupbys, tag ∈ tags)
    (h : (spec.query.specType = .dynamicQuery ∧ spec.flags = ∅) ∧
      tags.any (·.isFieldTag environmentTag) = false) : spec.AddsEnvironment := by
  refine ⟨h.1.1, h.1.2, fun hmem ↦ ?_⟩
  have htag := hsub _ (mem_of_mapM hgroupbys hmem tagForField_environment)
  have hany := List.any_eq_false.mp h.2 environmentTag htag
  exact hany (by rfl)

theorem agree_environmentTags (hadds : spec.AddsEnvironment ↔ spec'.AddsEnvironment)
    {tags tags' tagsGroupbys tagsGroupbys' : List TagSpec} (hperm : tags.Perm tags')
    (hgroupbys : spec.groupbys.mapM (tagForField resolveColumn) = .ok tagsGroupbys)
    (hgroupbys' : spec'.groupbys.mapM (tagForField resolveColumn) = .ok tagsGroupbys')
    (hsub : ∀ tag ∈ tagsGroupbys, tag ∈ tags) (hsub' : ∀ tag ∈ tagsGroupbys', tag ∈ tags') :
    spec.environmentTags resolveColumn tags = spec'.environmentTags resolveColumn tags' := by
  have hany : tags.any (·.isFieldTag environmentTag) = tags'.any (·.isFieldTag environmentTag) :=
    hperm.any_eq
  rw [environmentTags_eq, environmentTags_eq]
  refine congrArg Except.ok (if_congr ⟨fun h ↦ ?_, fun h ↦ ?_⟩ rfl rfl)
  · have hother := hadds.mp (addsEnvironment_of_any hgroupbys hsub h)
    exact ⟨⟨hother.1, hother.2.1⟩, hany ▸ h.2⟩
  · have hother := hadds.mpr (addsEnvironment_of_any hgroupbys' hsub' h)
    exact ⟨⟨hother.1, hother.2.1⟩, hany ▸ h.2⟩

theorem SameField.tagsConditions (h : SameField spec spec') :
    Extraction.tagsConditions resolveColumn parseFloat timesFour satisfactoryMetric spec.op
        spec.arguments =
      Extraction.tagsConditions resolveColumn parseFloat timesFour satisfactoryMetric spec'.op
        spec'.arguments := by
  rw [h.arguments]
  rcases h.op with heq | ⟨hop, hop'⟩
  · rw [heq]
  · have hall : ∀ op ∈ distributionOps, op ≠ "on_demand_apdex" ∧ op ≠ "on_demand_user_misery" ∧
        op ∉ ["on_demand_failure_count", "on_demand_failure_rate"] ∧
        op ≠ "on_demand_count_web_vitals" := by decide
    obtain ⟨h1, h2, h3, h4⟩ := hall _ hop
    obtain ⟨h1', h2', h3', h4'⟩ := hall _ hop'
    unfold Extraction.tagsConditions
    rw [if_neg h1, if_neg h2, if_neg h3, if_neg h4, if_neg h1', if_neg h2', if_neg h3', if_neg h4']

theorem SameField.fieldToExtract (h : SameField spec spec') :
    Extraction.fieldToExtract resolveColumn spec.op spec.arguments =
      Extraction.fieldToExtract resolveColumn spec'.op spec'.arguments := by
  rw [h.arguments]
  rcases h.op with heq | ⟨hop, hop'⟩
  · rw [heq]
  · have hall : ∀ op ∈ distributionOps,
        op ∉ ["on_demand_apdex", "on_demand_count_web_vitals"] ∧
        op ≠ "on_demand_user_misery" := by decide
    obtain ⟨h1, h2⟩ := hall _ hop
    obtain ⟨h1', h2'⟩ := hall _ hop'
    unfold Extraction.fieldToExtract
    rw [if_neg h1, if_neg h2, if_neg h1', if_neg h2']

theorem queryStrForHash_eq_ok {text : List Char}
    (h : spec.queryStrForHash printable resolveColumn normalizeCountIfValue = .ok text) :
    ∃ condition, spec.condition resolveColumn normalizeCountIfValue = .ok condition ∧
      text = hashedText printable spec.fieldForHash
        (deepSorted ((condition.map RuleCondition.toPython).getD .none)) spec.groupbys := by
  unfold queryStrForHash at h
  cases hcondition : spec.condition resolveColumn normalizeCountIfValue with
  | error error =>
    rw [hcondition] at h
    exact absurd h (by simp [bind, Except.bind])
  | ok condition =>
    rw [hcondition] at h
    exact ⟨condition, rfl, (Except.ok.inj h).symm⟩

theorem deepSorted_ne_list (condition : Option (RuleCondition OtherValue))
    (elements : List Python.Value) :
    deepSorted ((condition.map RuleCondition.toPython).getD .none) ≠ .list elements := by
  rcases condition with _ | condition
  · simp [deepSorted]
  · cases condition <;> simp [RuleCondition.toPython, deepSorted]

/-- Two metrics of a project whose derived fields have no colons in their arguments, and which both
have the tag of the environment without grouping by it or both do not, have the same metric spec, up
to the order of the tags, if the texts that are hashed are the same. -/
theorem identified {field field' : String} {query query' : MetricQuery OtherValue}
    {groupbys groupbys' : List String} {flags flags' : Finset String}
    (hcreate : create resolveColumn field query groupbys flags = .ok spec)
    (hcreate' : create resolveColumn field' query' groupbys' flags' = .ok spec')
    (hcolon : spec.ColonFree) (hcolon' : spec'.ColonFree)
    (hadds : spec.AddsEnvironment ↔ spec'.AddsEnvironment) {text : List Char}
    (htext : spec.queryStrForHash printable resolveColumn normalizeCountIfValue = .ok text)
    (htext' : spec'.queryStrForHash printable resolveColumn normalizeCountIfValue = .ok text) :
    Agree MetricSpec.Same
      (spec.toMetricSpec printable hash resolveColumn normalizeCountIfValue parseFloat timesFour
        satisfactoryMetric)
      (spec'.toMetricSpec printable hash resolveColumn normalizeCountIfValue parseFloat timesFour
        satisfactoryMetric) := by
  obtain ⟨condition, hcondition, heq⟩ := queryStrForHash_eq_ok htext
  obtain ⟨condition', hcondition', heq'⟩ := queryStrForHash_eq_ok htext'
  obtain ⟨hfield, hquery, hgroupbys⟩ := parts_of_hashedText (deepSorted_ne_list condition)
    (deepSorted_ne_list condition') (heq.symm.trans heq')
  obtain rfl := RuleCondition.deepSorted_injective hquery
  have hsame := sameField_of_fieldForHash (shape_of_create hcreate) (shape_of_create hcreate')
    hcolon hcolon' hfield
  unfold toMetricSpec
  rw [hsame.tagsConditions, htext, htext', hcondition, hcondition', hsame.fieldToExtract,
    hsame.metricType]
  refine (agree_of_eq (R := (· = ·)) (fun _ ↦ rfl) rfl).bind fun tags _ _ _ htags ↦ ?_
  subst htags
  refine (agree_mapM hgroupbys (tagForField resolveColumn)).bind fun l l' hl hl' hperm ↦ ?_
  have hall := (hperm.cons ⟨"query_hash", none, some (hash text), none⟩).append_left tags
  have henvironment := agree_environmentTags hadds hall hl hl'
    (fun tag htag ↦ mem_append_right _ (mem_cons_of_mem _ htag))
    (fun tag htag ↦ mem_append_right _ (mem_cons_of_mem _ htag))
  refine (agree_of_eq (R := (· = ·)) (fun _ ↦ rfl) henvironment).bind fun added _ _ _ hadded ↦ ?_
  subst hadded
  refine (agree_of_eq (R := (· = ·)) (fun _ ↦ rfl) rfl).bind fun extracted _ _ _ hextracted ↦ ?_
  subst hextracted
  exact ⟨rfl, rfl, rfl, hall.append_right added, rfl⟩

end Identified

/-- The metric of `count()` without a query. -/
def countSpec (specType : MetricSpecType) (groupbys : List String) : OnDemandMetricSpec :=
  ⟨⟨[], specType, none, "count", []⟩, groupbys, ∅, "sum", "c", []⟩

theorem create_countSpec (specType : MetricSpecType) (groupbys : List String)
    (h : "count()" ∉ groupbys) :
    create id "count()" (countSpec specType groupbys).query groupbys ∅ =
      .ok (countSpec specType groupbys) := by
  have hfilter : groupbys.filter (· ≠ "count()") = groupbys :=
    filter_eq_self.mpr fun groupby hgroupby ↦ by
      simpa using fun heq : groupby = "count()" ↦ h (heq ▸ hgroupby)
  have hflags : (∅ : Finset String) ≠ {"include_environment_tag"} := by decide
  unfold create
  simp only [hfilter, hflags, and_false, if_false]
  rfl

section

variable (specType : MetricSpecType) (groupbys : List String)
  (normalizeCountIfValue : String → String → Except Error (RawValue OtherValue))

include specType groupbys normalizeCountIfValue

theorem condition_countSpec :
    (countSpec specType groupbys).condition id normalizeCountIfValue = .ok none := by
  refine processQuery_of_nil ?_ rfl
  have hquery : parseQuery (countSpec specType groupbys).query = [] := by
    rw [parseQuery, countSpec, removeRedundantParentheses]
    simp
  rw [parsedQuery, hquery]
  cases specType <;> rfl

theorem queryStrForHash_countSpec :
    (countSpec specType groupbys).queryStrForHash (fun _ ↦ true) id normalizeCountIfValue =
      .ok (hashedText (fun _ ↦ true) ['N', 'o', 'n', 'e'] .none groupbys) := by
  rw [queryStrForHash, condition_countSpec]
  rfl

end

theorem toMetricSpec_countSpec (hash : List Char → String) (specType : MetricSpecType)
    (normalizeCountIfValue : String → String → Except Error (RawValue OtherValue))
    (parseFloat : String → Except Error Python.Number) (timesFour : Python.Number → Python.Number)
    (satisfactoryMetric : String) :
    (countSpec specType []).toMetricSpec (fun _ ↦ true) hash id normalizeCountIfValue parseFloat
        timesFour satisfactoryMetric =
      .ok ⟨"transaction", "c:transactions/on_demand@none", none,
        ⟨"query_hash", none,
          some (hash (hashedText (fun _ ↦ true) ['N', 'o', 'n', 'e'] .none [])), none⟩ ::
        if specType = .dynamicQuery then [environmentTag] else [], none⟩ := by
  unfold toMetricSpec
  rw [queryStrForHash_countSpec, condition_countSpec]
  cases specType with
  | simpleQuery => rfl
  | dynamicQuery => rfl

/-- The groups are in another order. -/
theorem identified_countSpec :
    Agree MetricSpec.Same
      ((countSpec .simpleQuery ["release", "dist"]).toMetricSpec (fun _ ↦ true) String.ofList id
        (fun _ _ ↦ .error .invalidValue) (fun _ ↦ .error .invalidValue) id "transaction.duration")
      ((countSpec .simpleQuery ["dist", "release"]).toMetricSpec (fun _ ↦ true) String.ofList id
        (fun _ _ ↦ .error .invalidValue) (fun _ ↦ .error .invalidValue) id
        "transaction.duration") := by
  have hsort : (["dist", "release"] : List String).insertionSort (· ≤ ·) =
      ["release", "dist"].insertionSort (· ≤ ·) := by decide
  have htext : hashedText (fun _ ↦ true) ['N', 'o', 'n', 'e'] .none ["dist", "release"] =
      hashedText (fun _ ↦ true) ['N', 'o', 'n', 'e'] .none ["release", "dist"] := by
    rw [hashedText, hashedText, hsort]
    rfl
  have hsimple : ∀ groupbys, ¬ (countSpec .simpleQuery groupbys).AddsEnvironment :=
    fun groupbys h ↦ MetricSpecType.noConfusion h.1
  have hcolon : ∀ groupbys, (countSpec .simpleQuery groupbys).ColonFree :=
    fun groupbys _ arg harg ↦ absurd harg (by simp [countSpec])
  exact identified (create_countSpec .simpleQuery ["release", "dist"] (by decide))
    (create_countSpec .simpleQuery ["dist", "release"] (by decide)) (hcolon _) (hcolon _)
    (iff_of_false (hsimple _) (hsimple _)) (queryStrForHash_countSpec _ _ _)
    (htext ▸ queryStrForHash_countSpec _ _ _)

/-- A simple and a dynamic query with the same text, of which only the second has the tag of the
environment. -/
theorem not_identified :
    ¬ ∀ (printable : Char → Bool) (hash : List Char → String) (resolveColumn : String → String)
      (normalizeCountIfValue : String → String → Except Error (RawValue OtherValue))
      (parseFloat : String → Except Error Python.Number)
      (timesFour : Python.Number → Python.Number) (satisfactoryMetric : String)
      (field field' : String) (query query' : MetricQuery OtherValue)
      (groupbys groupbys' : List String) (flags flags' : Finset String)
      (spec spec' : OnDemandMetricSpec) (text : List Char),
      create resolveColumn field query groupbys flags = .ok spec →
      create resolveColumn field' query' groupbys' flags' = .ok spec' →
      spec.queryStrForHash printable resolveColumn normalizeCountIfValue = .ok text →
      spec'.queryStrForHash printable resolveColumn normalizeCountIfValue = .ok text →
      Agree MetricSpec.Same
        (spec.toMetricSpec printable hash resolveColumn normalizeCountIfValue parseFloat timesFour
          satisfactoryMetric)
        (spec'.toMetricSpec printable hash resolveColumn normalizeCountIfValue parseFloat timesFour
          satisfactoryMetric) := by
  intro h
  have hsame := h (fun _ ↦ true) String.ofList id (fun _ _ ↦ .error .invalidValue)
    (fun _ ↦ .error .invalidValue) id "transaction.duration" _ _ _ _ _ _ _ _ _ _ _
    (create_countSpec .simpleQuery [] (by decide)) (create_countSpec .dynamicQuery [] (by decide))
    (queryStrForHash_countSpec _ _ _) (queryStrForHash_countSpec _ _ _)
  rw [toMetricSpec_countSpec, toMetricSpec_countSpec] at hsame
  have hlength := hsame.tags.length_eq
  simp at hlength

end OnDemandMetricSpec

end Sentry.Extraction
