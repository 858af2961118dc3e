import Mathlib.Data.Finset.Dedup
import Sentry.Library.Dictionary

/-!
# The equality of metric specs

`snuba/metrics/extraction.py`. `are_specs_equal` goes over the items of the first spec, and when it
comes to the tags it returns what `_compare_lists` says of them (`areSpecsEqual_of_tags`). So it
decides the equality of specs just if the other values do not differ then, and every tag of the
first spec is in the second one as often (`areSpecsEqual_decides_iff`).
-/

namespace Sentry.Extraction.SpecEquality

open Library List

variable {Condition : Type} [DecidableEq Condition]

/-- `TagSpec`; a key that is not there is none. -/
structure TagSpec (Condition : Type) where
  key : String
  field : Option String
  value : Option String
  condition : Option Condition
deriving DecidableEq

/-- The keys of `MetricSpec`. -/
inductive Key
  | category
  | mri
  | field
  | condition
  | tags
deriving DecidableEq

/-- The values of `MetricSpec`. -/
inductive Value (Condition : Type)
  | text (value : Option String)
  | condition (value : Condition)
  | tags (value : List (TagSpec Condition))
deriving DecidableEq

/-- The types that `MetricSpec` declares. -/
def Value.Fits : Key → Value Condition → Prop
  | .category, text value => value.isSome
  | .mri, text value => value.isSome
  | .field, text _ => True
  | .condition, condition _ => True
  | .tags, tags _ => True
  | _, _ => False

/-- `MetricSpec`: the items of a dictionary in the order they were set. -/
structure MetricSpec (Condition : Type) where
  items : List (Key × Value Condition)
  nodup : (items.map Prod.fst).Nodup
  fits : ∀ item ∈ items, item.2.Fits item.1

namespace MetricSpec

/-- `spec.keys()` -/
def keys (spec : MetricSpec Condition) : Finset Key := (spec.items.map Prod.fst).toFinset

/-- `spec["tags"]`, of a spec that has them. -/
def tags (spec : MetricSpec Condition) : List (TagSpec Condition) :=
  match getItem spec.items .tags with
  | some (.tags tags) => tags
  | _ => []

end MetricSpec

/-- `_compare_lists` -/
def compareLists {α : Type} [DecidableEq α] (list1 list2 : List α) : Bool :=
  if list1.length ≠ list2.length then false else list1.all (· ∈ list2)

/-- The loop of `are_specs_equal` over the items of `spec_1` that are left. -/
def compareItems (spec1 spec2 : MetricSpec Condition) : Bool → List (Key × Value Condition) → Bool
  | equal, [] => equal
  | equal, (key, value) :: rest =>
    if key = .tags then compareLists spec1.tags spec2.tags
    else
      compareItems spec1 spec2 (if getItem spec2.items key ≠ some value then false else equal) rest

/-- `are_specs_equal` -/
def areSpecsEqual (spec1 spec2 : MetricSpec Condition) : Bool :=
  if spec1.keys ≠ spec2.keys then false else compareItems spec1 spec2 true spec1.items

/-- Apart from the tags the specs have the same values. -/
def SameOtherwise (spec1 spec2 : MetricSpec Condition) : Prop :=
  ∀ key ≠ .tags, getItem spec1.items key = getItem spec2.items key

/-- The specs have the same keys, the same values, and the same tags in whatever order. -/
structure SameSpec (spec1 spec2 : MetricSpec Condition) : Prop where
  keys : spec1.keys = spec2.keys
  otherwise : SameOtherwise spec1 spec2
  tags : spec1.tags.Perm spec2.tags

theorem compareLists_iff {α : Type} [DecidableEq α] (list1 list2 : List α) :
    compareLists list1 list2 ↔ list1.length = list2.length ∧ list1 ⊆ list2 := by
  unfold compareLists
  split_ifs with hlength
  · simp [hlength]
  · simp [not_not.mp hlength, subset_def]

theorem perm_iff_count_le {α : Type} [DecidableEq α] {list1 list2 : List α}
    (h : compareLists list1 list2) :
    list1.Perm list2 ↔ ∀ x ∈ list1, list1.count x ≤ list2.count x := by
  constructor
  · exact fun hperm x _ ↦ (hperm.count_eq x).le
  · intro hcount
    refine (subperm_ext_iff.mpr hcount).perm_of_length_le ?_
    exact ((compareLists_iff list1 list2).mp h).1.ge

theorem compareItems_of_tags (spec1 spec2 : MetricSpec Condition) (equal : Bool)
    {items : List (Key × Value Condition)} (h : .tags ∈ items.map Prod.fst) :
    compareItems spec1 spec2 equal items = compareLists spec1.tags spec2.tags := by
  induction items generalizing equal with
  | nil => simp at h
  | cons item rest ih =>
    obtain ⟨key, value⟩ := item
    by_cases hkey : key = .tags
    · rw [compareItems, if_pos hkey]
    · rw [compareItems, if_neg hkey]
      exact ih _ ((mem_cons.mp h).resolve_left fun heq ↦ hkey heq.symm)

theorem compareItems_of_notMem_tags (spec1 spec2 : MetricSpec Condition) (equal : Bool)
    {items : List (Key × Value Condition)} (h : .tags ∉ items.map Prod.fst) :
    compareItems spec1 spec2 equal items ↔
      equal ∧ ∀ item ∈ items, getItem spec2.items item.1 = some item.2 := by
  induction items generalizing equal with
  | nil => simp [compareItems]
  | cons item rest ih =>
    obtain ⟨key, value⟩ := item
    simp only [map_cons, mem_cons, not_or] at h
    rw [compareItems, if_neg fun heq ↦ h.1 heq.symm, ih _ h.2, forall_mem_cons]
    by_cases hvalue : getItem spec2.items key = some value
    all_goals simp [hvalue]

theorem areSpecsEqual_of_tags {spec1 spec2 : MetricSpec Condition} (hkeys : spec1.keys = spec2.keys)
    (htags : .tags ∈ spec1.keys) :
    areSpecsEqual spec1 spec2 = compareLists spec1.tags spec2.tags := by
  rw [areSpecsEqual, if_neg (not_not.mpr hkeys)]
  exact compareItems_of_tags spec1 spec2 true (List.mem_toFinset.mp htags)

omit [DecidableEq Condition] in
theorem MetricSpec.mem_keys_iff (spec : MetricSpec Condition) (key : Key) :
    key ∈ spec.keys ↔ ∃ value, (key, value) ∈ spec.items := by
  simp [MetricSpec.keys]

omit [DecidableEq Condition] in
theorem MetricSpec.tags_of_notMem {spec : MetricSpec Condition} (h : .tags ∉ spec.keys) :
    spec.tags = [] := by
  have hnone : getItem spec.items .tags = none :=
    getItem_of_notMem fun hmem ↦ h (List.mem_toFinset.mpr hmem)
  rw [MetricSpec.tags, hnone]

theorem areSpecsEqual_of_notMem_tags {spec1 spec2 : MetricSpec Condition}
    (hkeys : spec1.keys = spec2.keys) (htags : .tags ∉ spec1.keys) :
    areSpecsEqual spec1 spec2 ↔ SameOtherwise spec1 spec2 := by
  have hnotMem : .tags ∉ spec1.items.map Prod.fst := fun hmem ↦ htags (List.mem_toFinset.mpr hmem)
  rw [areSpecsEqual, if_neg (not_not.mpr hkeys), compareItems_of_notMem_tags _ _ _ hnotMem]
  constructor
  · rintro ⟨-, hitems⟩ key -
    by_cases hkey : key ∈ spec1.keys
    · obtain ⟨value, hvalue⟩ := (spec1.mem_keys_iff key).mp hkey
      rw [hitems _ hvalue]
      exact (getItem_eq_some_iff spec1.nodup).mpr hvalue
    · rw [getItem_of_notMem fun hmem ↦ hkey (List.mem_toFinset.mpr hmem),
        getItem_of_notMem fun hmem ↦ hkey (hkeys ▸ List.mem_toFinset.mpr hmem)]
  · refine fun hsame ↦ ⟨rfl, fun item hitem ↦ ?_⟩
    have hkey : item.1 ≠ .tags := fun heq ↦ hnotMem (heq ▸ mem_map_of_mem hitem)
    rw [← hsame item.1 hkey]
    exact (getItem_eq_some_iff spec1.nodup).mpr hitem

/-- The comparison decides whether specs are the same just if, where their tags pass
`_compare_lists`, their other values do not differ and the second has every tag of the first as
often. -/
theorem areSpecsEqual_decides_iff (spec1 spec2 : MetricSpec Condition) :
    (areSpecsEqual spec1 spec2 ↔ SameSpec spec1 spec2) ↔
      (spec1.keys = spec2.keys → .tags ∈ spec1.keys → compareLists spec1.tags spec2.tags →
        SameOtherwise spec1 spec2 ∧
          ∀ tag ∈ spec1.tags, spec1.tags.count tag ≤ spec2.tags.count tag) := by
  by_cases hkeys : spec1.keys = spec2.keys
  · by_cases htags : .tags ∈ spec1.keys
    · rw [areSpecsEqual_of_tags hkeys htags]
      constructor
      · intro hdecides _ _ hcompare
        have hsame := hdecides.mp hcompare
        exact ⟨hsame.otherwise, (perm_iff_count_le hcompare).mp hsame.tags⟩
      · refine fun h ↦ ⟨fun hcompare ↦ ?_, fun hsame ↦ ?_⟩
        · obtain ⟨hotherwise, hcount⟩ := h hkeys htags hcompare
          exact ⟨hkeys, hotherwise, (perm_iff_count_le hcompare).mpr hcount⟩
        · exact (compareLists_iff _ _).mpr ⟨hsame.tags.length_eq, hsame.tags.subset⟩
    · refine iff_of_true ?_ fun _ hmem ↦ absurd hmem htags
      rw [areSpecsEqual_of_notMem_tags hkeys htags]
      refine ⟨fun hsame ↦ ⟨hkeys, hsame, ?_⟩, SameSpec.otherwise⟩
      rw [MetricSpec.tags_of_notMem htags, MetricSpec.tags_of_notMem (hkeys ▸ htags)]
  · refine iff_of_true ?_ fun heq ↦ absurd heq hkeys
    rw [areSpecsEqual, if_pos hkeys]
    exact iff_of_false Bool.false_ne_true fun hsame ↦ hkeys hsame.keys

/-- A spec as an on-demand metric has it, with the condition on a release. -/
def specOfRelease (release : String) : MetricSpec String where
  items :=
    [(.category, .text (some "transaction")),
      (.mri, .text (some "c:transactions/on_demand@none")),
      (.field, .text none),
      (.tags, .tags [⟨"query_hash", none, some "d9f30df7", none⟩]),
      (.condition, .condition release)]
  nodup := by simp
  fits := by simp [Value.Fits]

theorem specOfRelease_not_decided :
    areSpecsEqual (specOfRelease "a") (specOfRelease "b") = true ∧
      ¬ SameSpec (specOfRelease "a") (specOfRelease "b") := by
  constructor
  · rfl
  · intro hsame
    have hcondition := hsame.otherwise .condition (by decide)
    simp [specOfRelease, getItem] at hcondition

end Sentry.Extraction.SpecEquality
