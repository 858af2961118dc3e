import Sentry.Library.Dictionary
import Mathlib.Algebra.Order.Group.Nat
import Mathlib.Algebra.Order.Ring.Int
import Mathlib.Data.List.Perm.Subperm

/-!
# The merging offset paginator

`MergingOffsetPaginator` of `api/paginator.py`. The rows of a primary source are read by limit and
offset, and the models of the queryset are put in their place, while the offset of the next page
counts rows. So a page with a row without a model goes on with models of the next one
(`getResult_eq`), and the pages have every model once only if no page that misses a model finds
another one behind it (`visitsEach_iff`).
-/

namespace Sentry.Pagination

open Library List Option

variable {Row Model Key : Type*}

/-- `Cursor`, whose offset is the number of a page. -/
structure OffsetCursor where
  value : ℤ
  offset : ℤ
  isPrev : Bool
  hasResults : Bool
  deriving DecidableEq

/-- `BadPaginationError` -/
structure BadPaginationError where
  message : String
  deriving DecidableEq

/-- `CursorResult` -/
structure MergedResult (Model : Type*) where
  results : List Model
  next : OffsetCursor
  prev : OffsetCursor

/-- `results[:stop]` -/
def upTo (stop : ℤ) (results : List Model) : List Model :=
  if 0 ≤ stop then results.take stop.toNat else results.take (results.length - (-stop).toNat)

/-- `MergingOffsetPaginator`. Its functions are applied to its queryset. -/
structure MergingOffsetPaginator (Row Model Key : Type*) where
  dataLoadFunc : (offset limit : ℤ) → List Row
  applyToQueryset : List Row → List Model
  keyFromModel : Model → Key
  keyFromData : Row → Key
  maxLimit : ℕ
  onResults : Option (List Model → List Model)
  dataCountFunc : Option ℤ
  querysetLoadFunc : Option ((totalOffset qsOffset extraLimit : ℤ) → List Model)

namespace MergingOffsetPaginator

section GetResult

variable [DecidableEq Key] (p : MergingOffsetPaginator Row Model Key)

/-- `max_offset`, which the constructor does not set. -/
def maxOffset : Option ℤ := none

/-- The models of the rows that were loaded. -/
def merge (primaryResults : List Row) : List Model :=
  let mapping := dictOfItems ((p.applyToQueryset primaryResults).map fun model ↦
    (p.keyFromModel model, model))
  primaryResults.filterMap fun row ↦ getItem mapping (p.keyFromData row)

def withExtra (limit offset : ℤ) (primaryResults : List Row) : List Model × Bool :=
  let results := p.merge primaryResults
  match p.querysetLoadFunc, p.dataCountFunc with
  | some querysetLoadFunc, some totalDataCount =>
    if results.length < limit then
      let extraLimit := limit - results.length + 1
      let totalOffset := offset + results.length
      let qsOffset := max 0 (totalOffset - totalDataCount)
      let qsResults := querysetLoadFunc totalOffset qsOffset extraLimit
      (results ++ qsResults, (qsResults.length : ℤ) = extraLimit)
    else (results, limit < primaryResults.length)
  | _, _ => (results, limit < primaryResults.length)

/-- `get_result` -/
def getResult (limit : ℕ) (cursor : Option OffsetCursor) :
    Except BadPaginationError (MergedResult Model) :=
  let cursor := cursor.getD ⟨0, 0, false, false⟩
  let page := cursor.offset
  let offset := cursor.offset * cursor.value
  let limit : ℤ := if cursor.value = 0 then min limit p.maxLimit else cursor.value
  if maxOffset.any (· ≤ offset) then .error ⟨"Pagination offset too large"⟩
  else if offset < 0 then .error ⟨"Pagination offset cannot be negative"⟩
  else
    let found := p.withExtra limit offset (p.dataLoadFunc offset (p.maxLimit + 1))
    let results := upTo limit found.1
    .ok
      { results := p.onResults.elim results (· results)
        next := ⟨limit, page + 1, false, found.2⟩
        prev := ⟨limit, page - 1, true, 0 < page⟩ }

def visit (limit : ℕ) : ℕ → Option OffsetCursor → Option (List (List Model))
  | 0, _ => none
  | fuel + 1, cursor =>
    match p.getResult limit cursor with
    | .error _ => none
    | .ok result =>
      if result.next.hasResults then
        (visit limit fuel (some result.next)).map (result.results :: ·)
      else some [result.results]

/-- The paginator goes through rows that do not change, of which some have a model: a queryset has
the models of the rows it was made for, and there is no other source. -/
structure Merges (rows : List Row) (find : Row → Option Model) : Prop where
  load (offset limit : ℕ) : p.dataLoadFunc offset limit = (rows.drop offset).take limit
  model (offset limit : ℕ) : ∀ row ∈ (rows.drop offset).take limit,
    getItem (dictOfItems ((p.applyToQueryset ((rows.drop offset).take limit)).map fun model ↦
      (p.keyFromModel model, model))) (p.keyFromData row) = find row
  onResults : p.onResults = none
  querysetLoadFunc : p.querysetLoadFunc = none

/-- The visit ends, with every model that has a row once, in the order of the rows. -/
def VisitsEach (limit : ℕ) (rows : List Row) (find : Row → Option Model) : Prop :=
  ∃ fuel pages, p.visit limit fuel none = some pages ∧ pages.flatten.Nodup ∧
    (∀ model, model ∈ pages.flatten ↔ ∃ row ∈ rows, find row = some model) ∧
    pages.flatten.Sublist (rows.filterMap find)

end GetResult

/-- Each page has models for all its rows, or none of the rows that are loaded behind it has one. -/
def Separate (limit maxLimit : ℕ) (rows : List Row) (find : Row → Option Model) : Prop :=
  ∀ k, (∀ row ∈ (rows.drop (k * limit)).take limit, (find row).isSome) ∨
    ∀ row ∈ (rows.drop (k * limit + limit)).take (maxLimit + 1 - limit), find row = none

section Page

variable {limit maxLimit : ℕ} {find : Row → Option Model}

def firstModels (limit maxLimit : ℕ) (find : Row → Option Model) (rest : List Row) : List Model :=
  ((rest.take (maxLimit + 1)).filterMap find).take limit

def surplus (limit maxLimit : ℕ) (find : Row → Option Model) (rest : List Row) : List Model :=
  (((rest.drop limit).take (maxLimit + 1 - limit)).filterMap find).take
    (limit - ((rest.take limit).filterMap find).length)

theorem firstModels_eq (hmax : limit ≤ maxLimit) (rest : List Row) :
    firstModels limit maxLimit find rest =
      (rest.take limit).filterMap find ++ surplus limit maxLimit find rest := by
  have hloaded : rest.take (maxLimit + 1) =
      rest.take limit ++ (rest.drop limit).take (maxLimit + 1 - limit) := by
    rw [← take_add]
    congr 1
    omega
  have hshort : ((rest.take limit).filterMap find).length ≤ limit :=
    (length_filterMap_le find _).trans (length_take_le limit rest)
  rw [firstModels, hloaded, filterMap_append, take_append, surplus, take_of_length_le hshort]

theorem surplus_eq_nil_iff {rest : List Row} (hmore : limit < rest.length) :
    surplus limit maxLimit find rest = [] ↔
      (∀ row ∈ rest.take limit, (find row).isSome) ∨
        ∀ row ∈ (rest.drop limit).take (maxLimit + 1 - limit), find row = none := by
  have hlength : (rest.take limit).length = limit := by
    rw [length_take]
    omega
  have hall : limit - ((rest.take limit).filterMap find).length = 0 ↔
      ∀ row ∈ rest.take limit, (find row).isSome := by
    rw [← filterMap_length_eq_length, hlength]
    have hshort := length_filterMap_le find (rest.take limit)
    omega
  rw [surplus, take_eq_nil_iff, hall, filterMap_eq_nil_iff]

end Page

section Pages

variable {limit maxLimit : ℕ} {find : Row → Option Model}

def pagesFrom (limit maxLimit : ℕ) (find : Row → Option Model) (rest : List Row) :
    List (List Model) :=
  if 0 < limit ∧ limit < rest.length then
    firstModels limit maxLimit find rest :: pagesFrom limit maxLimit find (rest.drop limit)
  else [firstModels limit maxLimit find rest]
termination_by rest.length
decreasing_by
  rename_i h
  rw [length_drop]
  omega

variable {rest : List Row}

theorem pagesFrom_of_lt (hlimit : 0 < limit) (hmore : limit < rest.length) :
    pagesFrom limit maxLimit find rest =
      firstModels limit maxLimit find rest :: pagesFrom limit maxLimit find (rest.drop limit) := by
  rw [pagesFrom]
  exact if_pos ⟨hlimit, hmore⟩

theorem pagesFrom_of_le (hend : rest.length ≤ limit) :
    pagesFrom limit maxLimit find rest = [firstModels limit maxLimit find rest] := by
  rw [pagesFrom]
  exact if_neg fun h ↦ absurd h.2 (Nat.not_lt.mpr hend)

theorem flatten_pagesFrom_of_le (hmax : limit ≤ maxLimit) (hend : rest.length ≤ limit) :
    (pagesFrom limit maxLimit find rest).flatten = rest.filterMap find := by
  have hnone : surplus limit maxLimit find rest = [] := by
    rw [surplus, drop_eq_nil_of_le hend, take_nil, filterMap_nil, take_nil]
  rw [pagesFrom_of_le hend, flatten_singleton, firstModels_eq hmax, hnone, append_nil,
    take_of_length_le hend]

theorem flatten_pagesFrom_of_lt (hlimit : 0 < limit) (hmax : limit ≤ maxLimit)
    (hmore : limit < rest.length) :
    (pagesFrom limit maxLimit find rest).flatten = (rest.take limit).filterMap find ++
      (surplus limit maxLimit find rest ++
        (pagesFrom limit maxLimit find (rest.drop limit)).flatten) := by
  rw [pagesFrom_of_lt hlimit hmore, flatten_cons, firstModels_eq hmax, append_assoc]

theorem filterMap_take_drop (limit : ℕ) (rest : List Row) :
    rest.filterMap find = (rest.take limit).filterMap find ++ (rest.drop limit).filterMap find := by
  rw [← filterMap_append, take_append_drop]

theorem sublist_pagesFrom (hlimit : 0 < limit) (hmax : limit ≤ maxLimit) (rest : List Row) :
    (rest.filterMap find).Sublist (pagesFrom limit maxLimit find rest).flatten := by
  induction hn : rest.length using Nat.strong_induction_on generalizing rest with
  | _ n ih =>
    by_cases hmore : limit < rest.length
    · rw [flatten_pagesFrom_of_lt hlimit hmax hmore, filterMap_take_drop limit]
      have hlater := ih (rest.drop limit).length (by rw [length_drop]; omega) _ rfl
      exact (hlater.trans (sublist_append_right _ _)).append_left _
    · rw [flatten_pagesFrom_of_le hmax (Nat.not_lt.mp hmore)]

theorem separate_iff (rest : List Row) : Separate limit maxLimit rest find ↔
    ((∀ row ∈ rest.take limit, (find row).isSome) ∨
      ∀ row ∈ (rest.drop limit).take (maxLimit + 1 - limit), find row = none) ∧
      Separate limit maxLimit (rest.drop limit) find := by
  have hlater (k : ℕ) : (rest.drop limit).drop (k * limit) = rest.drop ((k + 1) * limit) ∧
      (rest.drop limit).drop (k * limit + limit) = rest.drop ((k + 1) * limit + limit) := by
    rw [drop_drop, drop_drop, Nat.succ_mul, Nat.add_comm limit, Nat.add_comm limit]
    exact ⟨rfl, rfl⟩
  constructor
  · intro h
    refine ⟨?_, fun k ↦ ?_⟩
    · have hzero := h 0
      rwa [Nat.zero_mul, Nat.zero_add, drop_zero] at hzero
    · rw [(hlater k).1, (hlater k).2]
      exact h (k + 1)
  · rintro ⟨hfirst, hrest⟩ (_ | k)
    · rwa [Nat.zero_mul, Nat.zero_add, drop_zero]
    · have hk := hrest k
      rwa [(hlater k).1, (hlater k).2] at hk

theorem separate_of_le (hend : rest.length ≤ limit) : Separate limit maxLimit rest find := by
  refine fun k ↦ Or.inr ?_
  rw [drop_eq_nil_of_le (hend.trans (Nat.le_add_left _ _)), take_nil]
  exact fun row hrow ↦ absurd hrow not_mem_nil

theorem flatten_pagesFrom_iff (hlimit : 0 < limit) (hmax : limit ≤ maxLimit) (rest : List Row) :
    (pagesFrom limit maxLimit find rest).flatten = rest.filterMap find ↔
      Separate limit maxLimit rest find := by
  induction hn : rest.length using Nat.strong_induction_on generalizing rest with
  | _ n ih =>
    by_cases hmore : limit < rest.length
    · rw [separate_iff, ← surplus_eq_nil_iff hmore,
        ← ih (rest.drop limit).length (by rw [length_drop]; omega) _ rfl,
        flatten_pagesFrom_of_lt hlimit hmax hmore, filterMap_take_drop limit rest,
        append_cancel_left_eq]
      constructor
      · intro heq
        have hlength := congrArg List.length heq
        have hlater : ((rest.drop limit).filterMap find).length ≤ _ :=
          (sublist_pagesFrom hlimit hmax (rest.drop limit)).length_le
        rw [length_append] at hlength
        have hnil : surplus limit maxLimit find rest = [] :=
          eq_nil_of_length_eq_zero (by omega)
        rw [hnil, nil_append] at heq
        exact ⟨hnil, heq⟩
      · rintro ⟨hnil, heq⟩
        rw [hnil, heq, nil_append]
    · have hend := Nat.not_lt.mp hmore
      exact iff_of_true (flatten_pagesFrom_of_le hmax hend) (separate_of_le hend)

end Pages

section Visit

variable [DecidableEq Key] {p : MergingOffsetPaginator Row Model Key} {rows : List Row}
  {find : Row → Option Model} {limit : ℕ}

def Leads (limit : ℕ) (cursor : Option OffsetCursor) (page : ℕ) : Prop :=
  (cursor = none ∧ page = 0) ∨ ∃ hasResults, cursor = some ⟨limit, page, false, hasResults⟩

variable {cursor : Option OffsetCursor}

theorem getResult_eq (h : p.Merges rows find) (hlimit : 0 < limit) (hmax : limit ≤ p.maxLimit)
    {page : ℕ} (hleads : Leads limit cursor page) :
    p.getResult limit cursor = .ok
      { results := firstModels limit p.maxLimit find (rows.drop (page * limit))
        next := ⟨limit, page + 1, false, limit < (rows.drop (page * limit)).length⟩
        prev := ⟨limit, page - 1, true, (0 : ℤ) < page⟩ } := by
  have hmerge : p.merge ((rows.drop (page * limit)).take (p.maxLimit + 1)) =
      ((rows.drop (page * limit)).take (p.maxLimit + 1)).filterMap find :=
    filterMap_congr (h.model (page * limit) (p.maxLimit + 1))
  have hload : p.dataLoadFunc (page * limit) (p.maxLimit + 1) =
      (rows.drop (page * limit)).take (p.maxLimit + 1) := by
    have := h.load (page * limit) (p.maxLimit + 1)
    exact this
  have hmore : ((limit : ℤ) < ((rows.drop (page * limit)).take (p.maxLimit + 1)).length) ↔
      limit < (rows.drop (page * limit)).length := by
    rw [Int.ofNat_lt, length_take]
    omega
  have hextra : p.withExtra limit (page * limit)
      (p.dataLoadFunc (page * limit) (p.maxLimit + 1)) =
      (((rows.drop (page * limit)).take (p.maxLimit + 1)).filterMap find,
        decide (limit < (rows.drop (page * limit)).length)) := by
    rw [withExtra, h.querysetLoadFunc, hload, hmerge]
    exact Prod.ext rfl (decide_eq_decide.mpr hmore)
  have hcursor : (cursor.getD ⟨0, 0, false, false⟩).offset = page ∧
      (page : ℤ) * (cursor.getD ⟨0, 0, false, false⟩).value = page * limit ∧
      (if (cursor.getD ⟨0, 0, false, false⟩).value = 0 then min (limit : ℤ) p.maxLimit
        else (cursor.getD ⟨0, 0, false, false⟩).value) = limit := by
    rcases hleads with ⟨rfl, rfl⟩ | ⟨hasResults, rfl⟩
    · exact ⟨rfl, by rw [Nat.cast_zero, zero_mul, zero_mul], min_eq_left (Int.ofNat_le.mpr hmax)⟩
    · have hne : (limit : ℤ) ≠ 0 := Int.natCast_ne_zero.mpr hlimit.ne'
      exact ⟨rfl, rfl, if_neg hne⟩
  obtain ⟨hpage, hoffset, hvalue⟩ := hcursor
  have hnonneg : ¬ ((page : ℤ) * limit < 0) :=
    not_lt.mpr (mul_nonneg (Int.natCast_nonneg _) (Int.natCast_nonneg _))
  simp only [getResult, hpage, hoffset, hvalue, hextra, maxOffset, any_none,
    Bool.false_eq_true, if_false, if_neg hnonneg, h.onResults, elim_none]
  rfl

def nextCursor (limit : ℕ) (rows : List Row) (page : ℕ) : OffsetCursor :=
  ⟨limit, (page + 1 : ℕ), false, limit < (rows.drop (page * limit)).length⟩

theorem leads_nextCursor (limit : ℕ) (rows : List Row) (page : ℕ) :
    Leads limit (some (nextCursor limit rows page)) (page + 1) :=
  Or.inr ⟨_, rfl⟩

section

variable (h : p.Merges rows find) (hlimit : 0 < limit) (hmax : limit ≤ p.maxLimit)

include h hlimit hmax

theorem visit_succ {page : ℕ} (hleads : Leads limit cursor page) (fuel : ℕ) :
    p.visit limit (fuel + 1) cursor =
      if limit < (rows.drop (page * limit)).length then
        (p.visit limit fuel (some (nextCursor limit rows page))).map
          (firstModels limit p.maxLimit find (rows.drop (page * limit)) :: ·)
      else some [firstModels limit p.maxLimit find (rows.drop (page * limit))] := by
  rw [visit, getResult_eq h hlimit hmax hleads]
  simp only [decide_eq_true_eq, nextCursor, Nat.cast_add, Nat.cast_one]

theorem eq_of_visit {fuel page : ℕ} (hleads : Leads limit cursor page)
    {pages : List (List Model)} (hvisit : p.visit limit fuel cursor = some pages) :
    pages = pagesFrom limit p.maxLimit find (rows.drop (page * limit)) := by
  induction fuel generalizing cursor page pages with
  | zero => exact absurd hvisit.symm (some_ne_none pages)
  | succ fuel ih =>
    rw [visit_succ h hlimit hmax hleads] at hvisit
    by_cases hmore : limit < (rows.drop (page * limit)).length
    · rw [if_pos hmore] at hvisit
      obtain ⟨later, hlater, rfl⟩ := map_eq_some_iff.mp hvisit
      rw [pagesFrom_of_lt hlimit hmore, drop_drop,
        ih (leads_nextCursor limit rows page) hlater, Nat.succ_mul]
    · rw [if_neg hmore] at hvisit
      rw [pagesFrom_of_le (Nat.not_lt.mp hmore)]
      exact (Option.some.inj hvisit).symm

theorem exists_visit {page : ℕ} (hleads : Leads limit cursor page) :
    ∃ fuel pages, p.visit limit fuel cursor = some pages := by
  induction hn : (rows.drop (page * limit)).length using Nat.strong_induction_on
    generalizing cursor page with
  | _ n ih =>
    by_cases hmore : limit < (rows.drop (page * limit)).length
    · have hshorter : (rows.drop ((page + 1) * limit)).length < n := by
        rw [← hn, Nat.succ_mul, ← drop_drop, length_drop]
        omega
      obtain ⟨fuel, pages, hvisit⟩ := ih _ hshorter (leads_nextCursor limit rows page) rfl
      refine ⟨fuel + 1, firstModels limit p.maxLimit find (rows.drop (page * limit)) :: pages, ?_⟩
      rw [visit_succ h hlimit hmax hleads, if_pos hmore, hvisit, map_some]
    · refine ⟨1, [firstModels limit p.maxLimit find (rows.drop (page * limit))], ?_⟩
      rw [visit_succ h hlimit hmax hleads, if_neg hmore]

end

/-- Every model that has a row is there once, in the order of the rows, if and only if no two rows
have the same model and no page goes on with models of rows behind it. -/
theorem visitsEach_iff (h : p.Merges rows find) (hlimit : 1 ≤ limit) (hmax : limit ≤ p.maxLimit) :
    p.VisitsEach limit rows find ↔
      (rows.filterMap find).Nodup ∧ Separate limit p.maxLimit rows find := by
  have hstart : Leads limit none 0 := Or.inl ⟨rfl, rfl⟩
  have hzero : rows.drop (0 * limit) = rows := by rw [Nat.zero_mul, drop_zero]
  constructor
  · rintro ⟨fuel, pages, hvisit, hnodup, hmem, -⟩
    have hpages := eq_of_visit h hlimit hmax hstart hvisit
    rw [hzero] at hpages
    have hall : (rows.filterMap find).Sublist pages.flatten :=
      hpages ▸ sublist_pagesFrom hlimit hmax rows
    have hsubset : pages.flatten ⊆ rows.filterMap find := fun model hmodel ↦
      mem_filterMap.mpr ((hmem model).mp hmodel)
    have hlength := (subperm_of_subset hnodup hsubset).length_le
    refine ⟨hnodup.sublist hall, ?_⟩
    rw [← flatten_pagesFrom_iff hlimit hmax, ← hpages]
    exact (hall.eq_of_length_le hlength).symm
  · rintro ⟨hnodup, hseparate⟩
    obtain ⟨fuel, pages, hvisit⟩ := exists_visit h hlimit hmax hstart
    have hpages := eq_of_visit h hlimit hmax hstart hvisit
    rw [hzero] at hpages
    have hflatten : pages.flatten = rows.filterMap find := by
      rw [hpages]
      exact (flatten_pagesFrom_iff hlimit hmax rows).mpr hseparate
    refine ⟨fuel, pages, hvisit, ?_⟩
    rw [hflatten]
    exact ⟨hnodup, fun model ↦ mem_filterMap, List.Sublist.refl _⟩

end Visit

/-- Rows of which the first has no model. -/
def deletedFirst : MergingOffsetPaginator ℕ ℕ ℕ where
  dataLoadFunc := fun offset limit ↦ ([0, 1, 2].drop offset.toNat).take limit.toNat
  applyToQueryset := fun rows ↦ [1, 2].filter (· ∈ rows)
  keyFromModel := id
  keyFromData := id
  maxLimit := 100
  onResults := none
  dataCountFunc := none
  querysetLoadFunc := none

/-- The models of its rows. -/
def deletedFind (row : ℕ) : Option ℕ := if row ∈ [1, 2] then some row else none

theorem deletedFirst_merges : deletedFirst.Merges [0, 1, 2] deletedFind where
  load := fun _ _ ↦ rfl
  model := by
    intro offset limit row hrow
    have hmem : row ∈ [0, 1, 2] := mem_of_mem_drop (mem_of_mem_take hrow)
    generalize ([0, 1, 2].drop offset).take limit = loaded at hrow ⊢
    show getItem (dictOfItems (([1, 2].filter (· ∈ loaded)).map fun model ↦ (model, model))) row =
      deletedFind row
    simp only [mem_cons, not_mem_nil, or_false] at hmem
    by_cases hone : 1 ∈ loaded <;> by_cases htwo : 2 ∈ loaded <;>
      rcases hmem with rfl | rfl | rfl <;>
      simp_all [dictOfItems, updateItems, setItem, getItem, deletedFind]
  onResults := rfl
  querysetLoadFunc := rfl

theorem visitsEach_iff_deletedFirst : deletedFirst.VisitsEach 1 [0, 1, 2] deletedFind ↔
    ([0, 1, 2].filterMap deletedFind).Nodup ∧ Separate 1 100 [0, 1, 2] deletedFind :=
  visitsEach_iff deletedFirst_merges (by decide) (by decide)

/-- A model is on two pages. -/
theorem deletedFirst_not_visitsEach : deletedFirst.Merges [0, 1, 2] deletedFind ∧
    ¬ deletedFirst.VisitsEach 1 [0, 1, 2] deletedFind := by
  refine ⟨deletedFirst_merges, ?_⟩
  rintro ⟨fuel, pages, hvisit, hnodup, -⟩
  have hthree : deletedFirst.visit 1 3 none = some [[1], [1], [2]] := by decide
  have hpages := eq_of_visit deletedFirst_merges Nat.one_pos (by decide) (Or.inl ⟨rfl, rfl⟩) hvisit
  have hthree := eq_of_visit deletedFirst_merges Nat.one_pos (by decide) (Or.inl ⟨rfl, rfl⟩) hthree
  rw [hpages, ← hthree] at hnodup
  exact absurd hnodup (by decide)

end MergingOffsetPaginator

end Sentry.Pagination
