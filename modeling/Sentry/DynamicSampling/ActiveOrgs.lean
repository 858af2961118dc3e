import Mathlib.Algebra.Order.Ring.Int
import Sentry.Library.BatchedPaging

/-!
# Active organisations

`dynamic_sampling/tasks/common.py`. `GetActiveOrgs` and `GetActiveOrgsVolumes` read organisations in
pages and hand them out in batches. The query of the second one has no order, and the rows may come
in another order for every page (`orders`). Then an organisation can be in two pages, and another
one in none (`iterators_cover_iff`).
-/

namespace Sentry.DynamicSampling

open Library List

inductive IterationError
  | outOfFuel
  deriving DecidableEq, Repr

/-- The first state of an iterator: `offset`, `has_more_results` and, as the cache,
`last_result`. -/
def initialPager {γ : Type} : Pager γ := ⟨0, true, []⟩

structure OrgRow where
  orgId : ℕ
  numProjects : ℕ
  deriving DecidableEq, Repr

namespace GetActiveOrgs

variable (maxOrgs : ℕ) (maxProjects : Option ℤ)

/-- `_enough_results_cached`. The total of the projects is not compared, only the projects of each
organisation. -/
def enoughResultsCached (lastResult : List OrgRow) : Bool :=
  maxOrgs ≤ lastResult.length ||
    maxProjects.any fun most ↦ lastResult.any fun row ↦ most ≤ (row.numProjects : ℤ)

/-- The loop of `_get_from_cache` from an index on, with the projects counted before it: the batch,
and what stays in the cache. -/
def getFrom (idx : ℕ) (countProjects : ℤ) : List OrgRow → List OrgRow × List OrgRow
  | [] => ([], [])
  | row :: rest =>
    if maxOrgs ≤ idx + 1 ∨ maxProjects.any (· ≤ countProjects + row.numProjects) then ([row], rest)
    else
      (row :: (getFrom (idx + 1) (countProjects + row.numProjects) rest).1,
        (getFrom (idx + 1) (countProjects + row.numProjects) rest).2)

/-- `_get_from_cache`, before `_get_orgs` takes the ids. -/
def getFromCache : List OrgRow → List OrgRow × List OrgRow := getFrom maxOrgs maxProjects 0 0

/-- The rows as `ORDER BY org_id` gives them. -/
def orderedBy (rows : List OrgRow) : List OrgRow :=
  rows.mergeSort fun row row' ↦ row.orgId ≤ row'.orgId

/-- The batches until `StopIteration`. -/
def iterate (chunkSize : ℕ) (rows : List OrgRow) : Except IterationError (List (List OrgRow)) :=
  drain (Pager.nextBatch chunkSize (fun _ ↦ orderedBy rows) id
      (enoughResultsCached maxOrgs maxProjects) (getFromCache maxOrgs maxProjects))
    .outOfFuel (rows.length + 1) initialPager

/-- Every organisation once, in batches of at most so many, and without the last one of a batch not
more projects than allowed. -/
def Covers (chunkSize : ℕ) (rows : List OrgRow) : Prop :=
  ∃ batches, iterate maxOrgs maxProjects chunkSize rows = .ok batches ∧
    (batches.flatten.map OrgRow.orgId).Perm (rows.map OrgRow.orgId) ∧
    ∀ batch ∈ batches, batch.length ≤ maxOrgs ∧
      ∀ most ∈ maxProjects, ∀ last ∈ batch.getLast?,
        (batch.map fun row ↦ (row.numProjects : ℤ)).sum ≤ most + last.numProjects

end GetActiveOrgs

structure OrgVolumeRow where
  orgId : ℕ
  totalCount : ℤ
  keepCount : ℤ
  deriving DecidableEq, Repr

structure OrganizationDataVolume where
  orgId : ℕ
  total : ℤ
  indexed : Option ℤ
  deriving DecidableEq, Repr

namespace GetActiveOrgsVolumes

variable (maxOrgs : ℕ) (includeKeep : Bool)

/-- `_enough_results_cached` -/
def enoughResultsCached (lastResult : List OrganizationDataVolume) : Bool :=
  maxOrgs ≤ lastResult.length

/-- `_get_from_cache` -/
def getFromCache (lastResult : List OrganizationDataVolume) :
    List OrganizationDataVolume × List OrganizationDataVolume :=
  if maxOrgs ≤ lastResult.length then (lastResult.take maxOrgs, lastResult.drop maxOrgs)
  else (lastResult, [])

def volumeOf (row : OrgVolumeRow) : OrganizationDataVolume :=
  ⟨row.orgId, row.totalCount, if includeKeep then some row.keepCount else none⟩

/-- The batches until `StopIteration`, if the query at each offset has its rows in such an order. -/
def iterate (chunkSize total : ℕ) (orders : ℕ → List OrgVolumeRow) :
    Except IterationError (List (List OrganizationDataVolume)) :=
  drain (Pager.nextBatch chunkSize orders (List.map (volumeOf includeKeep))
      (enoughResultsCached maxOrgs) (getFromCache maxOrgs))
    .outOfFuel (total + 1) initialPager

/-- Every organisation once, in batches of at most so many. -/
def Covers (chunkSize : ℕ) (rows : List OrgVolumeRow) (orders : ℕ → List OrgVolumeRow) : Prop :=
  ∃ batches, iterate maxOrgs includeKeep chunkSize rows.length orders = .ok batches ∧
    (batches.flatten.map OrganizationDataVolume.orgId).Perm (rows.map OrgVolumeRow.orgId) ∧
    ∀ batch ∈ batches, batch.length ≤ maxOrgs

end GetActiveOrgsVolumes

namespace GetActiveOrgs

variable {maxOrgs : ℕ} {maxProjects : Option ℤ}

theorem getFrom_append (rows : List OrgRow) (idx : ℕ) (count : ℤ) :
    (getFrom maxOrgs maxProjects idx count rows).1 ++
      (getFrom maxOrgs maxProjects idx count rows).2 = rows := by
  induction rows generalizing idx count with
  | nil => rfl
  | cons row rest ih =>
    rw [getFrom]
    split
    · rfl
    · rw [cons_append, ih]

theorem getFrom_ne_nil {rows : List OrgRow} (h : rows ≠ []) (idx : ℕ) (count : ℤ) :
    (getFrom maxOrgs maxProjects idx count rows).1 ≠ [] := by
  obtain ⟨row, rest, rfl⟩ := exists_cons_of_ne_nil h
  rw [getFrom]
  split
  all_goals exact cons_ne_nil _ _

variable (maxProjects) in
theorem length_getFrom_le {idx : ℕ} (h : idx < maxOrgs) (count : ℤ) (rows : List OrgRow) :
    idx + (getFrom maxOrgs maxProjects idx count rows).1.length ≤ maxOrgs := by
  induction rows generalizing idx count with
  | nil => exact h.le
  | cons row rest ih =>
    rw [getFrom]
    split
    next => exact h
    next hgo =>
      rw [not_or, not_le] at hgo
      have hrest := ih hgo.1 (count + row.numProjects)
      rw [length_cons]
      omega

theorem sum_getFrom_le {most count : ℤ} (hmost : most ∈ maxProjects) (hcount : count ≤ most)
    {idx : ℕ} {rows : List OrgRow} {last : OrgRow}
    (hlast : last ∈ (getFrom maxOrgs maxProjects idx count rows).1.getLast?) :
    count + ((getFrom maxOrgs maxProjects idx count rows).1.map
      fun row ↦ (row.numProjects : ℤ)).sum ≤ most + last.numProjects := by
  induction rows generalizing idx count with
  | nil => nomatch hlast
  | cons row rest ih =>
    by_cases hstop : maxOrgs ≤ idx + 1 ∨
        maxProjects.any (fun most ↦ most ≤ count + (row.numProjects : ℤ)) = true
    · rw [getFrom, if_pos hstop] at hlast ⊢
      obtain rfl : row = last := Option.some.inj hlast
      exact Int.add_le_add_right hcount _
    · rw [getFrom, if_neg hstop] at hlast ⊢
      rw [not_or, Option.mem_def.mp hmost, Option.any_some, decide_eq_true_eq, not_le] at hstop
      rw [map_cons, sum_cons, ← add_assoc]
      cases rest with
      | nil =>
        obtain rfl : row = last := Option.some.inj hlast
        rw [getFrom, map_nil, sum_nil, add_zero]
        exact Int.add_le_add_right hcount _
      | cons next rest =>
        refine ih (not_le.mp hstop.2).le ?_
        obtain ⟨first, batch, hbatch⟩ := exists_cons_of_ne_nil
          (@getFrom_ne_nil maxOrgs maxProjects _ (cons_ne_nil next rest) (idx + 1)
            (count + row.numProjects))
        rwa [hbatch, getLast?_cons_cons, ← hbatch] at hlast

theorem getFromCache_of_neg {most : ℤ} (hmost : most ∈ maxProjects) (hneg : most < 0) (row : OrgRow)
    (rest : List OrgRow) : (getFromCache maxOrgs maxProjects (row :: rest)).1 = [row] := by
  have hstop : maxProjects.any (fun most ↦ most ≤ 0 + (row.numProjects : ℤ)) = true := by
    rw [Option.mem_def.mp hmost, Option.any_some, decide_eq_true_eq]
    omega
  rw [getFromCache, getFrom, if_pos (.inr hstop)]

variable (maxProjects) in
theorem cuts (hmax : 0 < maxOrgs) :
    Cuts (enoughResultsCached maxOrgs maxProjects) (getFromCache maxOrgs maxProjects) where
  append_eq cache := getFrom_append cache 0 0
  ne_nil _ hcache := getFrom_ne_nil hcache 0 0
  not_full_nil := by
    cases maxProjects <;> simp [enoughResultsCached, hmax.ne']

variable (maxProjects) in
theorem exists_iterate {chunkSize : ℕ} (hchunk : 0 < chunkSize) (hmax : 0 < maxOrgs)
    (rows : List OrgRow) :
    ∃ batches, iterate maxOrgs maxProjects chunkSize rows = .ok batches ∧
      batches.flatten = orderedBy rows ∧
      ∀ batch ∈ batches, IsBatch (getFromCache maxOrgs maxProjects) batch := by
  have hlength : (orderedBy rows).length = rows.length := length_mergeSort rows
  have hpending : (⟨0, true, []⟩ : Pager OrgRow).batchesPending chunkSize (fun _ ↦ orderedBy rows)
      id rows.length 0 = orderedBy rows := by
    rw [batchesPending_initial, ← hlength]
    exact pagedRows_const hchunk (orderedBy rows)
  have hload (page : List OrgRow) (hpage : page ≠ []) : id page ≠ [] := hpage
  obtain ⟨batches, hdrain, hflatten, hbatches⟩ :=
    exists_drain_nextBatch (cuts maxProjects hmax) (fun _ ↦ hlength) hchunk rfl hload
      IterationError.outOfFuel hasRead_initial
      (show _ < rows.length + 1 by rw [hpending, hlength]; omega)
  exact ⟨batches, hdrain, hflatten.trans hpending, hbatches⟩

theorem covers_iff {chunkSize : ℕ} (hchunk : 0 < chunkSize) (hmax : 0 < maxOrgs)
    (rows : List OrgRow) : Covers maxOrgs maxProjects chunkSize rows ↔
      (∀ most ∈ maxProjects, 0 ≤ most) ∨ rows = [] := by
  obtain ⟨batches, hiterate, hflatten, hbatches⟩ :=
    exists_iterate maxProjects hchunk hmax rows
  have hperm : (batches.flatten.map OrgRow.orgId).Perm (rows.map OrgRow.orgId) := by
    rw [hflatten]
    exact (mergeSort_perm rows _).map _
  constructor
  · rintro ⟨batches', hiterate', -, hlimits⟩
    obtain rfl : batches = batches' := Except.ok.inj (hiterate.symm.trans hiterate')
    by_cases hnil : rows = []
    · exact .inr hnil
    · left
      intro most hmost
      by_contra hneg
      obtain ⟨row, hrow⟩ := exists_mem_of_ne_nil rows hnil
      have hmem : row ∈ batches.flatten := by
        rw [hflatten]
        exact (mergeSort_perm rows _).mem_iff.mpr hrow
      obtain ⟨batch, hbatch, -⟩ := mem_flatten.mp hmem
      obtain ⟨cache, hcache, rfl⟩ := hbatches batch hbatch
      obtain ⟨first, rest, rfl⟩ := exists_cons_of_ne_nil hcache
      have hsum := (hlimits _ hbatch).2 most hmost first
      rw [getFromCache_of_neg hmost (not_le.mp hneg), map_singleton, sum_singleton] at hsum
      have hle := hsum rfl
      omega
  · intro h
    refine ⟨batches, hiterate, hperm, fun batch hbatch ↦ ?_⟩
    obtain ⟨cache, hcache, rfl⟩ := hbatches batch hbatch
    refine ⟨?_, fun most hmost last hlast ↦ ?_⟩
    · have hlength := length_getFrom_le maxProjects hmax 0 cache
      rwa [Nat.zero_add] at hlength
    · rcases h with hnonneg | hnil
      · have hsum := sum_getFrom_le hmost (hnonneg most hmost) hlast
        rwa [zero_add] at hsum
      · have hbatch' : (getFromCache maxOrgs maxProjects cache).1 ⊆ batches.flatten :=
          fun row hrow ↦ mem_flatten.mpr ⟨_, hbatch, hrow⟩
        rw [hflatten, hnil, orderedBy, mergeSort_nil] at hbatch'
        exact absurd (subset_nil.mp hbatch') (getFrom_ne_nil hcache 0 0)

end GetActiveOrgs

namespace GetActiveOrgsVolumes

variable {maxOrgs : ℕ} {includeKeep : Bool} {chunkSize : ℕ} {rows : List OrgVolumeRow}
  {orders : ℕ → List OrgVolumeRow}

theorem cuts (hmax : 0 < maxOrgs) : Cuts (enoughResultsCached maxOrgs) (getFromCache maxOrgs) where
  append_eq cache := by
    rw [getFromCache]
    split
    · exact take_append_drop maxOrgs cache
    · exact append_nil cache
  ne_nil cache hcache := by
    rw [getFromCache]
    split
    · rw [Ne, take_eq_nil_iff, not_or]
      exact ⟨hmax.ne', hcache⟩
    · exact hcache
  not_full_nil := decide_eq_false (not_le.mpr hmax)

theorem length_getFromCache_le (cache : List OrganizationDataVolume) :
    (getFromCache maxOrgs cache).1.length ≤ maxOrgs := by
  rw [getFromCache]
  split
  next => exact length_take_le maxOrgs cache
  next hless => exact (not_le.mp hless).le

variable (includeKeep) in
theorem exists_iterate (hchunk : 0 < chunkSize) (hmax : 0 < maxOrgs)
    (horders : ∀ offset, (orders offset).Perm rows) :
    ∃ batches, iterate maxOrgs includeKeep chunkSize rows.length orders = .ok batches ∧
      batches.flatten = (pagedRows chunkSize orders rows.length).map (volumeOf includeKeep) ∧
      ∀ batch ∈ batches, batch.length ≤ maxOrgs := by
  have hlength (offset : ℕ) : (orders offset).length = rows.length := (horders offset).length_eq
  have hpending : (⟨0, true, []⟩ : Pager OrganizationDataVolume).batchesPending chunkSize orders
      (List.map (volumeOf includeKeep)) rows.length 0 =
      (pagedRows chunkSize orders rows.length).map (volumeOf includeKeep) := by
    rw [batchesPending_initial, pagedRows, map_flatMap]
  have hload (page : List OrgVolumeRow) (hpage : page ≠ []) :
      page.map (volumeOf includeKeep) ≠ [] := mt map_eq_nil_iff.mp hpage
  obtain ⟨batches, hdrain, hflatten, hbatches⟩ :=
    exists_drain_nextBatch (cuts hmax) hlength hchunk rfl hload IterationError.outOfFuel
      hasRead_initial (show _ < rows.length + 1 by
        rw [hpending, length_map, length_pagedRows hlength hchunk]; omega)
  refine ⟨batches, hdrain, hflatten.trans hpending, fun batch hbatch ↦ ?_⟩
  obtain ⟨cache, -, rfl⟩ := hbatches batch hbatch
  exact length_getFromCache_le cache

theorem covers_iff (hchunk : 0 < chunkSize) (hmax : 0 < maxOrgs)
    (hrows : (rows.map OrgVolumeRow.orgId).Nodup) (horders : ∀ offset, (orders offset).Perm rows) :
    Covers maxOrgs includeKeep chunkSize rows orders ↔ PagesDisjoint chunkSize orders := by
  obtain ⟨batches, hiterate, hflatten, hbatches⟩ :=
    exists_iterate includeKeep hchunk hmax horders
  have hids : batches.flatten.map OrganizationDataVolume.orgId =
      (pagedRows chunkSize orders rows.length).map OrgVolumeRow.orgId := by
    rw [hflatten, map_map]
    rfl
  constructor
  · rintro ⟨batches', hiterate', hperm, -⟩
    obtain rfl : batches = batches' := Except.ok.inj (hiterate.symm.trans hiterate')
    rw [hids] at hperm
    have hnodup (offset : ℕ) : (orders offset).Nodup := (horders offset).nodup_iff.mpr hrows.of_map
    rw [← nodup_pagedRows_iff hchunk (fun offset ↦ (horders offset).length_eq) hnodup]
    exact (hperm.nodup_iff.mpr hrows).of_map
  · intro hdisjoint
    have hperm := (perm_pagedRows_iff hchunk hrows.of_map horders).mpr hdisjoint
    exact ⟨batches, hiterate, hids ▸ hperm.map _, hbatches⟩

end GetActiveOrgsVolumes

/-- Both iterators cover every organisation once exactly if projects are allowed, or there are no
organisations, and no organisation is in two pages of the query without an order. They do so
whatever the orders are exactly if all volumes fit into one page. -/
theorem iterators_cover_iff {chunkSize maxOrgs : ℕ} (hchunk : 0 < chunkSize) (hmax : 0 < maxOrgs)
    (maxProjects : Option ℤ) (includeKeep : Bool) (rows : List OrgRow) {volumes : List OrgVolumeRow}
    (hvolumes : (volumes.map OrgVolumeRow.orgId).Nodup) :
    (∀ orders : ℕ → List OrgVolumeRow, (∀ offset, (orders offset).Perm volumes) →
      (GetActiveOrgs.Covers maxOrgs maxProjects chunkSize rows ∧
          GetActiveOrgsVolumes.Covers maxOrgs includeKeep chunkSize volumes orders ↔
        ((∀ most ∈ maxProjects, 0 ≤ most) ∨ rows = []) ∧ PagesDisjoint chunkSize orders)) ∧
    ((∀ orders : ℕ → List OrgVolumeRow, (∀ offset, (orders offset).Perm volumes) →
        GetActiveOrgs.Covers maxOrgs maxProjects chunkSize rows ∧
          GetActiveOrgsVolumes.Covers maxOrgs includeKeep chunkSize volumes orders) ↔
      ((∀ most ∈ maxProjects, 0 ≤ most) ∨ rows = []) ∧ volumes.length ≤ chunkSize) := by
  have hboth (orders : ℕ → List OrgVolumeRow) (horders : ∀ offset, (orders offset).Perm volumes) :
      GetActiveOrgs.Covers maxOrgs maxProjects chunkSize rows ∧
          GetActiveOrgsVolumes.Covers maxOrgs includeKeep chunkSize volumes orders ↔
        ((∀ most ∈ maxProjects, 0 ≤ most) ∨ rows = []) ∧ PagesDisjoint chunkSize orders := by
    rw [GetActiveOrgs.covers_iff hchunk hmax,
      GetActiveOrgsVolumes.covers_iff hchunk hmax hvolumes horders]
  refine ⟨hboth, ?_, ?_⟩
  · intro hall
    refine ⟨((hboth _ fun _ ↦ List.Perm.refl volumes).mp
      (hall _ fun _ ↦ List.Perm.refl volumes)).1, ?_⟩
    by_contra hless
    obtain ⟨orders, horders, hoverlap⟩ := exists_not_pagesDisjoint hchunk (not_le.mp hless)
    exact hoverlap ((hboth orders horders).mp (hall orders horders)).2
  · rintro ⟨hprojects, hless⟩ orders horders
    exact (hboth orders horders).mpr
      ⟨hprojects, pagesDisjoint_of_le (fun offset ↦ (horders offset).length_eq) hless⟩

/-- The rows of two organisations, in the order of their ids for the first query and the other way
round for the next one. -/
def turnedOrders (offset : ℕ) : List OrgVolumeRow :=
  if offset = 0 then [⟨1, 10, 5⟩, ⟨2, 20, 5⟩] else [⟨2, 20, 5⟩, ⟨1, 10, 5⟩]

/-- With pages of one row, the first organisation is handed out twice and the second one is not. -/
theorem turnedOrders_not_covers :
    GetActiveOrgsVolumes.iterate 1 true 1 2 turnedOrders =
        .ok [[⟨1, 10, some 5⟩], [⟨1, 10, some 5⟩]] ∧
      ¬ GetActiveOrgsVolumes.Covers 1 true 1 [⟨1, 10, 5⟩, ⟨2, 20, 5⟩] turnedOrders := by
  have hiterate : GetActiveOrgsVolumes.iterate 1 true 1 2 turnedOrders =
      .ok [[⟨1, 10, some 5⟩], [⟨1, 10, some 5⟩]] := by
    decide
  refine ⟨hiterate, ?_⟩
  rintro ⟨batches, hbatches, hperm, -⟩
  obtain rfl := Except.ok.inj (hiterate.symm.trans hbatches)
  exact absurd hperm (by decide)

theorem iterators_cover_iff_twoOrgs :
    GetActiveOrgs.Covers 2 (some 5) 1 [⟨7, 3⟩, ⟨4, 9⟩] ∧
        GetActiveOrgsVolumes.Covers 2 true 1 [⟨1, 10, 5⟩, ⟨2, 20, 5⟩] turnedOrders ↔
      ((∀ most ∈ some (5 : ℤ), 0 ≤ most) ∨ [(⟨7, 3⟩ : OrgRow), ⟨4, 9⟩] = []) ∧
        PagesDisjoint 1 turnedOrders := by
  have hvolumes : (([⟨1, 10, 5⟩, ⟨2, 20, 5⟩] : List OrgVolumeRow).map
      OrgVolumeRow.orgId).Nodup := by
    decide
  refine (iterators_cover_iff Nat.one_pos Nat.two_pos (some 5) true [⟨7, 3⟩, ⟨4, 9⟩]
    hvolumes).1 turnedOrders fun offset ↦ ?_
  rw [turnedOrders]
  split
  · exact List.Perm.refl _
  · exact List.Perm.swap _ _ _

end Sentry.DynamicSampling
