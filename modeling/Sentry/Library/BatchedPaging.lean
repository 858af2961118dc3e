import Mathlib.Data.List.Perm.Subperm
import Mathlib.Data.List.Rotate
import Sentry.Library.Paging

/-!
# Paging in batches

A pager hands out batches: as long as the cache is full enough it cuts one off the cache, otherwise
it first reads another page. The rows may come in another order for every query. It hands out what
is cached and what is loaded (`exists_drain_nextBatch`), which is every row once exactly if no row
is in two pages (`perm_pagedRows_iff`).
-/

namespace Sentry.Library

open List

variable {α γ ε : Type*}

section Batches

variable (size : ℕ) (orders : ℕ → List α) (load : List α → List γ)
  (full : List γ → Bool) (cut : List γ → List γ × List γ)

def Pager.getBatch (s : Pager γ) : Option (List γ) × Pager γ :=
  (some (cut s.cache).1, { s with cache := (cut s.cache).2 })

def Pager.topUp (s : Pager γ) : Pager γ :=
  if s.hasMoreResults then s.fetch size (orders s.offset) load else s

def Pager.nextBatch (s : Pager γ) : Option (List γ) × Pager γ :=
  if full s.cache then s.getBatch cut
  else if (s.topUp size orders load).cache = [] then (none, s.topUp size orders load)
  else (s.topUp size orders load).getBatch cut

def orderedPage (k : ℕ) : List α := ((orders (k * size)).drop (k * size)).take size

/-- What is cached and what is in the pages from `k` on, of which there are at most `total`. -/
def Pager.batchesPending (total : ℕ) (s : Pager γ) (k : ℕ) : List γ :=
  s.cache ++ (List.range' k (total - k)).flatMap fun k ↦ load (orderedPage size orders k)

variable {size orders load full cut} {total k : ℕ} {s : Pager γ}

/-- The pager has read `k` pages, and all rows if there are no more. -/
structure HasRead (size total k : ℕ) (s : Pager γ) : Prop where
  offset_eq : s.offset = k * size
  le_of_no_more : s.hasMoreResults = false → total ≤ k * size

theorem orderedPage_eq_nil (horders : ∀ offset, (orders offset).length = total)
    (hk : total ≤ k * size) : orderedPage size orders k = [] := by
  rw [orderedPage, drop_eq_nil_of_le (by rw [horders]; exact hk), take_nil]

theorem batchesPending_eq_cache (horders : ∀ offset, (orders offset).length = total)
    (hnil : load [] = []) (hk : total ≤ k * size) :
    s.batchesPending size orders load total k = s.cache := by
  have hpages : (List.range' k (total - k)).flatMap
      (fun k ↦ load (orderedPage size orders k)) = [] := by
    rw [flatMap_eq_nil_iff]
    intro j hj
    have hle : k * size ≤ j * size := Nat.mul_le_mul_right size (List.mem_range'_1.mp hj).1
    rw [orderedPage_eq_nil horders (hk.trans hle), hnil]
  rw [Pager.batchesPending, hpages, append_nil]

theorem hasRead_initial : HasRead size total 0 (⟨0, true, []⟩ : Pager γ) :=
  ⟨(Nat.zero_mul size).symm, nofun⟩

theorem batchesPending_initial : (⟨0, true, []⟩ : Pager γ).batchesPending size orders load total 0 =
      (List.range total).flatMap fun k ↦ load (orderedPage size orders k) := by
  rw [Pager.batchesPending, nil_append, Nat.sub_zero, range_eq_range']

theorem HasRead.fetch (horders : ∀ offset, (orders offset).length = total)
    (h : HasRead size total k s) :
    HasRead size total (k + 1) (s.fetch size (orders s.offset) load) ∧
      (s.fetch size (orders s.offset) load).cache =
        s.cache ++ load (orderedPage size orders k) := by
  rw [fetch_eq, h.offset_eq]
  refine ⟨⟨(Nat.succ_mul k size).symm, fun hmore ↦ ?_⟩, rfl⟩
  have hlength := of_decide_eq_false hmore
  rw [length_drop, horders, not_lt] at hlength
  rw [Nat.succ_mul]
  omega

theorem HasRead.pending_fetch (horders : ∀ offset, (orders offset).length = total)
    (hsize : 0 < size) (hnil : load [] = []) (h : HasRead size total k s) :
    (s.fetch size (orders s.offset) load).batchesPending size orders load total (k + 1) =
      s.batchesPending size orders load total k := by
  rw [Pager.batchesPending, (h.fetch horders).2, append_assoc, Pager.batchesPending]
  by_cases hk : k < total
  · have hcount : total - k = total - (k + 1) + 1 := by omega
    rw [hcount, range'_succ, flatMap_cons]
  · have hnone : orderedPage size orders k = [] :=
      orderedPage_eq_nil horders ((not_lt.mp hk).trans (Nat.le_mul_of_pos_right k hsize))
    have hcount : total - k = 0 := by omega
    have hcount' : total - (k + 1) = 0 := by omega
    rw [hnone, hnil, hcount, hcount']
    rfl

/-- What a way to cut batches off the cache has to do. -/
structure Cuts (full : List γ → Bool) (cut : List γ → List γ × List γ) : Prop where
  append_eq : ∀ cache, (cut cache).1 ++ (cut cache).2 = cache
  ne_nil : ∀ cache, cache ≠ [] → (cut cache).1 ≠ []
  not_full_nil : full [] = false

def IsBatch (cut : List γ → List γ × List γ) (batch : List γ) : Prop :=
  ∃ cache, cache ≠ [] ∧ batch = (cut cache).1

variable (orders load) in
theorem exists_getBatch (hcut : Cuts full cut) (hcache : s.cache ≠ []) (k : ℕ)
    (h : HasRead size total k s) :
    ∃ batch t, s.getBatch cut = (some batch, t) ∧ HasRead size total k t ∧ batch ≠ [] ∧
      IsBatch cut batch ∧ s.batchesPending size orders load total k =
        batch ++ t.batchesPending size orders load total k := by
  refine ⟨(cut s.cache).1, { s with cache := (cut s.cache).2 }, rfl,
    ⟨h.offset_eq, h.le_of_no_more⟩, hcut.ne_nil _ hcache, ⟨s.cache, hcache, rfl⟩, ?_⟩
  rw [Pager.batchesPending, Pager.batchesPending, ← append_assoc, hcut.append_eq]

section

variable (hcut : Cuts full cut) (horders : ∀ offset, (orders offset).length = total)
  (hsize : 0 < size) (hnil : load [] = []) (hload : ∀ page, page ≠ [] → load page ≠ [])

include hcut horders hsize hnil hload

theorem exists_nextBatch (h : HasRead size total k s) :
    (s.batchesPending size orders load total k = [] ∧
      (s.nextBatch size orders load full cut).1 = none) ∨
    ∃ batch t k', s.nextBatch size orders load full cut = (some batch, t) ∧
      HasRead size total k' t ∧ batch ≠ [] ∧ IsBatch cut batch ∧
      s.batchesPending size orders load total k =
        batch ++ t.batchesPending size orders load total k' := by
  rw [Pager.nextBatch]
  split
  next hfull =>
    have hcache : s.cache ≠ [] := fun hcache ↦ by
      rw [hcache, hcut.not_full_nil] at hfull
      nomatch hfull
    obtain ⟨batch, t, hbatch⟩ := exists_getBatch orders load hcut hcache k h
    exact .inr ⟨batch, t, k, hbatch⟩
  next =>
    rw [Pager.topUp]
    split
    next hmore =>
      rw [← h.pending_fetch horders hsize hnil]
      split
      next hcache =>
        left
        refine ⟨?_, rfl⟩
        rw [batchesPending_eq_cache horders hnil, hcache]
        have hload' : orderedPage size orders k = [] := by
          by_contra hpage
          rw [(h.fetch horders).2, append_eq_nil_iff] at hcache
          exact hload _ hpage hcache.2
        rw [orderedPage, take_eq_nil_iff, or_iff_right hsize.ne', drop_eq_nil_iff,
          horders] at hload'
        exact hload'.trans (Nat.mul_le_mul_right size (Nat.le_succ k))
      next hcache =>
        right
        obtain ⟨batch, t, hbatch⟩ := exists_getBatch orders load hcut hcache
          (k + 1) (h.fetch horders).1
        exact ⟨batch, t, k + 1, hbatch⟩
    next hmore =>
      split
      next hcache =>
        left
        refine ⟨?_, rfl⟩
        rw [batchesPending_eq_cache horders hnil (h.le_of_no_more (eq_false_of_ne_true hmore)),
          hcache]
      next hcache =>
        right
        obtain ⟨batch, t, hbatch⟩ := exists_getBatch orders load hcut hcache k h
        exact ⟨batch, t, k, hbatch⟩

theorem exists_drain_nextBatch (outOfFuel : ε) {fuel : ℕ} (h : HasRead size total k s)
    (hfuel : (s.batchesPending size orders load total k).length < fuel) :
    ∃ batches, drain (Pager.nextBatch size orders load full cut) outOfFuel fuel s = .ok batches ∧
      batches.flatten = s.batchesPending size orders load total k ∧
      ∀ batch ∈ batches, IsBatch cut batch := by
  induction fuel generalizing s k with
  | zero => exact absurd hfuel (Nat.not_lt_zero _)
  | succ fuel ih =>
    rcases exists_nextBatch hcut horders hsize hnil hload h with
      ⟨hpending, hstop⟩ | ⟨batch, t, k', hnext, ht, hne, hbatch, hpending⟩
    · have hnext : s.nextBatch size orders load full cut =
          (none, (s.nextBatch size orders load full cut).2) := Prod.ext hstop rfl
      refine ⟨[], ?_, hpending.symm, nofun⟩
      rw [drain, hnext]
    · have hlength := length_pos_of_ne_nil hne
      rw [hpending, length_append] at hfuel
      obtain ⟨batches, hdrain, hflatten, hbatches⟩ := ih ht (by omega)
      refine ⟨batch :: batches, ?_, ?_, forall_mem_cons.mpr ⟨hbatch, hbatches⟩⟩
      · rw [drain, hnext]
        dsimp only
        rw [hdrain]
        rfl
      · rw [flatten_cons, hflatten, hpending]

end

end Batches

section Orders

variable {size total : ℕ} {orders : ℕ → List α} {rows : List α}

def pagedRows (size : ℕ) (orders : ℕ → List α) (total : ℕ) : List α :=
  (List.range total).flatMap (orderedPage size orders)

theorem length_flatMap_orderedPage (horders : ∀ offset, (orders offset).length = total)
    (k count : ℕ) : ((List.range' k count).flatMap (orderedPage size orders)).length =
      min (count * size) (total - k * size) := by
  induction count generalizing k with
  | zero => simp
  | succ count ih =>
    rw [range'_succ, flatMap_cons, length_append, ih, orderedPage, length_take,
      length_drop, horders, Nat.succ_mul, Nat.succ_mul]
    omega

theorem length_pagedRows (horders : ∀ offset, (orders offset).length = total) (hsize : 0 < size) :
    (pagedRows size orders total).length = total := by
  rw [pagedRows, range_eq_range', length_flatMap_orderedPage horders]
  have hle : total ≤ total * size := Nat.le_mul_of_pos_right total hsize
  omega

theorem flatMap_orderedPage_const (rows : List α) (k count : ℕ) :
    (List.range' k count).flatMap (orderedPage size fun _ ↦ rows) =
      (rows.drop (k * size)).take (count * size) := by
  induction count generalizing k with
  | zero => simp
  | succ count ih =>
    rw [range'_succ, flatMap_cons, ih, orderedPage, Nat.succ_mul k, Nat.succ_mul count,
      Nat.add_comm (count * size), take_add, drop_drop]

theorem pagedRows_const (hsize : 0 < size) (rows : List α) :
    pagedRows size (fun _ ↦ rows) rows.length = rows := by
  rw [pagedRows, range_eq_range', flatMap_orderedPage_const, Nat.zero_mul, drop_zero]
  exact take_of_length_le (Nat.le_mul_of_pos_right _ hsize)

/-- No row is in two pages. -/
def PagesDisjoint (size : ℕ) (orders : ℕ → List α) : Prop :=
  ∀ k k', k < k' → (orderedPage size orders k).Disjoint (orderedPage size orders k')

theorem orderedPage_sublist (k : ℕ) : (orderedPage size orders k).Sublist (orders (k * size)) :=
  (take_sublist _ _).trans (drop_sublist _ _)

theorem nodup_pagedRows_iff (hsize : 0 < size) (horders : ∀ offset, (orders offset).length = total)
    (hnodup : ∀ offset, (orders offset).Nodup) :
    (pagedRows size orders total).Nodup ↔ PagesDisjoint size orders := by
  have hpages (k : ℕ) : (orderedPage size orders k).Nodup :=
    (hnodup (k * size)).sublist (orderedPage_sublist k)
  rw [pagedRows, nodup_flatMap, and_iff_right fun k _ ↦ hpages k]
  constructor
  · intro hpairwise k k' hlt
    by_cases hk' : k' < total
    · have hk := hlt.trans hk'
      have hdisjoint := pairwise_iff_getElem.mp hpairwise k k' (by simpa using hk)
        (by simpa using hk') hlt
      simpa [getElem_range, Function.onFun] using hdisjoint
    · rw [orderedPage_eq_nil horders ((not_lt.mp hk').trans (Nat.le_mul_of_pos_right k' hsize))]
      exact disjoint_nil_right _
  · intro hdisjoint
    exact pairwise_lt_range.imp fun hlt ↦ hdisjoint _ _ hlt

theorem perm_pagedRows_iff (hsize : 0 < size) (hrows : rows.Nodup)
    (horders : ∀ offset, (orders offset).Perm rows) :
    (pagedRows size orders rows.length).Perm rows ↔ PagesDisjoint size orders := by
  have hlength (offset : ℕ) : (orders offset).length = rows.length := (horders offset).length_eq
  have hnodup (offset : ℕ) : (orders offset).Nodup := (horders offset).nodup_iff.mpr hrows
  rw [← nodup_pagedRows_iff hsize hlength hnodup]
  constructor
  · exact fun hperm ↦ hperm.nodup_iff.mpr hrows
  · intro hpaged
    refine (hpaged.subperm fun row hrow ↦ ?_).perm_of_length_le
      (length_pagedRows hlength hsize).symm.le
    obtain ⟨k, -, hmem⟩ := mem_flatMap.mp hrow
    exact (horders _).subset ((orderedPage_sublist k).subset hmem)

theorem pagesDisjoint_of_le (horders : ∀ offset, (orders offset).length = total)
    (h : total ≤ size) : PagesDisjoint size orders := by
  intro k k' hlt
  have hle : total ≤ k' * size := by
    calc total ≤ 1 * size := by rwa [Nat.one_mul]
      _ ≤ k' * size := Nat.mul_le_mul_right size (by omega)
  rw [orderedPage_eq_nil horders hle]
  exact disjoint_nil_right _

theorem exists_not_pagesDisjoint (hsize : 0 < size) (h : size < rows.length) :
    ∃ orders : ℕ → List α, (∀ offset, (orders offset).Perm rows) ∧ ¬ PagesDisjoint size orders := by
  refine ⟨fun offset ↦ if offset = 0 then rows else rows.rotate (rows.length - size), ?_, ?_⟩
  · intro offset
    dsimp only
    split
    · exact List.Perm.refl rows
    · exact rotate_perm rows _
  · intro hdisjoint
    obtain ⟨first, rest, rfl⟩ := exists_cons_of_ne_nil (ne_nil_of_length_pos
      (hsize.trans h))
    have hmem {count : ℕ} (hcount : 0 < count) : first ∈ (first :: rest).take count := by
      obtain ⟨count, rfl⟩ := Nat.exists_eq_succ_of_ne_zero hcount.ne'
      exact mem_cons_self
    have hdrop : ((first :: rest).drop ((first :: rest).length - size)).length = size := by
      rw [length_drop]
      omega
    have hpages := hdisjoint 0 1 Nat.zero_lt_one
    refine @hpages first ?_ ?_
    · rw [orderedPage, Nat.zero_mul, if_pos rfl, drop_zero]
      exact hmem hsize
    · rw [orderedPage, Nat.one_mul, if_neg hsize.ne', rotate_eq_drop_append_take (by omega)]
      rw [drop_left' hdrop, take_take]
      exact hmem (by omega)

end Orders

end Sentry.Library
