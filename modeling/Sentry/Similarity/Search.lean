import Sentry.Library.KeyedFold
import Sentry.Similarity.MinHashIndex
import Mathlib.Algebra.Order.Field.Rat
import Mathlib.Algebra.Order.BigOperators.Group.List
import Mathlib.Data.Finset.Max
import Mathlib.Data.List.Chain
import Mathlib.Data.List.Sort
import Mathlib.Data.Prod.Lex

/-!
# Searching for similar items

A search has a list of parameters, and an item qualifies in a parameter if it is in a bucket of as
many bands as the threshold. Its hits are in a table with the positions of these parameters, which
may have gaps: `ipairs` stops at the first one, and `#` is one of the positions before a gap
(`Lua`). So the search returns the best items if no table has a gap; for every table with a gap
there is a search that does not (`search_best_iff`).
-/

namespace Sentry.Similarity.Search

open List
open Library (setItem getItem dictOfItems foldByKey foldValue)

/-! ### Tables -/

def ipairsFrom (table : List (ℕ × ℕ)) : ℕ → ℕ → List ℕ
  | 0, _ => []
  | fuel + 1, i =>
    match getItem table i with
    | some value => value :: ipairsFrom table fuel (i + 1)
    | none => []

def ipairs (table : List (ℕ × ℕ)) : List ℕ := ipairsFrom table table.length 1

/-- `table_ireduce`, with an addition. -/
def sum (table : List (ℕ × ℕ)) : ℕ := (ipairs table).foldl (fun total value ↦ total + value) 0

/-- An item that is found; the mean of a table without a first value may be no number. -/
structure Candidate where
  key : Label
  numHits : ℕ
  avgHits : Option ℚ

/-- An order in which the items of a list can be sorted. -/
structure ValidOrder (before : Candidate → Candidate → Bool) (rows : List Candidate) : Prop where
  asymm : ∀ a ∈ rows, ∀ b ∈ rows, before a b = true → before b a = false
  trans : ∀ a ∈ rows, ∀ b ∈ rows, ∀ c ∈ rows, before a b = false → before b c = false →
    before a c = false

/-- What Lua leaves open. `#` is a border of a table: it is zero or the position of a value, and
there is no value at the next position. `pairs` has any order. `table.sort` sorts if the order is a
valid one; otherwise it may fail, or return anything. -/
structure Lua where
  length : List ℕ → ℕ
  mem_of_length : ∀ positions, length positions = 0 ∨ length positions ∈ positions
  length_succ_notMem : ∀ positions, length positions + 1 ∉ positions
  pairs : List Candidate → List Candidate
  pairs_perm : ∀ rows, (pairs rows).Perm rows
  sort : (Candidate → Candidate → Bool) → List Candidate → Option (List Candidate)
  sort_valid : ∀ before rows, ValidOrder before rows → ∃ sorted, sort before rows = some sorted ∧
    sorted.Perm rows ∧ sorted.IsChain fun a b ↦ before b a = false

/-- `sum(t) / #t`, where zero divided by zero is not a number. -/
def avg (lua : Lua) (table : List (ℕ × ℕ)) : Option ℚ :=
  let n := lua.length (table.map Prod.fst)
  if n = 0 then none else some (sum table / n)

/-! ### Candidates -/

/-- The index that is searched. `SRANDMEMBER` takes some members of a set, for each parameter
anew. -/
structure SearchedIndex where
  config : IndexConfig
  candidateSetLimit : ℤ
  timestamp : ℤ
  scope : Label
  store : Store
  sample : ℕ → List Char → List Label
  sample_subset : ∀ i key, sample i key ⊆ store.sets key
  readable : ∀ index item, (getFrequencies config store scope index item).isSome

structure Parameter where
  index : Label
  threshold : ℤ
  frequencies : Frequencies

variable (searched : SearchedIndex)

def collectMembers (limit : ℤ) : List Label → List Label → List Label
  | results, [] => results
  | results, member :: members =>
    if member ∈ results then collectMembers limit results members
    else if limit ≤ ((results ++ [member]).length : ℤ) then results ++ [member]
    else collectMembers limit (results ++ [member]) members

def TimeSeriesSet.members (i : ℕ) (keyFunction : ℤ → List Char) : List Label :=
  collectMembers searched.candidateSetLimit [] ((window searched.config searched.timestamp).flatMap
    fun index ↦ searched.sample i (keyFunction index))

def bucketMembers (i : ℕ) (index : Label) (bucket : ℕ × List Char × ℤ) : List Label :=
  TimeSeriesSet.members searched i (getBucketMembershipKey searched.config searched.scope index
    (packFrequencyCoordinate bucket.1 bucket.2.1))

def fetchCandidates (i : ℕ) (index : Label) (frequencies : Frequencies) : List (Label × ℕ) :=
  let found := (eachBucket frequencies).flatMap fun bucket ↦
    (bucketMembers searched i index bucket).map fun member ↦ (member, bucket.1)
  let candidates := foldByKey (fun item : Label × ℕ ↦ some item.1)
    (fun bands item ↦ setItem item.2 true (bands.getD [])) [] found
  candidates.map fun candidate ↦ (candidate.1, candidate.2.length)

def possibleCandidates (parameters : List Parameter) : List (Label × List (ℕ × ℕ)) :=
  let qualifying := parameters.zipIdx.flatMap fun p ↦
    ((fetchCandidates searched p.2 p.1.index p.1.frequencies).filter fun candidate ↦
      p.1.threshold ≤ (candidate.2 : ℤ)).map fun candidate ↦ (candidate.1, p.2 + 1, candidate.2)
  foldByKey (fun item : Label × ℕ × ℕ ↦ some item.1)
    (fun table item ↦ setItem item.2.1 item.2.2 (table.getD [])) [] qualifying

/-- `a > b`, which is false if one is not a number. -/
def greater : Option ℚ → Option ℚ → Bool
  | some a, some b => b < a
  | _, _ => false

def sortsBefore (this that : Candidate) : Bool :=
  if greater this.avgHits that.avgHits then true
  else if greater that.avgHits this.avgHits then false
  else if this.numHits > that.numHits then true
  else if this.numHits < that.numHits then false
  else decide (this.key.text < that.key.text)

def rankCandidates (lua : Lua) (parameters : List Parameter) (limit : ℤ) :
    Option (List Candidate) :=
  let candidates := lua.pairs ((possibleCandidates searched parameters).map fun candidate ↦
    ⟨candidate.1, lua.length (candidate.2.map Prod.fst), avg lua candidate.2⟩)
  if 0 ≤ limit ∧ limit < (candidates.length : ℤ) then
    (lua.sort sortsBefore candidates).map fun sorted ↦ sorted.take limit.toNat
  else some candidates

variable {Score : Type} (calculateSimilarity : Frequencies → Frequencies → Score)

/-- The candidates with their scores for the parameters. -/
def search (lua : Lua) (parameters : List Parameter) (limit : ℤ) :
    Option (List (Label × List Score)) := do
  let candidates ← rankCandidates searched lua parameters limit
  candidates.mapM fun candidate ↦ do
    let result ← parameters.mapM fun p ↦ do
      let candidateFrequencies ←
        getFrequencies searched.config searched.store searched.scope p.index candidate.key
      return calculateSimilarity p.frequencies candidateFrequencies
    return (candidate.key, result)

/-- The command `CLASSIFY`. -/
def classify (lua : Lua) (limit : ℤ) (parameters : List Parameter) :
    Option (List (Label × List Score)) :=
  search searched calculateSimilarity lua parameters limit

/-- The command `COMPARE`, with the indexes and thresholds. -/
def compare (lua : Lua) (limit : ℤ) (itemKey : Label) (parameters : List (Label × ℤ)) :
    Option (List (Label × List Score)) := do
  let parameters ← parameters.mapM fun p ↦ do
    let frequencies ← getFrequencies searched.config searched.store searched.scope p.1 itemKey
    return ⟨p.1, p.2, frequencies⟩
  search searched calculateSimilarity lua parameters limit

/-! ### Statements -/

def hits (i : ℕ) (p : Parameter) (key : Label) : ℕ :=
  (((eachBucket p.frequencies).filter fun bucket ↦
    key ∈ bucketMembers searched i p.index bucket).map Prod.fst).dedup.length

/-- The positions of the parameters in which an item qualifies, with its hits. -/
def qualified (parameters : List Parameter) (key : Label) : List (ℕ × ℕ) :=
  parameters.zipIdx.filterMap fun p ↦
    if 0 < hits searched p.2 p.1 key ∧ p.1.threshold ≤ (hits searched p.2 p.1 key : ℤ) then
      some (p.2 + 1, hits searched p.2 p.1 key)
    else none

def meanHits (table : List (ℕ × ℕ)) : ℚ := ((table.map Prod.snd).sum : ℕ) / (table.length : ℕ)

def RanksAbove (table table' : List (ℕ × ℕ)) : Prop :=
  meanHits table' < meanHits table ∨ meanHits table = meanHits table' ∧ table'.length < table.length

/-- What is returned are items that qualify, and none of the others ranks above one of them. -/
structure Best (parameters : List Parameter) (limit : ℤ) (returned : List Label) : Prop where
  nodup : returned.Nodup
  qualifies : ∀ key ∈ returned, qualified searched parameters key ≠ []
  length_le : (returned.length : ℤ) ≤ limit
  ranked : ∀ key ∈ returned, ∀ other, other ∉ returned →
    qualified searched parameters other ≠ [] →
    ¬ RanksAbove (qualified searched parameters other) (qualified searched parameters key)

def ReturnsBest (lua : Lua) (parameters : List Parameter) (limit : ℤ) : Prop :=
  ∃ results, search searched calculateSimilarity lua parameters limit = some results ∧
    Best searched parameters limit (results.map Prod.fst)

/-- The parameters without a gap are the first ones. -/
def Gapless (positions : List ℕ) : Prop := positions = List.range' 1 positions.length

instance (positions : List ℕ) : Decidable (Gapless positions) :=
  inferInstanceAs (Decidable (positions = List.range' 1 positions.length))

/-- Positions of parameters, in their order. -/
structure IsPattern (positions : List ℕ) : Prop where
  ne_nil : positions ≠ []
  increasing : positions.Pairwise (· < ·)
  pos : ∀ position ∈ positions, 1 ≤ position

/-- There are not more items that qualify. -/
def AtMost (parameters : List Parameter) (limit : ℤ) : Prop :=
  ∀ keys : List Label, keys.Nodup → (∀ key ∈ keys, qualified searched parameters key ≠ []) →
    (keys.length : ℤ) ≤ limit

/-! ### Dictionaries of tables -/

section Tables

variable {κ α : Type} [DecidableEq κ]

theorem foldValue_setItem {β ι : Type} [DecidableEq ι] (position : α → ι) (value : α → β)
    (items : List α) :
    foldValue (fun table item ↦ setItem (position item) (value item) (table.getD [])) none items =
      if items = [] then none
      else some (dictOfItems (items.map fun item ↦ (position item, value item))) := by
  induction items using reverseRecOn with
  | nil => rfl
  | append_singleton items item ih =>
    rw [Library.foldValue_concat, ih, if_neg (append_ne_nil_of_right_ne_nil _ (by simp))]
    have hconcat : dictOfItems ((items ++ [item]).map fun item ↦ (position item, value item)) =
        setItem (position item) (value item)
          (dictOfItems (items.map fun item ↦ (position item, value item))) := by
      rw [map_append]
      exact foldl_append
    rw [hconcat]
    by_cases hitems : items = []
    · rw [if_pos hitems, hitems]
      rfl
    · rw [if_neg hitems, Option.getD_some]

theorem getItem_map_snd {β γ : Type} (f : β → γ) (d : List (κ × β)) (key : κ) :
    getItem (d.map fun item ↦ (item.1, f item.2)) key = (getItem d key).map f := by
  induction d with
  | nil => rfl
  | cons item rest ih =>
    rw [map_cons, Library.getItem_cons, Library.getItem_cons, ih]
    by_cases hkey : item.1 = key
    · rw [if_pos hkey, if_pos hkey, Option.map_some]
    · rw [if_neg hkey, if_neg hkey]

theorem filter_key_eq {β : Type} {d : List (κ × β)} (hd : (d.map Prod.fst).Nodup) (key : κ) :
    d.filter (fun item ↦ item.1 = key) = ((getItem d key).map fun value ↦ (key, value)).toList := by
  induction d with
  | nil => rfl
  | cons item rest ih =>
    obtain ⟨hfresh, hrest⟩ := nodup_cons.mp hd
    rw [Library.getItem_cons]
    by_cases hkey : item.1 = key
    · have hnone : rest.filter (fun item ↦ item.1 = key) = [] := by
        rw [ih hrest, Library.getItem_of_notMem (hkey ▸ hfresh)]
        rfl
      rw [if_pos hkey, filter_cons_of_pos (by simpa using hkey), hnone, ← hkey]
      rfl
    · rw [if_neg hkey, filter_cons_of_neg (by simpa using hkey), ih hrest]

theorem length_dictOfItems {β : Type} (items : List (κ × β)) :
    (dictOfItems items).length = (items.map Prod.fst).dedup.length := by
  have hperm : ((dictOfItems items).map Prod.fst).Perm (items.map Prod.fst).dedup := by
    refine (perm_ext_iff_of_nodup (Library.nodup_keys_dictOfItems items)
      (nodup_dedup _)).mpr fun key ↦ ?_
    rw [mem_dedup]
    induction items using reverseRecOn with
    | nil => rfl
    | append_singleton items item ih =>
      rw [dictOfItems, Library.updateItems, foldl_append, foldl_cons, foldl_nil,
        Library.mem_keys_setItem, ← Library.updateItems, ← dictOfItems, ih, map_append,
        mem_append, map_singleton, mem_singleton, or_comm]
  rw [← length_map Prod.fst, hperm.length_eq]

end Tables

/-! ### What is found -/

variable {searched : SearchedIndex}

theorem nodup_keys_fetchCandidates (i : ℕ) (index : Label) (frequencies : Frequencies) :
    ((fetchCandidates searched i index frequencies).map Prod.fst).Nodup := by
  rw [fetchCandidates, map_map]
  exact Library.nodup_keys_foldByKey (d := []) _ _ nodup_nil _

theorem getItem_fetchCandidates (i : ℕ) (p : Parameter) (key : Label) :
    getItem (fetchCandidates searched i p.index p.frequencies) key =
      if hits searched i p key = 0 then none else some (hits searched i p key) := by
  let found := ((eachBucket p.frequencies).flatMap fun bucket ↦
    (bucketMembers searched i p.index bucket).map fun member ↦ (member, bucket.1)).filter
      fun item ↦ some item.1 = some key
  have hmem (band : ℕ) : band ∈ found.map Prod.snd ↔
      band ∈ ((eachBucket p.frequencies).filter fun bucket ↦
        key ∈ bucketMembers searched i p.index bucket).map Prod.fst := by
    simp [found]
  have hhits : (found.map Prod.snd).dedup.length = hits searched i p key :=
    ((perm_ext_iff_of_nodup (nodup_dedup _) (nodup_dedup _)).mpr fun band ↦ by
      rw [mem_dedup, mem_dedup, hmem]).length_eq
  have hzero : hits searched i p key = 0 ↔ found = [] := by
    rw [← hhits, length_eq_zero_iff, dedup_eq_nil, map_eq_nil_iff]
  have hlength : (dictOfItems (found.map fun item ↦ (item.2, true))).length =
      hits searched i p key := by
    rw [length_dictOfItems, map_map, ← hhits]
    rfl
  rw [fetchCandidates, getItem_map_snd, Library.getItem_foldByKey, Library.getItem_nil,
    foldValue_setItem]
  by_cases hfound : found = []
  · rw [if_pos hfound, if_pos (hzero.mpr hfound), Option.map_none]
  · rw [if_neg hfound, if_neg (hzero.not.mpr hfound), Option.map_some, hlength]

/-! ### What qualifies -/

theorem positions_sublist (parameters : List Parameter) (key : Label) :
    ((qualified searched parameters key).map Prod.fst).Sublist
      (List.range' 1 parameters.length) := by
  have hall : ∀ (parameters : List Parameter) (n : ℕ), (((parameters.zipIdx n).filterMap fun p ↦
      if 0 < hits searched p.2 p.1 key ∧ p.1.threshold ≤ (hits searched p.2 p.1 key : ℤ) then
        some (p.2 + 1, hits searched p.2 p.1 key)
      else none).map Prod.fst).Sublist (List.range' (n + 1) parameters.length) := by
    intro parameters
    induction parameters with
    | nil => exact fun n ↦ List.Sublist.slnil
    | cons p parameters ih =>
      intro n
      rw [zipIdx_cons, filterMap_cons, length_cons, range'_succ]
      by_cases hp : 0 < hits searched n p key ∧ p.threshold ≤ (hits searched n p key : ℤ)
      · simp only [if_pos hp, map_cons]
        exact (ih (n + 1)).cons_cons _
      · simp only [if_neg hp]
        exact (ih (n + 1)).cons _
  exact hall parameters 0

variable {parameters : List Parameter}

theorem isPattern_positions {key : Label} (h : qualified searched parameters key ≠ []) :
    IsPattern ((qualified searched parameters key).map Prod.fst) where
  ne_nil := by rwa [Ne, map_eq_nil_iff]
  increasing := (pairwise_lt_range' 1).sublist (positions_sublist parameters key)
  pos := fun position hmem ↦
    (List.mem_range'_1.mp ((positions_sublist parameters key).subset hmem)).1

theorem nodup_keys_possibleCandidates (parameters : List Parameter) :
    ((possibleCandidates searched parameters).map Prod.fst).Nodup :=
  Library.nodup_keys_foldByKey (d := []) _ _ nodup_nil _

theorem getItem_possibleCandidates (parameters : List Parameter) (key : Label) :
    getItem (possibleCandidates searched parameters) key =
      if qualified searched parameters key = [] then none
      else some (qualified searched parameters key) := by
  have hone (p : Parameter × ℕ) :
      ((((fetchCandidates searched p.2 p.1.index p.1.frequencies).filter fun candidate ↦
        p.1.threshold ≤ (candidate.2 : ℤ)).map fun candidate ↦
          (candidate.1, p.2 + 1, candidate.2)).filter fun item ↦ some item.1 = some key).map
            Prod.snd =
        (if 0 < hits searched p.2 p.1 key ∧ p.1.threshold ≤ (hits searched p.2 p.1 key : ℤ) then
          some (p.2 + 1, hits searched p.2 p.1 key)
        else none).toList := by
    have hkey : ((fetchCandidates searched p.2 p.1.index p.1.frequencies).filter fun candidate ↦
        p.1.threshold ≤ (candidate.2 : ℤ)).filter (fun candidate ↦ candidate.1 = key) =
          ((if hits searched p.2 p.1 key = 0 then none else some (hits searched p.2 p.1 key)).map
            fun value ↦ (key, value)).toList.filter fun candidate ↦
              p.1.threshold ≤ (candidate.2 : ℤ) := by
      rw [filter_comm, filter_key_eq (nodup_keys_fetchCandidates _ _ _), getItem_fetchCandidates]
    rw [filter_map, map_map]
    simp only [Function.comp_def, Option.some.injEq]
    rw [hkey]
    by_cases hzero : hits searched p.2 p.1 key = 0
    · rw [if_pos hzero, if_neg fun h ↦ absurd hzero h.1.ne']
      rfl
    · rw [if_neg hzero]
      by_cases hthreshold : p.1.threshold ≤ (hits searched p.2 p.1 key : ℤ)
      · rw [if_pos ⟨Nat.pos_of_ne_zero hzero, hthreshold⟩]
        simp [hthreshold]
      · rw [if_neg fun h ↦ hthreshold h.2]
        simp [hthreshold]
  let qualifying := (parameters.zipIdx.flatMap fun p ↦
    ((fetchCandidates searched p.2 p.1.index p.1.frequencies).filter fun candidate ↦
      p.1.threshold ≤ (candidate.2 : ℤ)).map fun candidate ↦
        (candidate.1, p.2 + 1, candidate.2)).filter fun item ↦ some item.1 = some key
  have hqualified : qualifying.map Prod.snd = qualified searched parameters key := by
    dsimp only [qualifying]
    rw [filter_flatMap, map_flatMap, qualified, filterMap_eq_flatMap_toList]
    simp only [hone]
  have hempty : qualifying = [] ↔ qualified searched parameters key = [] := by
    rw [← hqualified, map_eq_nil_iff]
  rw [possibleCandidates, Library.getItem_foldByKey, Library.getItem_nil, foldValue_setItem]
  rw [hqualified, Library.dictOfItems_of_nodup ((positions_sublist parameters key).nodup (nodup_range' 1))]
  by_cases h : qualified searched parameters key = []
  · rw [if_pos h, if_pos (hempty.mpr h)]
  · rw [if_neg h, if_neg (hempty.not.mpr h)]

theorem mem_possibleCandidates {candidate : Label × List (ℕ × ℕ)} :
    candidate ∈ possibleCandidates searched parameters ↔
      qualified searched parameters candidate.1 ≠ [] ∧
        candidate.2 = qualified searched parameters candidate.1 := by
  rw [← Library.getItem_eq_some_iff (nodup_keys_possibleCandidates parameters),
    getItem_possibleCandidates]
  by_cases h : qualified searched parameters candidate.1 = []
  · simp [h]
  · rw [if_neg h, Option.some.injEq, eq_comm]
    exact (and_iff_right h).symm

theorem mem_keys_possibleCandidates {key : Label} :
    key ∈ (possibleCandidates searched parameters).map Prod.fst ↔
      qualified searched parameters key ≠ [] := by
  rw [mem_map]
  constructor
  · rintro ⟨candidate, hmem, rfl⟩
    exact (mem_possibleCandidates.mp hmem).1
  · exact fun h ↦ ⟨(key, qualified searched parameters key),
      mem_possibleCandidates.mpr ⟨h, rfl⟩, rfl⟩

/-! ### Tables without gaps -/

theorem ipairsFrom_eq {before after : List (ℕ × ℕ)} {i : ℕ} (hbefore : ∀ item ∈ before, item.1 < i)
    (hafter : after.map Prod.fst = List.range' i after.length) :
    ipairsFrom (before ++ after) after.length i = after.map Prod.snd := by
  induction after generalizing before i with
  | nil => rfl
  | cons item after ih =>
    rw [map_cons, length_cons, range'_succ, List.cons.injEq] at hafter
    obtain ⟨rfl, hrest⟩ := hafter
    have hnone : getItem before item.1 = none := Library.getItem_of_notMem fun hmem ↦ by
      obtain ⟨other, hother, heq⟩ := mem_map.mp hmem
      exact absurd (hbefore other hother) (heq ▸ lt_irrefl _)
    have hget : getItem (before ++ item :: after) item.1 = some item.2 := by
      rw [Library.getItem_append, hnone, Library.getItem_cons, if_pos rfl, Option.none_or]
    rw [length_cons, ipairsFrom, hget]
    rw [append_cons, ih (fun other hother ↦ ?_) hrest, map_cons]
    rcases mem_append.mp hother with hbefore' | hitem
    · exact Nat.lt_succ_of_lt (hbefore other hbefore')
    · rw [mem_singleton.mp hitem]
      exact Nat.lt_succ_self _

variable {table : List (ℕ × ℕ)}

theorem ipairs_of_gapless (h : Gapless (table.map Prod.fst)) :
    ipairs table = table.map Prod.snd := by
  rw [Gapless, length_map] at h
  exact @ipairsFrom_eq [] table 1 (fun _ hmem ↦ absurd hmem not_mem_nil) h

theorem sum_of_gapless (h : Gapless (table.map Prod.fst)) :
    sum table = (table.map Prod.snd).sum := by
  rw [sum, ipairs_of_gapless h, ← sum_eq_foldl]

theorem length_of_gapless (lua : Lua) {positions : List ℕ} (h : Gapless positions) :
    lua.length positions = positions.length := by
  have hnot := lua.length_succ_notMem positions
  have hmem := lua.mem_of_length positions
  rw [h, mem_range'_1] at hnot hmem
  rw [← h] at hnot hmem
  omega

theorem avg_of_gapless (lua : Lua) (hne : table ≠ [])
    (h : Gapless (table.map Prod.fst)) : avg lua table = some (meanHits table) := by
  have hlength : lua.length (table.map Prod.fst) = table.length := by
    rw [length_of_gapless lua h, length_map]
  rw [avg, hlength, sum_of_gapless h]
  exact if_neg (length_eq_zero_iff.not.mpr hne)

/-! ### Sorting -/

section Sorting

variable {β : Type} [LinearOrder β] {before : Candidate → Candidate → Bool} {rows : List Candidate}

theorem validOrder_of_rank (rank : Candidate → β)
    (h : ∀ a ∈ rows, ∀ b ∈ rows, before a b = true ↔ rank a < rank b) :
    ValidOrder before rows where
  asymm := fun a ha b hb hab ↦ Bool.eq_false_iff.mpr fun hba ↦
    lt_asymm ((h a ha b hb).mp hab) ((h b hb a ha).mp hba)
  trans := by
    intro a ha b hb c hc hab hbc
    have hba : rank b ≤ rank a :=
      not_lt.mp fun hlt ↦ Bool.eq_false_iff.mp hab ((h a ha b hb).mpr hlt)
    have hcb : rank c ≤ rank b :=
      not_lt.mp fun hlt ↦ Bool.eq_false_iff.mp hbc ((h b hb c hc).mpr hlt)
    exact Bool.eq_false_iff.mpr fun hac ↦ not_lt.mpr (hcb.trans hba) ((h a ha c hc).mp hac)

theorem exists_sorted (lua : Lua) (rank : Candidate → β)
    (h : ∀ a ∈ rows, ∀ b ∈ rows, before a b = true ↔ rank a < rank b) :
    ∃ sorted, lua.sort before rows = some sorted ∧ sorted.Perm rows ∧
      sorted.Pairwise fun a b ↦ rank a ≤ rank b := by
  obtain ⟨sorted, hsort, hperm, hchain⟩ := lua.sort_valid before rows (validOrder_of_rank rank h)
  refine ⟨sorted, hsort, hperm, ?_⟩
  have hranks : (sorted.map rank).IsChain (· ≤ ·) := by
    refine (isChain_map rank).mpr (hchain.imp_of_mem_imp fun a b ha hb hab ↦ ?_)
    exact not_lt.mp fun hlt ↦
      Bool.eq_false_iff.mp hab ((h b (hperm.subset hb) a (hperm.subset ha)).mpr hlt)
  exact pairwise_map.mp (isChain_iff_pairwise.mp hranks)

end Sorting

def rank (candidate : Candidate) : ℚ ×ₗ ℤ ×ₗ List Char :=
  toLex (-(candidate.avgHits.getD 0), toLex (-(candidate.numHits : ℤ), candidate.key.text))

theorem sortsBefore_iff {a b : Candidate} (ha : a.avgHits.isSome) (hb : b.avgHits.isSome) :
    sortsBefore a b = true ↔ rank a < rank b := by
  obtain ⟨key, n, mean⟩ := a
  obtain ⟨key', n', mean'⟩ := b
  obtain ⟨m, rfl⟩ := Option.isSome_iff_exists.mp ha
  obtain ⟨m', rfl⟩ := Option.isSome_iff_exists.mp hb
  have hrank : rank ⟨key, n, some m⟩ < rank ⟨key', n', some m'⟩ ↔
      m' < m ∨ m = m' ∧ (n' < n ∨ n = n' ∧ key.text < key'.text) := by
    rw [rank, rank, Prod.Lex.toLex_lt_toLex]
    rw [Prod.Lex.toLex_lt_toLex]
    simp only [Option.getD_some, neg_lt_neg_iff, neg_inj, Nat.cast_lt, Nat.cast_inj]
  rw [hrank, sortsBefore]
  simp only [greater, decide_eq_true_eq, gt_iff_lt]
  rcases lt_trichotomy m m' with hlt | rfl | hlt
  · rw [if_neg hlt.not_gt, if_pos hlt]
    exact iff_of_false Bool.false_ne_true fun h ↦ h.elim (fun h ↦ lt_asymm h hlt) fun h ↦ hlt.ne h.1
  · rw [if_neg (lt_irrefl m), if_neg (lt_irrefl m)]
    rcases lt_trichotomy n n' with hn | rfl | hn
    · rw [if_neg hn.not_gt, if_pos hn]
      exact iff_of_false Bool.false_ne_true fun h ↦ h.elim (lt_irrefl m) fun h ↦
        h.2.elim (fun h ↦ lt_asymm h hn) fun h ↦ hn.ne h.1
    · rw [if_neg (lt_irrefl n), if_neg (lt_irrefl n), decide_eq_true_iff]
      simp
    · rw [if_pos hn]
      exact iff_of_true rfl (Or.inr ⟨rfl, Or.inl hn⟩)
  · rw [if_pos hlt]
    exact iff_of_true rfl (Or.inl hlt)

/-! ### Searches without gaps -/

variable {Score : Type} {calculateSimilarity : Frequencies → Frequencies → Score} {lua : Lua}
  {parameters : List Parameter} {limit : ℤ}

theorem exists_mapM {α β γ : Type} {f : α → Option β} {g : β → γ} {h : α → γ} {items : List α}
    (hf : ∀ item ∈ items, ∃ value, f item = some value ∧ g value = h item) :
    ∃ values, items.mapM f = some values ∧ values.map g = items.map h := by
  induction items with
  | nil => exact ⟨[], rfl, rfl⟩
  | cons item items ih =>
    obtain ⟨value, hvalue, hg⟩ := hf item mem_cons_self
    obtain ⟨values, hvalues, hmap⟩ := ih fun item hmem ↦ hf item (mem_cons_of_mem _ hmem)
    refine ⟨value :: values, ?_, ?_⟩
    · rw [mapM_cons, hvalue, hvalues]
      rfl
    · rw [map_cons, map_cons, hg, hmap]

theorem exists_search {candidates : List Candidate}
    (h : rankCandidates searched lua parameters limit = some candidates) :
    ∃ results, search searched calculateSimilarity lua parameters limit = some results ∧
      results.map Prod.fst = candidates.map Candidate.key := by
  rw [search, h]
  refine exists_mapM fun candidate _ ↦ ?_
  have hscores : ∃ scores, parameters.mapM (fun p ↦ do
      let candidateFrequencies ← getFrequencies searched.config searched.store searched.scope
        p.index candidate.key
      return calculateSimilarity p.frequencies candidateFrequencies) = some scores ∧
        scores.map (fun _ ↦ ()) = parameters.map fun _ ↦ () := by
    refine exists_mapM fun p _ ↦ ?_
    obtain ⟨frequencies, hfrequencies⟩ :=
      Option.isSome_iff_exists.mp (searched.readable p.index candidate.key)
    refine ⟨calculateSimilarity p.frequencies frequencies, ?_, rfl⟩
    rw [hfrequencies]
    rfl
  obtain ⟨scores, hscores, -⟩ := hscores
  refine ⟨(candidate.key, scores), ?_, rfl⟩
  rw [hscores]
  rfl

def candidateOf (searched : SearchedIndex) (lua : Lua) (parameters : List Parameter) (key : Label) :
    Candidate :=
  let table := qualified searched parameters key
  ⟨key, lua.length (table.map Prod.fst), avg lua table⟩

theorem exists_candidates (searched : SearchedIndex) (lua : Lua) (parameters : List Parameter)
    (limit : ℤ) :
    ∃ keys : List Label, keys.Nodup ∧
      (∀ key, key ∈ keys ↔ qualified searched parameters key ≠ []) ∧
      rankCandidates searched lua parameters limit =
        if 0 ≤ limit ∧ limit < (keys.length : ℤ) then
          (lua.sort sortsBefore (keys.map (candidateOf searched lua parameters))).map fun sorted ↦
            sorted.take limit.toNat
        else some (keys.map (candidateOf searched lua parameters)) := by
  let candidates := lua.pairs ((possibleCandidates searched parameters).map fun candidate ↦
    ⟨candidate.1, lua.length (candidate.2.map Prod.fst), avg lua candidate.2⟩)
  have hperm : candidates.Perm ((possibleCandidates searched parameters).map fun candidate ↦
      ⟨candidate.1, lua.length (candidate.2.map Prod.fst), avg lua candidate.2⟩) :=
    lua.pairs_perm _
  have hkeys : (candidates.map Candidate.key).Perm
      ((possibleCandidates searched parameters).map Prod.fst) := by
    refine (hperm.map Candidate.key).trans (List.Perm.of_eq ?_)
    rw [map_map]
    rfl
  have hcandidates : (candidates.map Candidate.key).map (candidateOf searched lua parameters) =
      candidates := by
    rw [map_map]
    refine (map_congr_left fun candidate hmem ↦ ?_).trans (map_id _)
    obtain ⟨found, hfound, rfl⟩ := mem_map.mp (hperm.subset hmem)
    show candidateOf searched lua parameters found.1 = _
    rw [candidateOf, (mem_possibleCandidates.mp hfound).2]
    rfl
  refine ⟨candidates.map Candidate.key, ?_, fun key ↦ ?_, ?_⟩
  · exact hkeys.nodup_iff.mpr (nodup_keys_possibleCandidates parameters)
  · rw [hkeys.mem_iff, mem_keys_possibleCandidates]
  · rw [hcandidates, length_map]
    rfl

theorem key_candidateOf (keys : List Label) :
    (keys.map (candidateOf searched lua parameters)).map Candidate.key = keys := by
  rw [map_map]
  exact map_id keys

theorem returnsBest_of_atMost (h : AtMost searched parameters limit) :
    ReturnsBest searched calculateSimilarity lua parameters limit := by
  obtain ⟨keys, hnodup, hmem, hrank⟩ := exists_candidates searched lua parameters limit
  have hle : (keys.length : ℤ) ≤ limit := h keys hnodup fun key hkey ↦ (hmem key).mp hkey
  rw [if_neg fun hlt ↦ absurd hlt.2 (not_lt.mpr hle)] at hrank
  obtain ⟨results, hresults, hkeys⟩ := exists_search hrank
  rw [key_candidateOf] at hkeys
  refine ⟨results, hresults, ?_⟩
  rw [hkeys]
  exact ⟨hnodup, fun key hkey ↦ (hmem key).mp hkey, hle,
    fun _ _ other hother hqualified ↦ absurd ((hmem other).mpr hqualified) hother⟩

theorem rank_lt_rank {key other : Label} (hkey : qualified searched parameters key ≠ [])
    (hother : qualified searched parameters other ≠ [])
    (hgapless : Gapless ((qualified searched parameters key).map Prod.fst))
    (hgapless' : Gapless ((qualified searched parameters other).map Prod.fst))
    (h : RanksAbove (qualified searched parameters other) (qualified searched parameters key)) :
    rank (candidateOf searched lua parameters other) <
      rank (candidateOf searched lua parameters key) := by
  rw [rank, rank, candidateOf, candidateOf, avg_of_gapless lua hkey hgapless,
    avg_of_gapless lua hother hgapless', length_of_gapless lua hgapless,
    length_of_gapless lua hgapless', Prod.Lex.toLex_lt_toLex]
  rw [Prod.Lex.toLex_lt_toLex, Option.getD_some, Option.getD_some, length_map, length_map]
  rcases h with hmean | ⟨hmean, hlength⟩
  · exact Or.inl (neg_lt_neg hmean)
  · exact Or.inr ⟨congrArg Neg.neg hmean, Or.inl (neg_lt_neg (Nat.cast_lt.mpr hlength))⟩

theorem returnsBest_of_gapless (hlimit : 0 ≤ limit)
    (h : ∀ key, Gapless ((qualified searched parameters key).map Prod.fst)) :
    ReturnsBest searched calculateSimilarity lua parameters limit := by
  obtain ⟨keys, hnodup, hmem, hrank⟩ := exists_candidates searched lua parameters limit
  by_cases hlt : limit < (keys.length : ℤ)
  · have hsome (key : Label) (hkey : key ∈ keys) :
        (candidateOf searched lua parameters key).avgHits.isSome := by
      rw [candidateOf, avg_of_gapless lua ((hmem key).mp hkey) (h key)]
      rfl
    obtain ⟨sorted, hsort, hperm, hpairwise⟩ := @exists_sorted _ _ sortsBefore
      (keys.map (candidateOf searched lua parameters)) lua rank fun a ha b hb ↦ by
        obtain ⟨key, hkey, rfl⟩ := mem_map.mp ha
        obtain ⟨key', hkey', rfl⟩ := mem_map.mp hb
        exact sortsBefore_iff (hsome key hkey) (hsome key' hkey')
    rw [if_pos ⟨hlimit, hlt⟩, hsort, Option.map_some] at hrank
    obtain ⟨results, hresults, hkeys⟩ := exists_search hrank
    have hsorted : (sorted.map Candidate.key).Perm keys := by
      have hmap := hperm.map Candidate.key
      rwa [key_candidateOf] at hmap
    have hsublist : ((sorted.take limit.toNat).map Candidate.key).Sublist
        (sorted.map Candidate.key) := (take_sublist _ _).map _
    have hof (candidate : Candidate) (hcandidate : candidate ∈ sorted) :
        candidate = candidateOf searched lua parameters candidate.key := by
      obtain ⟨key, -, rfl⟩ := mem_map.mp (hperm.subset hcandidate)
      rfl
    have hqualifies (key : Label) (hkey : key ∈ (sorted.take limit.toNat).map Candidate.key) :
        qualified searched parameters key ≠ [] :=
      (hmem key).mp (hsorted.subset (hsublist.subset hkey))
    refine ⟨results, hresults, ?_⟩
    rw [hkeys]
    refine ⟨hsublist.nodup (hsorted.nodup_iff.mpr hnodup), hqualifies, ?_, ?_⟩
    · rw [length_map]
      have hle := length_take_le limit.toNat sorted
      omega
    · intro key hkey other hother hqualified hranks
      obtain ⟨candidate, hcandidate, rfl⟩ := mem_map.mp hkey
      have hmemOther : candidateOf searched lua parameters other ∈ sorted :=
        hperm.symm.subset (mem_map_of_mem ((hmem other).mpr hqualified))
      have hpairs : ∀ a ∈ sorted.take limit.toNat, ∀ b ∈ sorted.drop limit.toNat,
          rank a ≤ rank b := by
        rw [← take_append_drop limit.toNat sorted] at hpairwise
        exact (pairwise_append.mp hpairwise).2.2
      -- The other candidate was not taken, so that it is sorted behind.
      have hdrop : candidateOf searched lua parameters other ∈ sorted.drop limit.toNat := by
        rw [← take_append_drop limit.toNat sorted, mem_append] at hmemOther
        exact hmemOther.resolve_left fun htake ↦ hother (mem_map.mpr ⟨_, htake, rfl⟩)
      have hle := hpairs candidate hcandidate _ hdrop
      rw [hof candidate (mem_of_mem_take hcandidate)] at hle
      exact absurd hle (not_le.mpr (rank_lt_rank (hqualifies _ hkey) hqualified (h _) (h other)
        hranks))
  · refine returnsBest_of_atMost fun others hothers hqualified ↦ ?_
    have hsub : others ⊆ keys := fun key hkey ↦ (hmem key).mpr (hqualified key hkey)
    have hlength := (subperm_of_subset hothers hsub).length_le
    omega

/-! ### Searches with a gap -/

def Reached (positions : List ℕ) (i : ℕ) : Prop := ∀ j ∈ List.range' 1 i, j ∈ positions

instance (positions : List ℕ) (i : ℕ) : Decidable (Reached positions i) :=
  inferInstanceAs (Decidable (∀ j ∈ List.range' 1 i, j ∈ positions))

theorem gapless_of_reached {positions : List ℕ} (h : IsPattern positions)
    (hreached : ∀ i ∈ positions, Reached positions i) : Gapless positions := by
  have hne : positions.toFinset.Nonempty := (toFinset_nonempty_iff positions).mpr h.ne_nil
  have hlast := List.mem_toFinset.mp (positions.toFinset.max'_mem hne)
  have heq : positions = List.range' 1 (positions.toFinset.max' hne) := by
    refine List.Pairwise.eq_of_mem_iff h.increasing (pairwise_lt_range' 1) fun i ↦ ?_
    constructor
    · intro hi
      have hle := positions.toFinset.le_max' i (List.mem_toFinset.mpr hi)
      exact List.mem_range'_1.mpr ⟨h.pos i hi, by omega⟩
    · exact hreached _ hlast i
  rw [Gapless, heq, length_range']

theorem getItem_map_pair (positions : List ℕ) (f : ℕ → ℕ) (i : ℕ) :
    getItem (positions.map fun j ↦ (j, f j)) i = if i ∈ positions then some (f i) else none := by
  induction positions with
  | nil => rfl
  | cons j positions ih =>
    rw [map_cons, Library.getItem_cons, ih]
    by_cases hj : j = i
    · rw [if_pos hj, hj, if_pos mem_cons_self]
    · rw [if_neg hj]
      simp [Ne.symm hj]

/-- `ipairs` does not see what is after a gap. -/
theorem ipairs_eq_of_reached (positions : List ℕ) {f g : ℕ → ℕ}
    (h : ∀ i, Reached positions i → f i = g i) :
    ipairs (positions.map fun i ↦ (i, f i)) = ipairs (positions.map fun i ↦ (i, g i)) := by
  have hfrom (fuel : ℕ) : ∀ i, Reached positions i →
      ipairsFrom (positions.map fun j ↦ (j, f j)) fuel (i + 1) =
        ipairsFrom (positions.map fun j ↦ (j, g j)) fuel (i + 1) := by
    induction fuel with
    | zero => exact fun _ _ ↦ rfl
    | succ fuel ih =>
      intro i hi
      rw [ipairsFrom, ipairsFrom, getItem_map_pair, getItem_map_pair]
      by_cases hmem : i + 1 ∈ positions
      · have hnext : Reached positions (i + 1) := by
          intro j hj
          rw [range'_concat, mem_append, mem_singleton] at hj
          rcases hj with hbefore | rfl
          · exact hi j hbefore
          · rwa [Nat.one_mul, Nat.add_comm]
        rw [if_pos hmem, if_pos hmem, h _ hnext]
        exact congrArg _ (ih (i + 1) hnext)
      · rw [if_neg hmem, if_neg hmem]
  rw [ipairs, ipairs, length_map, length_map]
  exact hfrom _ 0 fun j hj ↦ absurd hj not_mem_nil

def twoBands : IndexConfig := ⟨['s'], 2, 1, 0, by decide, by decide⟩

def first : Label := letter 'p' (by decide)

def second : Label := letter 'q' (by decide)

/-- The key of the set of the bucket `x` of a band. -/
def bandKey (band : ℕ) : List Char :=
  getBucketMembershipKey twoBands first first (packFrequencyCoordinate band ['x']) 0

def bandMembers (key : List Char) : List Label :=
  if key = bandKey 1 then [first, second] else if key = bandKey 2 then [second] else []

def twoItems : SearchedIndex where
  config := twoBands
  candidateSetLimit := 10
  timestamp := 0
  scope := first
  store := ⟨fun _ ↦ [], bandMembers⟩
  sample := fun _ key ↦ bandMembers key
  sample_subset := fun _ _ _ h ↦ h
  readable := fun _ _ ↦ rfl

def parameterAt (positions : List ℕ) (i : ℕ) : Parameter :=
  ⟨first, 1,
    if i ∉ positions then [[], []]
    else if Reached positions i then [[(['x'], 1)], []]
    else [[(['x'], 1)], [(['x'], 1)]]⟩

def parametersOf (positions : List ℕ) (n : ℕ) : List Parameter :=
  (List.range' 1 n).map (parameterAt positions)

def hitsAt (positions : List ℕ) (key : Label) (i : ℕ) : ℕ :=
  if key = second ∧ ¬ Reached positions i then 2 else 1

theorem bucketMembers_twoItems (i band : ℕ) :
    bucketMembers twoItems i first (band, ['x'], 1) =
      collectMembers 10 [] (bandMembers (bandKey band)) := by
  have hwindow : window twoBands 0 = [0] := by decide
  show collectMembers 10 [] ((window twoBands 0).flatMap _) = _
  rw [hwindow, flatMap_singleton]
  rfl

theorem bucketMembers_first (i : ℕ) :
    bucketMembers twoItems i first (1, ['x'], 1) = [first, second] := by
  rw [bucketMembers_twoItems, bandMembers, if_pos rfl]
  decide

theorem bucketMembers_second (i : ℕ) : bucketMembers twoItems i first (2, ['x'], 1) = [second] := by
  have hne : bandKey 2 ≠ bandKey 1 := by decide +kernel
  rw [bucketMembers_twoItems, bandMembers, if_neg hne, if_pos rfl]
  decide

theorem hits_parameterAt (positions : List ℕ) (i j : ℕ) (key : Label) :
    hits twoItems j (parameterAt positions i) key =
      if i ∈ positions ∧ (key = first ∨ key = second) then hitsAt positions key i else 0 := by
  have hfirst (key : Label) : key ∈ bucketMembers twoItems j first (1, ['x'], 1) ↔
      key = first ∨ key = second := by
    rw [bucketMembers_first, mem_cons, mem_singleton]
  have hsecond (key : Label) : key ∈ bucketMembers twoItems j first (2, ['x'], 1) ↔
      key = second := by
    rw [bucketMembers_second, mem_singleton]
  rw [hits, parameterAt, hitsAt]
  by_cases hi : i ∈ positions
  · rw [if_neg (not_not.mpr hi)]
    by_cases hreached : Reached positions i
    · have hnot : ¬ (key = second ∧ ¬ Reached positions i) := fun h ↦ h.2 hreached
      rw [if_pos hreached, if_neg hnot]
      show (([(1, ['x'], 1)].filter fun bucket ↦
        key ∈ bucketMembers twoItems j first bucket).map Prod.fst).dedup.length = _
      simp only [filter_cons, filter_nil, decide_eq_true_eq, hfirst]
      by_cases hkey : key = first ∨ key = second
      · rw [if_pos hkey, if_pos ⟨hi, hkey⟩]
        rfl
      · rw [if_neg hkey, if_neg fun h ↦ hkey h.2]
        rfl
    · rw [if_neg hreached]
      show (([(1, ['x'], 1), (2, ['x'], 1)].filter fun bucket ↦
        key ∈ bucketMembers twoItems j first bucket).map Prod.fst).dedup.length = _
      simp only [filter_cons, filter_nil, decide_eq_true_eq, hfirst, hsecond]
      by_cases hkey : key = second
      · rw [if_pos (Or.inr hkey), if_pos hkey, if_pos ⟨hi, Or.inr hkey⟩, if_pos ⟨hkey, hreached⟩]
        rfl
      · have hnot : ¬ (key = second ∧ ¬ Reached positions i) := fun h ↦ hkey h.1
        rw [if_neg hkey, if_neg hnot]
        by_cases hother : key = first
        · rw [if_pos (Or.inl hother), if_pos ⟨hi, Or.inl hother⟩]
          rfl
        · have hnone : ¬ (key = first ∨ key = second) := fun h ↦ h.elim hother hkey
          rw [if_neg hnone, if_neg fun h ↦ hnone h.2]
          rfl
  · rw [if_pos hi, if_neg fun h ↦ hi h.1]
    rfl

theorem hitsAt_pos (positions : List ℕ) (key : Label) (i : ℕ) : 0 < hitsAt positions key i := by
  unfold hitsAt
  split <;> decide

theorem qualified_twoItems {positions : List ℕ} (h : IsPattern positions) {n : ℕ}
    (hn : ∀ i ∈ positions, i ≤ n) (key : Label) :
    qualified twoItems (parametersOf positions n) key =
      if key = first ∨ key = second then positions.map fun i ↦ (i, hitsAt positions key i)
      else [] := by
  have hall (count : ℕ) : ∀ m : ℕ, (((List.range' (m + 1) count).map
      (parameterAt positions)).zipIdx m).filterMap (fun p ↦
        if 0 < hits twoItems p.2 p.1 key ∧ p.1.threshold ≤ (hits twoItems p.2 p.1 key : ℤ) then
          some (p.2 + 1, hits twoItems p.2 p.1 key)
        else none) =
      ((List.range' (m + 1) count).filter fun i ↦
        i ∈ positions ∧ (key = first ∨ key = second)).map fun i ↦ (i, hitsAt positions key i) := by
    induction count with
    | zero => exact fun _ ↦ rfl
    | succ count ih =>
      intro m
      rw [range'_succ, map_cons, zipIdx_cons, filterMap_cons, ih, filter_cons]
      rw [hits_parameterAt]
      by_cases hkey : m + 1 ∈ positions ∧ (key = first ∨ key = second)
      · have hpos := hitsAt_pos positions key (m + 1)
        have hthreshold : (parameterAt positions (m + 1)).threshold ≤
            (hitsAt positions key (m + 1) : ℤ) := Int.toNat_le.mp hpos
        rw [if_pos hkey, if_pos ⟨hpos, hthreshold⟩, if_pos (decide_eq_true hkey), map_cons]
      · rw [if_neg hkey, if_neg fun hzero ↦ lt_irrefl 0 hzero.1,
          if_neg (by rwa [decide_eq_true_iff])]
  refine (hall n 0).trans ?_
  by_cases hkey : key = first ∨ key = second
  · have hpositions : (List.range' 1 n).filter (fun i ↦
        i ∈ positions ∧ (key = first ∨ key = second)) = positions := by
      refine List.Pairwise.eq_of_mem_iff ((pairwise_lt_range' 1).filter _) h.increasing
        fun i ↦ ?_
      rw [mem_filter, mem_range'_1, decide_eq_true_iff]
      constructor
      · exact fun hi ↦ hi.2.1
      · intro hi
        have hle := hn i hi
        exact ⟨⟨h.pos i hi, by omega⟩, hi, hkey⟩
    rw [if_pos hkey, hpositions]
  · rw [if_neg hkey, filter_eq_nil_iff.mpr]
    · rfl
    · intro i _ hi
      exact hkey (of_decide_eq_true hi).2

section Gap

variable {positions : List ℕ} {n : ℕ}

theorem qualified_first (h : IsPattern positions) (hn : ∀ i ∈ positions, i ≤ n) :
    qualified twoItems (parametersOf positions n) first =
      positions.map fun i ↦ (i, hitsAt positions first i) := by
  rw [qualified_twoItems h hn, if_pos (Or.inl rfl)]

theorem qualified_second (h : IsPattern positions) (hn : ∀ i ∈ positions, i ≤ n) :
    qualified twoItems (parametersOf positions n) second =
      positions.map fun i ↦ (i, hitsAt positions second i) := by
  rw [qualified_twoItems h hn, if_pos (Or.inr rfl)]

theorem hitsAt_first (positions : List ℕ) (i : ℕ) : hitsAt positions first i = 1 :=
  if_neg fun h ↦ absurd h.1 (by decide)

theorem ranksAbove_second (h : IsPattern positions) (hn : ∀ i ∈ positions, i ≤ n)
    (hgap : ¬ Gapless positions) :
    RanksAbove (qualified twoItems (parametersOf positions n) second)
      (qualified twoItems (parametersOf positions n) first) := by
  obtain ⟨i, hi, hreached⟩ : ∃ i ∈ positions, ¬ Reached positions i := by
    by_contra hall
    refine hgap (gapless_of_reached h fun i hi ↦ ?_)
    by_contra hreached
    exact hall ⟨i, hi, hreached⟩
  have hle (j : ℕ) : hitsAt positions first j ≤ hitsAt positions second j := by
    exact hitsAt_pos positions second j
  have hlt : hitsAt positions first i < hitsAt positions second i := by
    rw [hitsAt_first, hitsAt, if_pos ⟨rfl, hreached⟩]
    exact Nat.one_lt_two
  have hsum : (positions.map (hitsAt positions first)).sum <
      (positions.map (hitsAt positions second)).sum :=
    sum_lt_sum _ _ (fun j _ ↦ hle j) ⟨i, hi, hlt⟩
  have hpos : (0 : ℚ) < (positions.length : ℕ) :=
    Nat.cast_pos.mpr (length_pos_of_ne_nil h.ne_nil)
  left
  rw [qualified_first h hn, qualified_second h hn, meanHits, meanHits, map_map, map_map,
    length_map, length_map]
  exact div_lt_div_of_pos_right (Nat.cast_lt.mpr hsum) hpos

theorem candidateOf_second (h : IsPattern positions) (hn : ∀ i ∈ positions, i ≤ n) :
    candidateOf twoItems lua (parametersOf positions n) second =
      { candidateOf twoItems lua (parametersOf positions n) first with key := second } := by
  have hpositions (key : Label) :
      (positions.map fun i ↦ (i, hitsAt positions key i)).map Prod.fst = positions := by
    rw [map_map]
    exact map_id positions
  have hsame : ipairs (positions.map fun i ↦ (i, hitsAt positions second i)) =
      ipairs (positions.map fun i ↦ (i, hitsAt positions first i)) := by
    refine ipairs_eq_of_reached positions fun i hi ↦ ?_
    exact if_neg fun hnot ↦ hnot.2 hi
  rw [candidateOf, candidateOf, qualified_first h hn, qualified_second h hn, avg, avg, sum, sum,
    hsame, hpositions, hpositions]

theorem greater_self (mean : Option ℚ) : greater mean mean = false := by
  cases mean with
  | none => rfl
  | some m => exact decide_eq_false (lt_irrefl m)

theorem sortsBefore_twoItems (h : IsPattern positions) (hn : ∀ i ∈ positions, i ≤ n)
    {key key' : Label} (hkey : key = first ∨ key = second) (hkey' : key' = first ∨ key' = second) :
    sortsBefore (candidateOf twoItems lua (parametersOf positions n) key)
      (candidateOf twoItems lua (parametersOf positions n) key') = true ↔ key.text < key'.text := by
  have hrow (key : Label) (hkey : key = first ∨ key = second) :
      candidateOf twoItems lua (parametersOf positions n) key =
        { candidateOf twoItems lua (parametersOf positions n) first with key := key } := by
    rcases hkey with rfl | rfl
    · rfl
    · exact candidateOf_second h hn
  rw [hrow key hkey, hrow key' hkey', sortsBefore]
  rw [greater_self, if_neg Bool.false_ne_true, if_neg Bool.false_ne_true, if_neg (lt_irrefl _),
    if_neg (lt_irrefl _), decide_eq_true_iff]

theorem not_returnsBest_of_gap (calculateSimilarity : Frequencies → Frequencies → Score) (lua : Lua)
    (h : IsPattern positions) (hn : ∀ i ∈ positions, i ≤ n) (hgap : ¬ Gapless positions) :
    ¬ ReturnsBest twoItems calculateSimilarity lua (parametersOf positions n) 1 := by
  have hqualified (key : Label) : qualified twoItems (parametersOf positions n) key ≠ [] ↔
      key = first ∨ key = second := by
    rw [qualified_twoItems h hn]
    by_cases hkey : key = first ∨ key = second
    · rw [if_pos hkey]
      exact iff_of_true (fun heq ↦ h.ne_nil (map_eq_nil_iff.mp heq)) hkey
    · rw [if_neg hkey]
      exact iff_of_false (fun hne ↦ hne rfl) hkey
  obtain ⟨keys, hnodup, hmem, hrank⟩ :=
    exists_candidates twoItems lua (parametersOf positions n) 1
  have hkeys : keys.Perm [first, second] := by
    refine (perm_ext_iff_of_nodup hnodup (by decide)).mpr fun key ↦ ?_
    rw [hmem, hqualified, mem_cons, mem_singleton]
  have hcompare : ∀ a ∈ keys.map (candidateOf twoItems lua (parametersOf positions n)),
      ∀ b ∈ keys.map (candidateOf twoItems lua (parametersOf positions n)),
        sortsBefore a b = true ↔ a.key.text < b.key.text := by
    intro a ha b hb
    obtain ⟨key, hkey, rfl⟩ := mem_map.mp ha
    obtain ⟨key', hkey', rfl⟩ := mem_map.mp hb
    exact sortsBefore_twoItems h hn ((hqualified key).mp ((hmem key).mp hkey))
      ((hqualified key').mp ((hmem key').mp hkey'))
  obtain ⟨sorted, hsort, hperm, hpairwise⟩ := exists_sorted lua (fun c ↦ c.key.text) hcompare
  rw [if_pos ⟨by decide, by rw [hkeys.length_eq]; decide⟩, hsort, Option.map_some] at hrank
  obtain ⟨results, hresults, hreturned⟩ := @exists_search _ _ calculateSimilarity _ _ _ _ hrank
  have hsorted : (sorted.map Candidate.key).Perm [first, second] := by
    have hmap := hperm.map Candidate.key
    rw [key_candidateOf] at hmap
    exact hmap.trans hkeys
  obtain ⟨a, b, rfl⟩ : ∃ a b, sorted = [a, b] := by
    rw [← length_eq_two, ← length_map Candidate.key, hsorted.length_eq]
    rfl
  have hfirst : a.key = first := by
    rcases mem_cons.mp (hsorted.subset mem_cons_self) with hfirst | hsecond
    · exact hfirst
    · have hmemFirst : first ∈ [a.key, b.key] := hsorted.symm.subset mem_cons_self
      rw [mem_singleton.mp hsecond, mem_cons, mem_singleton] at hmemFirst
      have hle : a.key.text ≤ b.key.text :=
        (pairwise_cons.mp hpairwise).1 b (mem_singleton_self b)
      rw [mem_singleton.mp hsecond, ← hmemFirst.resolve_left (by decide)] at hle
      exact absurd hle (by decide)
  rintro ⟨results', hresults', hbest⟩
  obtain rfl : results' = results := Option.some.inj (hresults'.symm.trans hresults)
  rw [hreturned] at hbest
  have hreturnedFirst : ([a, b].take (1 : ℤ).toNat).map Candidate.key = [first] := by
    rw [← hfirst]
    rfl
  rw [hreturnedFirst] at hbest
  exact hbest.ranked first mem_cons_self second (by decide)
    ((hqualified second).mpr (Or.inr rfl)) (ranksAbove_second h hn hgap)

end Gap

/-! ### Patterns -/

/-- The best items are returned if not more than the limit qualify. Otherwise, the best items are
returned whenever the items qualify in some patterns of parameters if and only if none of these has
a gap. -/
theorem search_best_iff (calculateSimilarity : Frequencies → Frequencies → Score) (lua : Lua) :
    (∀ searched parameters limit, AtMost searched parameters limit →
      ReturnsBest searched calculateSimilarity lua parameters limit) ∧
    ∀ patterns : Set (List ℕ),
      (∀ searched parameters limit, 0 ≤ limit →
        (∀ key, qualified searched parameters key ≠ [] →
          (qualified searched parameters key).map Prod.fst ∈ patterns) →
        ReturnsBest searched calculateSimilarity lua parameters limit) ↔
      ∀ positions ∈ patterns, IsPattern positions → Gapless positions := by
  refine ⟨fun searched parameters limit h ↦ returnsBest_of_atMost h, fun patterns ↦ ⟨?_, ?_⟩⟩
  · intro hall positions hpositions hpattern
    by_contra hgap
    have hle : ∀ i ∈ positions, i ≤ positions.sum := fun i hi ↦ le_sum_of_mem hi
    refine not_returnsBest_of_gap calculateSimilarity lua hpattern hle hgap
      (hall twoItems _ 1 (by decide) fun key hkey ↦ ?_)
    rw [qualified_twoItems hpattern hle] at hkey ⊢
    by_cases hitem : key = first ∨ key = second
    · rw [if_pos hitem, map_map]
      exact (map_id positions).symm ▸ hpositions
    · rw [if_neg hitem] at hkey
      exact absurd rfl hkey
  · intro hgapless searched parameters limit hlimit hpatterns
    refine returnsBest_of_gapless hlimit fun key ↦ ?_
    by_cases hkey : qualified searched parameters key = []
    · rw [hkey]
      rfl
    · exact hgapless _ (hpatterns key hkey) (isPattern_positions hkey)

def firstBorder (positions : List ℕ) : ℕ :=
  Nat.find (p := fun n ↦ n + 1 ∉ positions)
    ⟨positions.sum, fun hmem ↦ absurd (le_sum_of_mem hmem) (Nat.not_succ_le_self _)⟩

/-- Lua with the first border of a table, and a merge sort. -/
def mergeSortingLua : Lua where
  length := firstBorder
  mem_of_length := by
    intro positions
    by_cases hzero : firstBorder positions = 0
    · exact Or.inl hzero
    · obtain ⟨n, hn⟩ := Nat.exists_eq_succ_of_ne_zero hzero
      have hmin := Nat.find_min (p := fun n ↦ n + 1 ∉ positions) (m := n) _
        (hn ▸ Nat.lt_succ_self n)
      exact Or.inr (hn ▸ not_not.mp hmin)
  length_succ_notMem := fun positions ↦ Nat.find_spec (p := fun n ↦ n + 1 ∉ positions) _
  pairs := id
  pairs_perm := fun rows ↦ List.Perm.refl rows
  sort := fun before rows ↦ some ((rows.attach.mergeSort fun a b ↦ !before b.1 a.1).map Subtype.val)
  sort_valid := by
    intro before rows h
    refine ⟨_, rfl, ?_, ?_⟩
    · have hperm := (mergeSort_perm rows.attach fun a b ↦ !before b.1 a.1).map Subtype.val
      rwa [attach_map_subtype_val] at hperm
    · have htrans (a b c : { c // c ∈ rows }) (hab : (!before b.1 a.1) = true)
          (hbc : (!before c.1 b.1) = true) : (!before c.1 a.1) = true := by
        rw [Bool.not_eq_true'] at hab hbc ⊢
        exact h.trans c.1 c.2 b.1 b.2 a.1 a.2 hbc hab
      have htotal (a b : { c // c ∈ rows }) : (!before b.1 a.1 || !before a.1 b.1) = true := by
        cases hab : before a.1 b.1 with
        | false => rw [Bool.not_false, Bool.or_true]
        | true => rw [h.asymm a.1 a.2 b.1 b.2 hab, Bool.not_false, Bool.true_or]
      have hpairwise := pairwise_mergeSort htrans htotal rows.attach
      refine (isChain_map Subtype.val).mpr (hpairwise.isChain.imp fun a b hab ↦ ?_)
      exact Bool.not_eq_true' _ ▸ hab

/-- Two parameters, of which two items qualify in the second one only. The item with one hit is
returned, and the one with two is not. -/
theorem secondParameter_not_best :
    ¬ ReturnsBest twoItems (fun _ _ ↦ ()) mergeSortingLua (parametersOf [2] 2) 1 :=
  not_returnsBest_of_gap _ _ ⟨by decide, pairwise_singleton _ _, by decide⟩ (by decide)
    (by decide)

end Sentry.Similarity.Search
