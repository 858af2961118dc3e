import Sentry.Pagination.Paginator
import Mathlib.Data.List.Chain
import Mathlib.Data.Prod.Lex
import Mathlib.Algebra.Ring.Int.Defs

/-!
# Visiting a sequence

`SequencePaginator` of `api/paginator.py`, in both directions. A position in the sorted data is
written as the score there and the number of values with that score before it (`cursorFor`), and
read by searching the score (`position_cursorFor`). A score of 0 is not searched: so a page that
starts with score 0 is found again only if the first score of all is 0, and going back from it gives
the last values of all (`traverses_iff`). The hits and `on_results` are left out.
-/

namespace Sentry.Pagination

open Library List Option
open Search (Cursor reverseBisectLeft reverseBisectLeft_eq)

/-- `bisect.bisect_left`, from position 0: `reverse_bisect_left` for the opposite order. -/
def bisectLeft (a : List ℤ) (x : ℤ) (hi : ℕ) : ℕ :=
  reverseBisectLeft (α := ℤᵒᵈ) (a.map OrderDual.toDual) (OrderDual.toDual x) hi

/-- The arguments of `SequencePaginator`. -/
structure SequencePaginator (β : Type*) where
  data : List (ℤ × β)
  reverse : Bool
  maxLimit : ℕ

namespace SequencePaginator

variable {β : Type*} [LinearOrder β] (p : SequencePaginator β)

/-- `sorted(data, reverse=reverse)` -/
def sorted : List (ℤ × β) :=
  p.data.mergeSort fun a b ↦
    if p.reverse then decide (toLex b ≤ toLex a) else decide (toLex a ≤ toLex b)

def scores : List ℤ := p.sorted.map Prod.fst

def values : List β := p.sorted.map Prod.snd

def search (x : ℤ) (hi : ℕ) : ℕ :=
  if p.reverse then reverseBisectLeft p.scores x hi else bisectLeft p.scores x hi

/-- `position` in `get_result`. -/
def position (cursor : Cursor ℤ) : ℕ :=
  (if cursor.value = 0 then if cursor.isPrev then p.scores.length else 0
    else p.search cursor.value p.scores.length) + cursor.offset

/-- `lo` and `hi` in `get_result`. -/
def bounds (limit : ℕ) (cursor : Cursor ℤ) : ℕ × ℕ :=
  if cursor.isPrev then
    (min (p.position cursor) p.scores.length - limit, min (p.position cursor) p.scores.length)
  else (p.position cursor, min (p.position cursor + limit) p.scores.length)

def cursorFor (i : ℕ) (isPrev hasResults : Bool) : Cursor ℤ :=
  let score := p.scores.getD (min i (p.scores.length - 1)) 0
  ⟨score, i - p.search score i, isPrev, hasResults⟩

/-- `get_result` -/
def getResult (limit : ℕ) (cursor : Option (Cursor ℤ)) : CursorResult β :=
  let cursor := cursor.getD ⟨0, 0, false, false⟩
  let (lo, hi) := p.bounds (min limit p.maxLimit) cursor
  { results := (p.values.take hi).drop lo
    next :=
      if p.scores = [] then ⟨cursor.value, cursor.offset, false, false⟩
      else p.cursorFor hi false (hi < p.scores.length)
    prev :=
      if p.scores = [] then ⟨cursor.value, cursor.offset, true, false⟩
      else p.cursorFor lo true (0 < lo) }

def visit (limit : ℕ) : ℕ → Option (Cursor ℤ) → Option (List (CursorResult β))
  | 0, _ => none
  | fuel + 1, cursor =>
    let page := p.getResult limit cursor
    if page.next.hasResults then (visit limit fuel (some page.next)).map (page :: ·)
    else some [page]

/-- The visit ends, with every value once and in sorted order, and the previous cursor of a page
gives the page before. -/
def Traverses (limit : ℕ) : Prop :=
  ∃ fuel pages, p.visit limit fuel none = some pages ∧
    (pages.map CursorResult.results).flatten = p.values ∧
    pages.IsChain fun page following ↦
      (p.getResult limit (some following.prev)).results = page.results

/-- If a page after the first one starts with score 0, so does the first one, and the page before it
has the same values as the last page of all that is full. -/
def Traversable (limit : ℕ) : Prop :=
  let limit := min limit p.maxLimit
  ∀ k, p.scores[(k + 1) * limit]? = some 0 → p.scores.head? = some 0 ∧
    (p.values.drop (k * limit)).take limit = p.values.drop (p.values.length - limit)

def rank (score : ℤ) : ℤ := if p.reverse then -score else score

variable {p}

theorem length_values (p : SequencePaginator β) : p.values.length = p.scores.length := by
  rw [values, scores, length_map, length_map]

theorem fst_le_of_toLex_le {a b : ℤ × β} (h : toLex a ≤ toLex b) : a.1 ≤ b.1 := by
  rcases Prod.Lex.le_iff.mp h with hlt | ⟨heq, -⟩
  · exact hlt.le
  · exact heq.le

theorem pairwise_sorted (p : SequencePaginator β) : p.sorted.Pairwise fun a b ↦
    if p.reverse then toLex b ≤ toLex a else toLex a ≤ toLex b := by
  unfold sorted
  cases p.reverse with
  | false =>
    refine (pairwise_mergeSort (fun a b c hab hbc ↦ ?_) (fun a b ↦ ?_) p.data).imp
      fun h ↦ of_decide_eq_true h
    · exact decide_eq_true ((of_decide_eq_true hab).trans (of_decide_eq_true hbc))
    · simpa using le_total (toLex a) (toLex b)
  | true =>
    refine (pairwise_mergeSort (fun a b c hab hbc ↦ ?_) (fun a b ↦ ?_) p.data).imp
      fun h ↦ of_decide_eq_true h
    · exact decide_eq_true ((of_decide_eq_true hbc).trans (of_decide_eq_true hab))
    · simpa using le_total (toLex b) (toLex a)

theorem pairwise_scores (p : SequencePaginator β) :
    p.scores.Pairwise fun a b ↦ p.rank a ≤ p.rank b := by
  refine pairwise_map.mpr ((pairwise_sorted p).imp fun {a b} h ↦ ?_)
  unfold rank
  cases hreverse : p.reverse with
  | false =>
    rw [hreverse] at h
    exact fst_le_of_toLex_le h
  | true =>
    rw [hreverse] at h
    exact Int.neg_le_neg (fst_le_of_toLex_le h)

theorem search_eq (p : SequencePaginator β) (x : ℤ) (hi : ℕ) :
    p.search x hi = (p.scores.take hi).countP fun y ↦ p.rank y < p.rank x := by
  have hsorted := pairwise_scores p
  unfold rank at hsorted ⊢
  unfold search
  cases hreverse : p.reverse with
  | false =>
    rw [hreverse] at hsorted
    have hdual : (p.scores.map OrderDual.toDual).Pairwise fun y z ↦ z ≤ y :=
      pairwise_map.mpr hsorted
    rw [bisectLeft, reverseBisectLeft_eq hdual, ← map_take, countP_map]
    rfl
  | true =>
    rw [hreverse] at hsorted
    have hdescending : p.scores.Pairwise fun y z ↦ z ≤ y :=
      hsorted.imp fun h ↦ Int.neg_le_neg_iff.mp h
    rw [reverseBisectLeft_eq hdescending]
    refine countP_congr fun y _ ↦ ?_
    simp

theorem search_le (p : SequencePaginator β) (x : ℤ) (i : ℕ) : p.search x i ≤ i := by
  rw [search_eq]
  exact countP_le_length.trans (length_take_le i _)

section Position

variable {i : ℕ} {score : ℤ} (hscore : score ∈ p.scores[i]?)

include hscore

theorem rank_le_of_mem_drop {other : ℤ} (hother : other ∈ p.scores.drop i) :
    p.rank score ≤ p.rank other := by
  obtain ⟨hi, rfl⟩ := List.getElem?_eq_some_iff.mp hscore
  rw [drop_eq_getElem_cons hi] at hother
  rcases mem_cons.mp hother with rfl | hother
  · exact le_rfl
  · exact rel_of_getElem_of_mem_drop (pairwise_scores p) hscore hother

theorem search_length : p.search score p.scores.length = p.search score i := by
  have hnone : (p.scores.drop i).countP (fun y ↦ p.rank y < p.rank score) = 0 := by
    rw [countP_eq_zero]
    intro other hother
    rw [decide_eq_true_eq, not_lt]
    exact rank_le_of_mem_drop hscore hother
  rw [search_eq, search_eq, take_length]
  conv_lhs => rw [← take_append_drop i p.scores, countP_append, hnone, Nat.add_zero]

theorem cursorFor_eq (isPrev hasResults : Bool) :
    p.cursorFor i isPrev hasResults = ⟨score, i - p.search score i, isPrev, hasResults⟩ := by
  obtain ⟨hi, hget⟩ := List.getElem?_eq_some_iff.mp hscore
  have hmin : min i (p.scores.length - 1) = i := by omega
  simp only [cursorFor, hmin, getD_eq_getElem?_getD, mem_def.mp hscore, getD_some]

theorem position_cursorFor (hne : score ≠ 0) (isPrev hasResults : Bool) :
    p.position (p.cursorFor i isPrev hasResults) = i := by
  rw [cursorFor_eq hscore, position]
  simp only [if_neg hne]
  rw [search_length hscore, Nat.add_sub_cancel' (search_le p score i)]

theorem position_next (hasResults : Bool) : p.position (p.cursorFor i false hasResults) =
    if score = 0 then i - p.search score i else i := by
  by_cases hzero : score = 0
  · rw [if_pos hzero, cursorFor_eq hscore, position]
    simp only [if_pos hzero, Bool.false_eq_true, if_false, Nat.zero_add]
  · rw [if_neg hzero, position_cursorFor hscore hzero]

theorem search_eq_zero_iff (hpos : 0 < i) : p.search score i = 0 ↔ p.scores.head? = some score := by
  obtain ⟨hi, hget⟩ := List.getElem?_eq_some_iff.mp hscore
  have hfirst : p.scores[0] ∈ p.scores[0]? := getElem?_eq_getElem (by omega)
  rw [search_eq, countP_eq_zero, head?_eq_getElem?]
  constructor
  · intro hnone
    have hmem : p.scores[0] ∈ p.scores.take i := mem_take_iff_getElem.mpr ⟨0, by omega, rfl⟩
    have hge := hnone _ hmem
    rw [decide_eq_true_eq, not_lt] at hge
    have hle := rel_of_mem_take_of_getElem (pairwise_scores p) hmem hscore
    have hrank : p.rank p.scores[0] = p.rank score := le_antisymm hle hge
    rw [mem_def.mp hfirst, Option.some.injEq]
    unfold rank at hrank
    split_ifs at hrank <;> omega
  · intro hhead other hother
    rw [mem_def.mp hfirst, Option.some.injEq] at hhead
    rw [decide_eq_true_eq, not_lt, ← hhead]
    exact rank_le_of_mem_drop hfirst (mem_of_mem_take hother)

end Position

/-- A cursor that leads to a position, for going on. -/
structure LeadsTo (p : SequencePaginator β) (cursor : Option (Cursor ℤ)) (q : ℕ) : Prop where
  isPrev : (cursor.getD ⟨0, 0, false, false⟩).isPrev = false
  position : p.position (cursor.getD ⟨0, 0, false, false⟩) = q

theorem leadsTo_none (p : SequencePaginator β) : p.LeadsTo none 0 := ⟨rfl, rfl⟩

theorem leadsTo_next {i : ℕ} {score : ℤ} (hscore : score ∈ p.scores[i]?) :
    p.LeadsTo (some (p.cursorFor i false true))
      (if score = 0 then i - p.search score i else i) :=
  ⟨rfl, position_next hscore true⟩

theorem leadsTo_next_self {i : ℕ} {score : ℤ} (hscore : score ∈ p.scores[i]?)
    (hsearch : score = 0 → p.search score i = 0) :
    p.LeadsTo (some (p.cursorFor i false true)) i := by
  have hposition := leadsTo_next hscore
  by_cases hzero : score = 0
  · rwa [if_pos hzero, hsearch hzero, Nat.sub_zero] at hposition
  · rwa [if_neg hzero] at hposition

theorem start_succ (q k limit : ℕ) : q + (k + 1) * limit = q + limit + k * limit := by
  rw [Nat.succ_mul, Nat.add_comm (k * limit), Nat.add_assoc]

section Page

variable {limit q : ℕ} {cursor : Option (Cursor ℤ)} (h : p.LeadsTo cursor q)

include h

theorem bounds_next (limit : ℕ) : p.bounds limit (cursor.getD ⟨0, 0, false, false⟩) =
    (q, min (q + limit) p.scores.length) := by
  rw [bounds, h.isPrev, h.position]
  rfl

theorem results_next : (p.getResult limit cursor).results =
    (p.values.drop q).take (min limit p.maxLimit) := by
  have htake : p.values.take (min (q + min limit p.maxLimit) p.values.length) =
      p.values.take (q + min limit p.maxLimit) := by
    rw [← take_take, take_length]
  simp only [getResult, bounds_next h]
  rw [← length_values, htake, drop_take, Nat.add_sub_cancel_left]

theorem next_of_more {score : ℤ} (hscore : score ∈ p.scores[q + min limit p.maxLimit]?) :
    (p.getResult limit cursor).next = p.cursorFor (q + min limit p.maxLimit) false true := by
  have hmore := (List.getElem?_eq_some_iff.mp hscore).1
  have hne : p.scores ≠ [] := ne_nil_of_length_pos (by omega)
  simp only [getResult, bounds_next h, if_neg hne, min_eq_left hmore.le, decide_eq_true hmore]

theorem next_of_end (hend : p.scores[q + min limit p.maxLimit]? = none) :
    (p.getResult limit cursor).next.hasResults = false := by
  have hlength := List.getElem?_eq_none_iff.mp hend
  simp only [getResult, bounds_next h, min_eq_right hlength, lt_irrefl, decide_false]
  split_ifs <;> rfl

theorem prev_of_next (hq : q < p.scores.length) :
    (p.getResult limit cursor).prev = p.cursorFor q true (0 < q) := by
  have hne : p.scores ≠ [] := ne_nil_of_length_pos (by omega)
  simp only [getResult, bounds_next h, if_neg hne]

theorem visit_succ (limit fuel : ℕ) : p.visit limit (fuel + 1) cursor =
    match p.scores[q + min limit p.maxLimit]? with
    | some _ => (p.visit limit fuel
        (some (p.cursorFor (q + min limit p.maxLimit) false true))).map
          (p.getResult limit cursor :: ·)
    | none => some [p.getResult limit cursor] := by
  rw [visit]
  cases hscore : p.scores[q + min limit p.maxLimit]? with
  | some score =>
    rw [next_of_more h hscore]
    rfl
  | none =>
    rw [next_of_end h hscore]
    rfl

end Page

theorem results_prev {limit q : ℕ} {score : ℤ} (hscore : score ∈ p.scores[q]?)
    (hasResults : Bool) : (p.getResult limit (some (p.cursorFor q true hasResults))).results =
      if score = 0 then p.values.drop (p.values.length - min limit p.maxLimit)
      else (p.values.take q).drop (q - min limit p.maxLimit) := by
  have hq := (List.getElem?_eq_some_iff.mp hscore).1
  have hisPrev : (p.cursorFor q true hasResults).isPrev = true := rfl
  simp only [getResult, getD_some, bounds, hisPrev, if_true]
  by_cases hzero : score = 0
  · have hposition : p.scores.length ≤ p.position (p.cursorFor q true hasResults) := by
      rw [cursorFor_eq hscore, position]
      simp only [if_pos hzero, if_true]
      exact Nat.le_add_right _ _
    rw [if_pos hzero, min_eq_right hposition, ← length_values, take_length]
  · rw [if_neg hzero, position_cursorFor hscore hzero, min_eq_left hq.le]

variable {cursor : Option (Cursor ℤ)}

theorem head?_of_visit {limit fuel : ℕ}
    {pages : List (CursorResult β)} (hvisit : p.visit limit fuel cursor = some pages) :
    pages.head? = some (p.getResult limit cursor) := by
  cases fuel with
  | zero => exact absurd hvisit (some_ne_none pages).symm
  | succ fuel =>
    rw [visit] at hvisit
    split_ifs at hvisit
    · obtain ⟨rest, -, rfl⟩ := map_eq_some_iff.mp hvisit
      rfl
    · obtain rfl := Option.some.inj hvisit
      rfl

theorem results_back {limit q : ℕ} {score : ℤ}
    (hscore : score ∈ p.scores[q + min limit p.maxLimit]?)
    (h : p.LeadsTo cursor (q + min limit p.maxLimit)) :
    (p.getResult limit (some (p.getResult limit cursor).prev)).results =
      if score = 0 then p.values.drop (p.values.length - min limit p.maxLimit)
      else (p.values.drop q).take (min limit p.maxLimit) := by
  rw [prev_of_next h (List.getElem?_eq_some_iff.mp hscore).1, results_prev hscore,
    Nat.add_sub_cancel, drop_take, Nat.add_sub_cancel_left]

section Visit

variable {limit : ℕ} (hlimit : 0 < min limit p.maxLimit)

include hlimit

theorem exists_visit {q : ℕ} (h : p.LeadsTo cursor q)
    (hzero : ∀ k, p.scores[q + (k + 1) * min limit p.maxLimit]? = some 0 →
      p.scores.head? = some 0 ∧
        (p.values.drop (q + k * min limit p.maxLimit)).take (min limit p.maxLimit) =
          p.values.drop (p.values.length - min limit p.maxLimit)) :
    ∃ fuel pages, p.visit limit fuel cursor = some pages ∧
      (pages.map CursorResult.results).flatten = p.values.drop q ∧
      pages.IsChain fun page following ↦
        (p.getResult limit (some following.prev)).results = page.results := by
  induction hn : p.scores.length - q using Nat.strong_induction_on generalizing q cursor with
  | _ n ih =>
    cases hscore : p.scores[q + min limit p.maxLimit]? with
    | none =>
      refine ⟨1, [p.getResult limit cursor], ?_, ?_, List.IsChain.singleton _⟩
      · rw [visit_succ h limit 0, hscore]
      · have hend := List.getElem?_eq_none_iff.mp hscore
        rw [map_singleton, flatten_singleton, results_next h, take_of_length_le]
        rw [length_drop, length_values]
        omega
    | some score =>
      have hmore := (List.getElem?_eq_some_iff.mp hscore).1
      have hfirst : score = 0 → p.scores.head? = some 0 ∧
          (p.values.drop q).take (min limit p.maxLimit) =
            p.values.drop (p.values.length - min limit p.maxLimit) := by
        rintro rfl
        have hpage := hzero 0
        rw [Nat.zero_add, Nat.one_mul, Nat.zero_mul, Nat.add_zero] at hpage
        exact hpage hscore
      have hnext : p.LeadsTo (some (p.cursorFor (q + min limit p.maxLimit) false true))
          (q + min limit p.maxLimit) :=
        leadsTo_next_self hscore fun hkey ↦
          (search_eq_zero_iff hscore (by omega)).mpr (hkey ▸ (hfirst hkey).1)
      obtain ⟨fuel, pages, hvisit, hflatten, hchain⟩ :=
        ih (p.scores.length - (q + min limit p.maxLimit)) (by omega) hnext (fun k hk ↦ by
          have hpage := hzero (k + 1)
          rw [start_succ q (k + 1), start_succ q k] at hpage
          exact hpage hk) rfl
      refine ⟨fuel + 1, p.getResult limit cursor :: pages, ?_, ?_, ?_⟩
      · rw [visit_succ h limit fuel, hscore]
        simp only [hvisit, map_some]
      · rw [map_cons, flatten_cons, hflatten, results_next h, ← drop_drop, take_append_drop]
      · refine isChain_cons.mpr ⟨fun following hfollowing ↦ ?_, hchain⟩
        rw [head?_of_visit hvisit, mem_def, Option.some.injEq] at hfollowing
        rw [← hfollowing, results_back hscore hnext, results_next h]
        split_ifs with hkey
        · exact (hfirst hkey).2.symm
        · rfl

omit hlimit in
theorem length_le_of_visit {fuel q : ℕ} (h : p.LeadsTo cursor q)
    {pages : List (CursorResult β)} (hvisit : p.visit limit fuel cursor = some pages) :
    p.values.length - q ≤ (pages.map CursorResult.results).flatten.length := by
  induction fuel generalizing q cursor pages with
  | zero => exact absurd hvisit (some_ne_none pages).symm
  | succ fuel ih =>
    have hpage : (p.getResult limit cursor).results.length =
        min (min limit p.maxLimit) (p.values.length - q) := by
      rw [results_next h, length_take, length_drop]
    rw [visit_succ h limit fuel] at hvisit
    cases hscore : p.scores[q + min limit p.maxLimit]? with
    | none =>
      rw [hscore] at hvisit
      obtain rfl := Option.some.inj hvisit
      have hend := List.getElem?_eq_none_iff.mp hscore
      rw [← length_values] at hend
      rw [map_singleton, flatten_singleton, hpage]
      omega
    | some score =>
      rw [hscore] at hvisit
      obtain ⟨rest, hrest, rfl⟩ := map_eq_some_iff.mp hvisit
      have hvisited := ih (leadsTo_next hscore) hrest
      rw [map_cons, flatten_cons, length_append, hpage]
      split_ifs at hvisited <;> omega

theorem zero_of_visit {fuel q : ℕ} (h : p.LeadsTo cursor q)
    {pages : List (CursorResult β)} (hvisit : p.visit limit fuel cursor = some pages)
    (hlength : (pages.map CursorResult.results).flatten.length ≤ p.values.length - q)
    (hchain : pages.IsChain fun page following ↦
      (p.getResult limit (some following.prev)).results = page.results) :
    ∀ k, p.scores[q + (k + 1) * min limit p.maxLimit]? = some 0 → p.scores.head? = some 0 ∧
      (p.values.drop (q + k * min limit p.maxLimit)).take (min limit p.maxLimit) =
        p.values.drop (p.values.length - min limit p.maxLimit) := by
  induction fuel generalizing q cursor pages with
  | zero => exact absurd hvisit (some_ne_none pages).symm
  | succ fuel ih =>
    intro k hk
    rw [visit_succ h limit fuel] at hvisit
    cases hscore : p.scores[q + min limit p.maxLimit]? with
    | none =>
      have hend := List.getElem?_eq_none_iff.mp hscore
      have hmore := (List.getElem?_eq_some_iff.mp hk).1
      rw [Nat.succ_mul] at hmore
      omega
    | some score =>
      have hmore := (List.getElem?_eq_some_iff.mp hscore).1
      rw [← length_values] at hmore
      rw [hscore] at hvisit
      obtain ⟨rest, hrest, rfl⟩ := map_eq_some_iff.mp hvisit
      obtain ⟨hback, hchain⟩ := isChain_cons.mp hchain
      have hpage : (p.getResult limit cursor).results.length = min limit p.maxLimit := by
        rw [results_next h, length_take, length_drop]
        omega
      rw [map_cons, flatten_cons, length_append, hpage] at hlength
      -- If the next page started before its position, there would be too many values.
      have hvisited := length_le_of_visit (leadsTo_next hscore) hrest
      have hsearch : score = 0 → p.search score (q + min limit p.maxLimit) = 0 := by
        intro hkey
        rw [if_pos hkey] at hvisited
        omega
      have hnext : p.LeadsTo (some (p.cursorFor (q + min limit p.maxLimit) false true))
          (q + min limit p.maxLimit) := leadsTo_next_self hscore hsearch
      cases k with
      | zero =>
        rw [Nat.zero_add, Nat.one_mul, hscore, Option.some.injEq] at hk
        have hresults := hback _ (head?_of_visit hrest)
        rw [results_back hscore hnext, results_next h, if_pos hk] at hresults
        rw [Nat.zero_mul, Nat.add_zero]
        refine ⟨?_, hresults.symm⟩
        rw [← hk]
        exact (search_eq_zero_iff hscore (by omega)).mp (hsearch hk)
      | succ k =>
        rw [start_succ q (k + 1)] at hk
        rw [start_succ q k]
        exact ih hnext hrest (by omega) hchain k hk

end Visit

theorem traversable_of_traverses {limit : ℕ} (hlimit : 0 < min limit p.maxLimit)
    (h : p.Traverses limit) : p.Traversable limit := by
  obtain ⟨fuel, pages, hvisit, hflatten, hchain⟩ := h
  intro k hk
  have hlength : (pages.map CursorResult.results).flatten.length ≤ p.values.length - 0 := by
    rw [hflatten, Nat.sub_zero]
  have hzero := zero_of_visit hlimit (leadsTo_none p) hvisit hlength hchain k
  rw [Nat.zero_add, Nat.zero_add] at hzero
  exact hzero hk

/-- All values are visited once, in sorted order, and the previous cursors lead back, if and only if
no page after the first starts with score 0, or the first one does and what comes before the page
is the same as what comes last of all. -/
theorem traverses_iff (p : SequencePaginator β) {limit : ℕ} (hlimit : 1 ≤ limit)
    (hmax : 1 ≤ p.maxLimit) : p.Traverses limit ↔ p.Traversable limit := by
  have hmin : 0 < min limit p.maxLimit := lt_min hlimit hmax
  refine ⟨traversable_of_traverses hmin, fun hzero ↦ ?_⟩
  obtain ⟨fuel, pages, hvisit, hflatten, hchain⟩ :=
    exists_visit hmin (leadsTo_none p) fun k ↦ by
      rw [Nat.zero_add, Nat.zero_add]
      exact hzero k
  exact ⟨fuel, pages, hvisit, hflatten, hchain⟩

/-- Two values with the scores -1 and 0, the second of which starts the second page. -/
def negativeScore : SequencePaginator ℕ where
  data := [(-1, 1), (0, 2)]
  reverse := false
  maxLimit := 100

theorem traverses_iff_negativeScore : negativeScore.Traverses 2 ↔ negativeScore.Traversable 2 :=
  traverses_iff negativeScore (by decide) (by decide)

theorem negativeScore_not_traverses : ¬ negativeScore.Traverses 1 := by
  intro htraverses
  have hsorted : negativeScore.sorted = [(-1, 1), (0, 2)] :=
    mergeSort_of_pairwise (by decide)
  have hzero := traversable_of_traverses (by decide) htraverses 0
  rw [scores, hsorted] at hzero
  exact absurd (hzero rfl).1 (by decide)

end SequencePaginator

end Sentry.Pagination
