import Sentry.Pagination.VisitsAll
import Mathlib.Data.List.TakeWhile

/-!
# Going back to a page

With different keys that are not 0, a page is determined by the position of the row with the key of
its cursor, so the previous cursor of the next page gives the page itself, as long as the rows come
in the order that the paginator means. They do not if the queryset is in descending order and the
paginator wants the ascending one, or if a request before left it so (`undoesNext_iff`).
-/

namespace Sentry.Pagination

open Library List Option
open Search (Cursor)

variable {Row : Type*}

/-- The sort keys are different, and none is 0. -/
structure Table.DistinctKeys (table : Table Row) : Prop where
  key_ne : table.ascending.Pairwise fun a b ↦ table.key a ≠ table.key b
  ne_zero : ∀ row ∈ table.ascending, table.key row ≠ 0

namespace Paginator

/-! ### Requests -/

/-- A page, and the paginator for the next request: the same one, or one with a new queryset. -/
def request (reused : Bool) (limit : ℕ) (p : Paginator Row) (cursor : Option (Cursor ℤ)) :
    CursorResult Row × Paginator Row :=
  let result := p.getResult limit cursor
  (result.1, if reused then result.2 else p)

/-- The paginators and cursors of the requests that come up by following, from no cursor on, cursors
that say that they have results. -/
inductive Reached (reused : Bool) (limit : ℕ) (p : Paginator Row) :
    Paginator Row → Option (Cursor ℤ) → Prop
  | first : Reached reused limit p p none
  | next {q : Paginator Row} {cursor : Option (Cursor ℤ)} (h : Reached reused limit p q cursor)
      (hresults : (q.request reused limit cursor).1.next.hasResults = true) :
      Reached reused limit p (q.request reused limit cursor).2
        (some (q.request reused limit cursor).1.next)
  | prev {q : Paginator Row} {cursor : Option (Cursor ℤ)} (h : Reached reused limit p q cursor)
      (hresults : (q.request reused limit cursor).1.prev.hasResults = true) :
      Reached reused limit p (q.request reused limit cursor).2
        (some (q.request reused limit cursor).1.prev)

def Undoes (reused : Bool) (limit : ℕ) (q : Paginator Row) (cursor : Option (Cursor ℤ)) : Prop :=
  let page := q.request reused limit cursor
  page.1.next.hasResults = true →
    let following := page.2.request reused limit (some page.1.next)
    (following.2.request reused limit (some following.1.prev)).1.results = page.1.results

/-- The previous cursor undoes the next one, on every page. -/
def UndoesNext (reused : Bool) (limit : ℕ) (p : Paginator Row) : Prop :=
  ∀ q cursor, Reached reused limit p q cursor → q.Undoes reused limit cursor

/-- The queryset does not come in descending order, and is not left in it, or there are too few rows
for that to matter. -/
def Undoable (reused : Bool) (limit : ℕ) (p : Paginator Row) : Prop :=
  let size := p.table.ascending.length
  let limit := min limit p.maxLimit
  match p.orderBy with
  | none => True
  | some .ascending =>
    reused = true → if p.desc then size ≤ limit ∨ limit = 1 ∧ size ≤ 2 else size ≤ limit + 1
  | some .descending => size ≤ limit ∨ p.desc = true ∧ limit = 1 ∧ size ≤ 2

/-! ### The rows in sort order -/

def direction (p : Paginator Row) : KeyOrder := if p.desc then .descending else .ascending

def sorted (p : Paginator Row) : List Row := p.table.rows p.direction

variable {p : Paginator Row}

theorem sorted_perm (p : Paginator Row) : p.sorted.Perm p.table.ascending := by
  unfold sorted
  cases p.direction with
  | ascending => exact List.Perm.refl _
  | descending => exact p.table.perm

theorem length_sorted (p : Paginator Row) : p.sorted.length = p.table.ascending.length :=
  p.sorted_perm.length_eq

section DistinctKeys

variable (hkeys : p.table.DistinctKeys)

include hkeys

theorem key_ne_zero {row : Row} (hrow : row ∈ p.sorted) : p.table.key row ≠ 0 :=
  hkeys.ne_zero row (p.sorted_perm.mem_iff.mp hrow)

theorem descending_eq_reverse : p.table.descending = p.table.ascending.reverse := by
  have hne : p.table.descending.Pairwise fun a b ↦ p.table.key a ≠ p.table.key b :=
    (p.table.perm.pairwise_iff fun h ↦ Ne.symm h).mpr hkeys.key_ne
  have hdescending : p.table.descending.Pairwise fun a b ↦ p.table.key b < p.table.key a :=
    (p.table.descending_sorted.and hne).imp fun h ↦ lt_of_le_of_ne h.1 (Ne.symm h.2)
  have hascending : p.table.ascending.reverse.Pairwise fun a b ↦ p.table.key b < p.table.key a := by
    rw [pairwise_reverse]
    exact (p.table.ascending_sorted.and hkeys.key_ne).imp fun h ↦ lt_of_le_of_ne h.1 h.2
  have hperm : p.table.descending.Perm p.table.ascending.reverse :=
    p.table.perm.trans (reverse_perm _).symm
  exact hperm.eq_of_pairwise (fun a b _ _ hab hba ↦ absurd hab hba.asymm) hdescending hascending

theorem rank_lt_of_sorted :
    p.sorted.Pairwise fun a b ↦ p.rank (p.table.key a) < p.rank (p.table.key b) := by
  have hascending : p.table.ascending.Pairwise fun a b ↦ p.table.key a < p.table.key b :=
    (p.table.ascending_sorted.and hkeys.key_ne).imp fun h ↦ lt_of_le_of_ne h.1 h.2
  unfold sorted direction rank
  cases p.desc with
  | true =>
    show p.table.descending.Pairwise fun a b ↦ -p.table.key a < -p.table.key b
    rw [descending_eq_reverse hkeys, pairwise_reverse]
    exact hascending.imp fun h ↦ Int.neg_lt_neg h
  | false => exact hascending

theorem rows_eq (isPrev : Bool) : p.table.rows (p.order isPrev) =
    if p.order isPrev = p.direction then p.sorted
    else p.sorted.reverse := by
  unfold sorted Table.rows
  rw [descending_eq_reverse hkeys]
  cases p.direction <;> cases p.order isPrev <;> simp

section Position

variable {i : ℕ} {row : Row} (hrow : row ∈ p.sorted[i]?)

include hrow

theorem filter_from : (p.sorted.filter fun other ↦
    decide (p.rank (p.table.key row) ≤ p.rank (p.table.key other))) = p.sorted.drop i := by
  have hsorted := rank_lt_of_sorted hkeys
  apply filter_eq_drop
  · intro other hother
    rw [decide_eq_true_eq, not_le]
    exact rel_of_mem_take_of_getElem hsorted hother hrow
  · intro other hother
    obtain ⟨hi, rfl⟩ := List.getElem?_eq_some_iff.mp hrow
    rw [drop_eq_getElem_cons hi] at hother
    rw [decide_eq_true_eq]
    rcases mem_cons.mp hother with rfl | hother
    · exact le_rfl
    · exact (rel_of_getElem_of_mem_drop hsorted hrow hother).le

theorem filter_upTo : (p.sorted.filter fun other ↦
    decide (p.rank (p.table.key other) ≤ p.rank (p.table.key row))) = p.sorted.take (i + 1) := by
  have hsorted := rank_lt_of_sorted hkeys
  apply filter_eq_take
  · intro other hother
    obtain ⟨hi, rfl⟩ := List.getElem?_eq_some_iff.mp hrow
    rw [take_succ_eq_append_getElem hi] at hother
    rw [decide_eq_true_eq]
    rcases mem_append.mp hother with hother | hother
    · exact (rel_of_mem_take_of_getElem hsorted hother hrow).le
    · rw [mem_singleton.mp hother]
  · intro other hother
    rw [decide_eq_true_eq, not_le]
    exact rel_of_getElem_of_mem_drop hsorted hrow hother

theorem buildQueryset_next : p.buildQueryset (p.table.key row) false =
    if p.order false = p.direction then p.sorted.drop i
    else (p.sorted.drop i).reverse := by
  have hzero := key_ne_zero hkeys (mem_of_getElem? hrow)
  rw [buildQueryset_of_ne_zero hzero, forward, rows_eq hkeys false]
  split_ifs
  · exact filter_from hkeys hrow
  · rw [filter_reverse, filter_from hkeys hrow]

theorem buildQueryset_prev : p.buildQueryset (p.table.key row) true =
    if p.order true = p.direction then p.sorted.take (i + 1)
    else (p.sorted.take (i + 1)).reverse := by
  have hzero := key_ne_zero hkeys (mem_of_getElem? hrow)
  have hfilter : (fun other ↦ if p.table.key row = 0 then true
      else if p.isAsc true then decide (p.table.key row ≤ p.table.key other)
      else decide (p.table.key other ≤ p.table.key row)) =
        fun other ↦ decide (p.rank (p.table.key other) ≤ p.rank (p.table.key row)) := by
    funext other
    rw [if_neg hzero]
    unfold isAsc rank
    cases p.desc <;> simp
  rw [buildQueryset, hfilter, rows_eq hkeys true]
  split_ifs
  · exact filter_upTo hkeys hrow
  · rw [filter_reverse, filter_upTo hkeys hrow]

end Position

end DistinctKeys

/-! ### Pages -/

def page (p : Paginator Row) (limit : ℕ) (cursor : Cursor ℤ) : CursorResult Row :=
  buildCursor p.table.key limit p.desc cursor (p.fetch limit cursor)

def nextCursor (p : Paginator Row) (row : Row) : Cursor ℤ := ⟨p.table.key row, 0, false, true⟩

def prevCursor (p : Paginator Row) (row : Row) : Cursor ℤ := ⟨p.table.key row, 0, true, true⟩

/-- A page has the rows before a position. Its next cursor is the one of the row there, and its
previous cursor that of its first row, if they have results. -/
structure IsPage (p : Paginator Row) (limit : ℕ) (page : CursorResult Row) (stop : ℕ) : Prop where
  results : page.results = (p.sorted.take stop).drop (stop - limit)
  next : ∀ row ∈ p.sorted[stop]?, page.next = p.nextCursor row
  next_end : p.sorted[stop]? = none → page.next.hasResults = false
  prev : page.prev.hasResults = true → ∃ row ∈ p.sorted[stop - limit]?, page.prev = p.prevCursor row

theorem dropLast_take_succ {list : List Row} {n : ℕ} (h : n < list.length) :
    (list.take (n + 1)).dropLast = list.take n := by
  rw [dropLast_eq_take, length_take_of_le h, take_take]
  show list.take (min n (n + 1)) = list.take n
  rw [min_eq_left (Nat.le_succ n)]

theorem drop_take_add (list : List Row) (i count : ℕ) :
    (list.take (i + count)).drop i = (list.drop i).take count := by
  rw [drop_take, Nat.add_sub_cancel_left]

variable {cursor : Cursor ℤ}

theorem results_eq_take (h : cursor.isPrev = false) (limit : ℕ) :
    (p.page limit cursor).results = (p.fetch limit cursor).take limit := by
  rw [fetch_next h, take_take, min_eq_left (Nat.le_succ limit)]
  exact results_next h limit

theorem prev_of_next (h : cursor.isPrev = false) (limit : ℕ) :
    (p.page limit cursor).prev = ⟨((p.fetch limit cursor).head?.map p.table.key).getD 0, 0, true,
      decide (cursor.value ≠ 0) || decide (cursor.offset ≠ 0)⟩ := by
  simp only [page, buildCursor, buildPrevValues, h, Bool.false_and, Bool.false_eq_true, if_false,
    Bool.not_false, Bool.true_or, if_true, head?_eq_getElem?]

variable {row : Row}

theorem prev_eq_of_head {limit : ℕ} (h : cursor.isPrev = false)
    (hvalue : cursor.value ≠ 0) (hhead : (p.fetch limit cursor).head? = some row) :
    (p.page limit cursor).prev = p.prevCursor row := by
  rw [prev_of_next h, hhead, decide_eq_true hvalue]
  rfl

section DistinctKeys

variable (hkeys : p.table.DistinctKeys) {limit : ℕ}

include hkeys

section

variable (hforward : p.forward = p.sorted)

include hforward

theorem cursorAt_eq {i : ℕ} (hrow : row ∈ p.sorted[i]?) : p.cursorAt i row = p.nextCursor row := by
  have hnone : p.equalBefore i (p.table.key row) = 0 := by
    rw [equalBefore, countP_eq_zero, hforward]
    intro other hother hsame
    have hlt := rel_of_mem_take_of_getElem (rank_lt_of_sorted hkeys) hother hrow
    rw [of_decide_eq_true hsame] at hlt
    exact lt_irrefl _ hlt
  rw [cursorAt, hnone]
  rfl

theorem sorted_of_forward : p.Sorted := by
  rw [Sorted, hforward]
  exact (rank_lt_of_sorted hkeys).imp le_of_lt

theorem isPage_of_startsAt (hlimit : 0 < limit)
    {cursor : Cursor ℤ} {i : ℕ} (h : p.StartsAt cursor i)
    (hprev : (p.page limit cursor).prev.hasResults = true →
      ∃ row ∈ p.sorted[i]?, (p.page limit cursor).prev = p.prevCursor row) :
    p.IsPage limit (p.page limit cursor) (i + limit) where
  results := by
    rw [Nat.add_sub_cancel, drop_take_add, ← hforward, ← h.queryset]
    exact results_next h.isPrev limit
  next row hrow := by
    have hnext := next_of_more (sorted_of_forward hkeys hforward) hlimit h (hforward ▸ hrow)
    rwa [cursorAt_eq hkeys hforward hrow] at hnext
  next_end hend := by
    refine next_of_end h ?_
    rw [hforward]
    exact List.getElem?_eq_none_iff.mp hend
  prev hresults := by
    rw [Nat.add_sub_cancel]
    exact hprev hresults

theorem isPage_first (hlimit : 0 < limit) :
    p.IsPage limit (p.page limit ⟨0, 0, false, false⟩) limit := by
  have hpage := isPage_of_startsAt hkeys hforward hlimit p.startsAt_zero fun hresults ↦ by
    exact absurd hresults Bool.false_ne_true
  rwa [Nat.zero_add] at hpage

theorem isPage_next (hlimit : 0 < limit) {i : ℕ} (hrow : row ∈ p.sorted[i]?) :
    p.IsPage limit (p.page limit (p.nextCursor row)) (i + limit) ∧
      (p.page limit (p.nextCursor row)).prev = p.prevCursor row := by
  have hne := key_ne_zero hkeys (mem_of_getElem? hrow)
  have hstart : p.StartsAt (p.nextCursor row) i := by
    rw [← cursorAt_eq hkeys hforward hrow]
    exact startsAt_cursorAt (sorted_of_forward hkeys hforward) (hforward ▸ hrow)
      fun hzero ↦ absurd hzero hne
  have hhead : (p.fetch limit (p.nextCursor row)).head? = some row := by
    rw [fetch_next rfl, hstart.queryset, hforward, head?_take, if_neg (Nat.succ_ne_zero limit),
      head?_drop]
    exact hrow
  have hprev : (p.page limit (p.nextCursor row)).prev = p.prevCursor row :=
    prev_eq_of_head rfl hne hhead
  exact ⟨isPage_of_startsAt hkeys hforward hlimit hstart fun _ ↦ ⟨row, hrow, hprev⟩, hprev⟩

end

end DistinctKeys

/-! ### Going back -/

section Back

variable {limit : ℕ}

theorem fetch_prev (hne : p.table.key row ≠ 0) (limit : ℕ) :
    p.fetch limit (p.prevCursor row) =
      (let results := (p.buildQueryset (p.table.key row) true).take (limit + 2)
        if results.head?.map p.table.key = some (p.table.key row) then results.tail
        else if results.length = limit + 2 then results.dropLast
        else results).reverse := by
  have hvalue : decide ((p.prevCursor row).value ≠ 0) = true := decide_eq_true hne
  have hstop : 0 + limit + 2 = limit + 2 := by rw [Nat.zero_add]
  simp only [fetch, hvalue]
  simp only [prevCursor, Bool.true_and, if_true, drop_zero, hstop]

theorem hasPrev_of_prev {key : Row → ℤ} {limit : ℕ} {isDesc : Bool} {cursor : Cursor ℤ}
    (h : cursor.isPrev = true) (results : List Row) :
    (buildPrevValues key limit isDesc cursor results).2.2 = decide (limit < results.length) := by
  unfold buildPrevValues
  simp only [h, if_true]
  split_ifs <;> rfl

theorem results_of_prev (limit : ℕ) : (p.page limit (p.prevCursor row)).results =
      if limit < (p.fetch limit (p.prevCursor row)).length then
        (p.fetch limit (p.prevCursor row)).tail
      else p.fetch limit (p.prevCursor row) := by
  have hprev : (p.prevCursor row).isPrev = true := rfl
  simp only [page, buildCursor, hasPrev_of_prev hprev]
  simp only [hprev, Bool.true_and, decide_eq_true_eq, Bool.not_true, Bool.false_eq_true, if_false]

theorem next_of_prev (hne : p.table.key row ≠ 0) (limit : ℕ) :
    (p.page limit (p.prevCursor row)).next = p.nextCursor row := by
  have hvalue : (p.prevCursor row).value ≠ 0 := hne
  simp only [page, buildCursor, buildNextValues, if_neg hvalue]
  rfl

theorem prev_of_prev {row first second : Row} {rest : List Row}
    (hfetch : p.fetch limit (p.prevCursor row) = first :: second :: rest)
    (hlong : limit < (first :: second :: rest).length) (hkey : p.table.key second ≠ p.table.key row)
    (hbehind : ∀ third ∈ rest.head?, p.rank (p.table.key second) < p.rank (p.table.key third)) :
    (p.page limit (p.prevCursor row)).prev = p.prevCursor second := by
  have hpassed : rest.takeWhile (fun result ↦
      if p.desc then decide (p.table.key second ≤ p.table.key result)
      else decide (p.table.key result ≤ p.table.key second)) = [] := by
    cases rest with
    | nil => rfl
    | cons third rest =>
      have hlt := hbehind third rfl
      refine takeWhile_cons_of_neg ?_
      unfold rank at hlt
      cases hdesc : p.desc <;> simp only [hdesc] at hlt ⊢ <;> simpa using hlt
  have hprev : buildPrevValues p.table.key limit p.desc (p.prevCursor row)
      (first :: second :: rest) = (p.table.key second, 0, true) := by
    have hkey' : p.table.key second ≠ (p.prevCursor row).value := hkey
    have hisPrev : (p.prevCursor row).isPrev = true := rfl
    simp only [buildPrevValues, hisPrev, decide_eq_true hlong, if_true, Bool.and_self,
      getElem?_cons_succ, getElem?_cons_zero, map_some, getD_some, Bool.not_true, isEmpty_cons,
      Bool.or_self, Bool.false_eq_true, if_false, if_neg hkey', tail_cons, hpassed, length_nil]
  rw [page, hfetch]
  simp only [buildCursor, hprev]
  rfl

section DistinctKeys

variable (hkeys : p.table.DistinctKeys) {i : ℕ} {row : Row} (hrow : row ∈ p.sorted[i]?)

include hkeys hrow

omit hkeys in
theorem length_of_fetch (hfetch : p.fetch limit (p.prevCursor row) =
    (p.sorted.take i).drop (i - (limit + 1))) :
    (p.fetch limit (p.prevCursor row)).length = i - (i - (limit + 1)) := by
  rw [hfetch, length_drop, length_take_of_le (List.getElem?_eq_some_iff.mp hrow).1.le]

omit hkeys in
theorem lt_of_hasResults (hfetch : p.fetch limit (p.prevCursor row) =
    (p.sorted.take i).drop (i - (limit + 1)))
    (hresults : (p.page limit (p.prevCursor row)).prev.hasResults = true) : limit < i := by
  have hisPrev : (p.prevCursor row).isPrev = true := rfl
  have hmore := (hasPrev_of_prev hisPrev _).symm.trans hresults
  rw [decide_eq_true_eq, length_of_fetch hrow hfetch] at hmore
  omega

theorem isPage_of_fetch (hlimit : 0 < limit)
    (hfetch : p.fetch limit (p.prevCursor row) = (p.sorted.take i).drop (i - (limit + 1))) :
    p.IsPage limit (p.page limit (p.prevCursor row)) i := by
  obtain ⟨hi, hget⟩ := List.getElem?_eq_some_iff.mp hrow
  have hlength := length_of_fetch hrow hfetch
  refine ⟨?_, fun other hother ↦ ?_, fun hend ↦ ?_, fun hresults ↦ ?_⟩
  · rw [results_of_prev, hlength, hfetch]
    by_cases hmore : limit < i
    · rw [if_pos (by omega), tail_drop]
      congr 1
      omega
    · rw [if_neg (by omega)]
      congr 1
      omega
  · rw [mem_unique hother hrow]
    exact next_of_prev (key_ne_zero hkeys (mem_of_getElem? hrow)) limit
  · rw [hend] at hrow
    exact absurd hrow nofun
  · have hmore := lt_of_hasResults hrow hfetch hresults
    have hlt := pairwise_iff_getElem.mp (rank_lt_of_sorted hkeys)
    have htake : (p.sorted.take i).length = i := length_take_of_le hi.le
    have hfirst : i - (limit + 1) < (p.sorted.take i).length := by omega
    have hsecond : i - (limit + 1) + 1 < (p.sorted.take i).length := by omega
    have hrows := hfetch
    rw [drop_eq_getElem_cons hfirst, drop_eq_getElem_cons hsecond, getElem_take,
      getElem_take] at hrows
    have hposition : i - (limit + 1) + 1 = i - limit := by omega
    refine ⟨p.sorted[i - (limit + 1) + 1], ?_, ?_⟩
    · rw [← hposition]
      exact getElem?_eq_getElem _
    · refine prev_of_prev hrows ?_ ?_ fun third hthird ↦ ?_
      · rw [← hrows, hlength]
        omega
      · intro hsame
        have hless := hlt (i - (limit + 1) + 1) i (by omega) hi (by omega)
        rw [hget, hsame] at hless
        exact lt_irrefl _ hless
      · rw [head?_drop] at hthird
        obtain ⟨hbound, rfl⟩ := List.getElem?_eq_some_iff.mp hthird
        rw [getElem_take]
        exact hlt _ _ (by omega) (by omega) (by omega)

theorem fetch_prev_eq (hback : p.order true ≠ p.direction) :
    p.fetch limit (p.prevCursor row) = (p.sorted.take i).drop (i - (limit + 1)) := by
  obtain ⟨hi, hget⟩ := List.getElem?_eq_some_iff.mp hrow
  have hrows : (p.buildQueryset (p.table.key row) true).take (limit + 2) =
      row :: (p.sorted.take i).reverse.take (limit + 1) := by
    rw [buildQueryset_prev hkeys hrow, if_neg hback, take_succ_eq_append_getElem hi,
      reverse_append, reverse_singleton, singleton_append, take_succ_cons, hget]
  rw [fetch_prev (key_ne_zero hkeys (mem_of_getElem? hrow)), hrows]
  simp only [head?_cons, map_some, if_true, tail_cons]
  rw [take_reverse, reverse_reverse, length_take_of_le hi.le]

theorem isPage_prev (hlimit : 0 < limit) (hback : p.order true ≠ p.direction) :
    p.IsPage limit (p.page limit (p.prevCursor row)) i :=
  isPage_of_fetch hkeys hrow hlimit (fetch_prev_eq hkeys hrow hback)

theorem fetch_prev_typo (hback : p.order true = p.direction) (hpos : 0 < i) (hmore : limit ≤ i) :
    p.fetch limit (p.prevCursor row) = (p.sorted.take (limit + 1)).reverse := by
  obtain ⟨hi, hget⟩ := List.getElem?_eq_some_iff.mp hrow
  have hne := key_ne_zero hkeys (mem_of_getElem? hrow)
  have hhead : ¬ (p.sorted.take (min (limit + 2) (i + 1))).head?.map p.table.key =
      some (p.table.key row) := by
    have hlt := pairwise_iff_getElem.mp (rank_lt_of_sorted hkeys) 0 i (by omega) hi hpos
    rw [head?_take, if_neg (by omega), head?_eq_getElem?,
      getElem?_eq_getElem (by omega), map_some, Option.some.injEq]
    intro hsame
    rw [hget, hsame] at hlt
    exact lt_irrefl _ hlt
  have hlength : (p.sorted.take (min (limit + 2) (i + 1))).length = min (limit + 2) (i + 1) :=
    length_take_of_le (by omega)
  rw [fetch_prev hne, buildQueryset_prev hkeys hrow, if_pos hback, take_take]
  simp only [if_neg hhead, hlength]
  congr 1
  by_cases hlong : min (limit + 2) (i + 1) = limit + 2
  · rw [if_pos hlong, hlong, dropLast_take_succ (by omega)]
  · rw [if_neg hlong]
    congr 1
    omega

theorem results_prev_typo (hback : p.order true = p.direction) (hpos : 0 < i) (hmore : limit ≤ i) :
    (p.page limit (p.prevCursor row)).results = (p.sorted.take limit).reverse := by
  have hi := (List.getElem?_eq_some_iff.mp hrow).1
  rw [results_of_prev, fetch_prev_typo hkeys hrow hback hpos hmore, length_reverse,
    length_take_of_le (by omega), if_pos (Nat.lt_succ_self limit), tail_reverse,
    dropLast_take_succ (by omega)]

end DistinctKeys

end Back

/-! ### Runs of requests -/

section Runs

variable {reused : Bool} {limit : ℕ}

/-- A page whose cursors lead to positions of a kind. -/
structure Leads (p : Paginator Row) (limit : ℕ) (I : ℕ → Prop) (page : CursorResult Row)
    (stop : ℕ) : Prop extends IsPage p limit page stop where
  next_position : stop < p.sorted.length → I stop
  prev_position : page.prev.hasResults = true → I (stop - limit)

/-- A paginator shows the rows of another one at positions of a kind. -/
structure Behaves (p : Paginator Row) (limit : ℕ) (I : ℕ → Prop) (q : Paginator Row) : Prop where
  maxLimit : q.maxLimit = p.maxLimit
  next : ∀ i row, I i → row ∈ p.sorted[i]? →
    p.Leads limit I (q.page limit (p.nextCursor row)) (i + limit) ∧
      (q.page limit (p.nextCursor row)).prev = p.prevCursor row
  prev : ∀ i row, I i → row ∈ p.sorted[i]? → p.Leads limit I (q.page limit (p.prevCursor row)) i

theorem request_fst (q : Paginator Row) (cursor : Option (Cursor ℤ)) :
    (q.request reused limit cursor).1 =
      q.page (min limit q.maxLimit) (cursor.getD ⟨0, 0, false, false⟩) := rfl

variable {page : CursorResult Row}

theorem exists_row_of_hasResults {stop : ℕ}
    (h : p.IsPage limit page stop) (hresults : page.next.hasResults = true) :
    ∃ row ∈ p.sorted[stop]?, page.next = p.nextCursor row := by
  cases hrow : p.sorted[stop]? with
  | none => exact absurd (h.next_end hrow) (by rw [hresults]; exact Bool.noConfusion)
  | some row => exact ⟨row, rfl, h.next row hrow⟩

section Behaves

variable {K : Paginator Row → Prop} {I : ℕ → Prop}
  (hfirst : p.Leads (min limit p.maxLimit) I
    (p.page (min limit p.maxLimit) ⟨0, 0, false, false⟩) (min limit p.maxLimit))
  (hafter : K (p.request reused limit none).2)
  (hK : ∀ q, K q → p.Behaves (min limit p.maxLimit) I q ∧
    ∀ cursor, K (q.request reused limit (some cursor)).2)

include hfirst hafter hK

theorem leads_of_reached {q : Paginator Row} {cursor : Option (Cursor ℤ)}
    (h : Reached reused limit p q cursor) : K (q.request reused limit cursor).2 ∧
      ∃ stop, p.Leads (min limit p.maxLimit) I (q.request reused limit cursor).1 stop := by
  induction h with
  | first => exact ⟨hafter, _, hfirst⟩
  | next h hresults ih =>
    obtain ⟨hq, stop, hpage⟩ := ih
    obtain ⟨hbehaves, hclosed⟩ := hK _ hq
    obtain ⟨row, hrow, hnext⟩ := exists_row_of_hasResults hpage.toIsPage hresults
    refine ⟨hclosed _, stop + min limit p.maxLimit, ?_⟩
    rw [request_fst, hnext, hbehaves.maxLimit]
    have hstop := hpage.next_position (List.getElem?_eq_some_iff.mp hrow).1
    exact (hbehaves.next stop row hstop hrow).1
  | prev h hresults ih =>
    obtain ⟨hq, stop, hpage⟩ := ih
    obtain ⟨hbehaves, hclosed⟩ := hK _ hq
    obtain ⟨row, hrow, hprev⟩ := hpage.prev hresults
    refine ⟨hclosed _, stop - min limit p.maxLimit, ?_⟩
    rw [request_fst, hprev, hbehaves.maxLimit]
    exact hbehaves.prev _ row (hpage.prev_position hresults) hrow

theorem undoesNext_of_behaves : p.UndoesNext reused limit := by
  intro q cursor hreached hresults
  obtain ⟨hq, stop, hpage⟩ := leads_of_reached hfirst hafter hK hreached
  obtain ⟨hbehaves, hclosed⟩ := hK _ hq
  obtain ⟨row, hrow, hnext⟩ := exists_row_of_hasResults hpage.toIsPage hresults
  have hstop := hpage.next_position (List.getElem?_eq_some_iff.mp hrow).1
  have hfollowing : ((q.request reused limit cursor).2.request reused limit
      (some (p.nextCursor row))).1.prev = p.prevCursor row := by
    rw [request_fst, hbehaves.maxLimit]
    exact (hbehaves.next stop row hstop hrow).2
  obtain ⟨hback, -⟩ := hK _ (hclosed (p.nextCursor row))
  rw [hnext]
  dsimp only
  rw [hfollowing, request_fst, hback.maxLimit, hpage.results]
  exact (hback.prev stop row hstop hrow).results

end Behaves

/-! ### Orders of the queryset -/

def stuck (p : Paginator Row) : Paginator Row := { p with orderBy := some .descending }

theorem stuck_eq (h : p.orderBy = some .descending) : p.stuck = p := by
  unfold stuck
  rw [← h]

theorem IsPage.of_stuck {stop : ℕ}
    (h : p.stuck.IsPage limit page stop) : p.IsPage limit page stop :=
  ⟨h.results, h.next, h.next_end, h.prev⟩

theorem Leads.of_stuck {I : ℕ → Prop} {stop : ℕ}
    (h : p.stuck.Leads limit I page stop) : p.Leads limit I page stop :=
  ⟨h.toIsPage.of_stuck, h.next_position, h.prev_position⟩

theorem Behaves.of_stuck {I : ℕ → Prop} {q : Paginator Row} (h : p.stuck.Behaves limit I q) :
    p.Behaves limit I q where
  maxLimit := h.maxLimit
  next i row hi hrow := ⟨(h.next i row hi hrow).1.of_stuck, (h.next i row hi hrow).2⟩
  prev i row hi hrow := (h.prev i row hi hrow).of_stuck

theorem order_next (h : p.desc = true ∨ p.orderBy ≠ some .descending) :
    p.order false = p.direction := by
  unfold order direction isAsc
  cases hdesc : p.desc <;> rcases horder : p.orderBy with _ | ⟨_ | _⟩ <;> simp_all

theorem forward_eq (h : p.desc = true ∨ p.orderBy ≠ some .descending) : p.forward = p.sorted := by
  rw [forward, order_next h, sorted]

theorem order_prev (h : p.desc = false ∨ p.orderBy ≠ some .descending) :
    p.order true ≠ p.direction := by
  unfold order direction isAsc
  cases hdesc : p.desc <;> rcases horder : p.orderBy with _ | ⟨_ | _⟩ <;> simp_all

theorem order_stuck_next (hdesc : p.desc = false) : p.stuck.order false ≠ p.stuck.direction := by
  unfold order direction stuck
  rw [hdesc]
  exact KeyOrder.noConfusion

theorem request_stuck (p : Paginator Row) (reused : Bool) (limit : ℕ)
    (cursor : Option (Cursor ℤ)) : (p.stuck.request reused limit cursor).2 = p.stuck := by
  cases reused <;> rfl

theorem request_none (h : p.orderBy = none) (cursor : Option (Cursor ℤ)) :
    (p.request reused limit cursor).2 = p := by
  cases reused with
  | false => rfl
  | true =>
    show { p with orderBy := p.orderBy.map _ } = p
    rw [h, map_none, ← h]

theorem request_ascending (h : p.orderBy = some .ascending) (cursor : Option (Cursor ℤ)) :
    (p.request true limit cursor).2 =
      if p.isAsc (cursor.getD ⟨0, 0, false, false⟩).isPrev then p else p.stuck := by
  show { p with orderBy := p.orderBy.map _ } = _
  rw [h, map_some, order, h]
  split_ifs
  · rw [← h]
  · rfl

theorem undoesNext_of_length_le (h : p.table.ascending.length ≤ min limit p.maxLimit) :
    p.UndoesNext reused limit := by
  have hend : p.forward.length ≤ 0 + min limit p.maxLimit := by
    rw [Nat.zero_add, p.forward_perm.length_eq]
    exact h
  have hnext : (p.request reused limit none).1.next.hasResults = false :=
    next_of_end p.startsAt_zero hend
  have hprev : (p.request reused limit none).1.prev.hasResults = false := by
    rfl
  have honly : ∀ q cursor, Reached reused limit p q cursor → q = p ∧ cursor = none := by
    intro q cursor hreached
    induction hreached with
    | first => exact ⟨rfl, rfl⟩
    | next hreached hresults ih =>
      obtain ⟨rfl, rfl⟩ := ih
      exact absurd (hnext.symm.trans hresults) Bool.false_ne_true
    | prev hreached hresults ih =>
      obtain ⟨rfl, rfl⟩ := ih
      exact absurd (hprev.symm.trans hresults) Bool.false_ne_true
  intro q cursor hreached hresults
  obtain ⟨rfl, rfl⟩ := honly q cursor hreached
  exact absurd (hnext.symm.trans hresults) Bool.false_ne_true

section DistinctKeys

variable (hkeys : p.table.DistinctKeys) (hlimit : 0 < min limit p.maxLimit)

include hkeys hlimit

theorem undoesNext_of_straight (horder : p.orderBy ≠ some .descending)
    (hafter : ∀ cursor, (p.request reused limit cursor).2 = p) : p.UndoesNext reused limit := by
  have hforward := forward_eq (Or.inr horder)
  refine undoesNext_of_behaves (K := (· = p)) (I := fun _ ↦ True) ?_ (hafter none) ?_
  · exact ⟨isPage_first hkeys hforward hlimit, fun _ ↦ trivial, fun _ ↦ trivial⟩
  · rintro q rfl
    refine ⟨⟨rfl, fun i row _ hrow ↦ ?_, fun i row _ hrow ↦ ?_⟩, fun cursor ↦ hafter (some cursor)⟩
    · obtain ⟨hpage, hprev⟩ := isPage_next hkeys hforward hlimit hrow
      exact ⟨⟨hpage, fun _ ↦ trivial, fun _ ↦ trivial⟩, hprev⟩
    · have hpage := isPage_prev hkeys hrow hlimit (order_prev (Or.inr horder))
      exact ⟨hpage, fun _ ↦ trivial, fun _ ↦ trivial⟩

omit hlimit in
theorem isPage_next_last {limit : ℕ} (hlimit : 0 < limit) {i : ℕ}
    (hrow : row ∈ p.sorted[i]?) (hlast : p.sorted.length = i + 1) :
    p.IsPage limit (p.page limit (p.nextCursor row)) (i + limit) ∧
      (p.page limit (p.nextCursor row)).prev = p.prevCursor row := by
  obtain ⟨hi, hget⟩ := List.getElem?_eq_some_iff.mp hrow
  have hne := key_ne_zero hkeys (mem_of_getElem? hrow)
  have hisPrev : (p.nextCursor row).isPrev = false := rfl
  have hdrop : p.sorted.drop i = [row] := by
    rw [drop_eq_getElem_cons hi, hget, drop_eq_nil_of_le hlast.le]
  have hrows : (p.buildQueryset (p.nextCursor row).value false).drop (p.nextCursor row).offset =
      [row] := by
    show (p.buildQueryset (p.table.key row) false).drop 0 = [row]
    rw [buildQueryset_next hkeys hrow, hdrop, drop_zero]
    split_ifs <;> rfl
  have hfetch : p.fetch limit (p.nextCursor row) = [row] := by
    rw [fetch_next hisPrev, hrows, take_succ_cons, take_nil]
  have hprev : (p.page limit (p.nextCursor row)).prev = p.prevCursor row :=
    prev_eq_of_head hisPrev hne (congrArg List.head? hfetch)
  have hend : p.sorted[i + limit]? = none := List.getElem?_eq_none_iff.mpr (by omega)
  refine ⟨⟨?_, fun other hother ↦ ?_, fun _ ↦ ?_, fun _ ↦ ?_⟩, hprev⟩
  · rw [Nat.add_sub_cancel, drop_take_add, hdrop]
    exact (results_next hisPrev limit).trans (by rw [hrows])
  · rw [hend] at hother
    exact absurd hother nofun
  · have hshort : ¬ limit < [row].length := by
      rw [length_singleton]
      omega
    simp only [page, buildCursor, buildNextValues, hfetch, hisPrev, Bool.false_eq_true, if_false,
      getLast?_singleton, decide_eq_false hshort]
    split_ifs <;> rfl
  · rw [Nat.add_sub_cancel]
    exact ⟨row, hrow, hprev⟩

omit hlimit in
theorem behaves_of_one_more {limit : ℕ} (hlimit : 0 < limit)
    (hsize : p.sorted.length = limit + 1) (hback : p.order true ≠ p.direction) :
    p.Behaves limit (· = limit) p where
  maxLimit := rfl
  next i row hi hrow := by
    subst hi
    obtain ⟨hpage, hprev⟩ := isPage_next_last hkeys hlimit hrow hsize
    refine ⟨⟨hpage, fun hmore ↦ ?_, fun _ ↦ Nat.add_sub_cancel i i⟩, hprev⟩
    omega
  prev i row hi hrow := by
    subst hi
    have hfetch : p.fetch i (p.prevCursor row) = _ := fetch_prev_eq hkeys hrow hback
    refine ⟨isPage_of_fetch hkeys hrow hlimit hfetch, fun _ ↦ rfl, fun hresults ↦ ?_⟩
    exact absurd (lt_of_hasResults hrow hfetch hresults) (lt_irrefl i)

theorem undoesNext_of_ascending (hdesc : p.desc = false) (horder : p.orderBy = some .ascending)
    (hsize : p.table.ascending.length = min limit p.maxLimit + 1) : p.UndoesNext true limit := by
  have hforward : p.forward = p.sorted := forward_eq (Or.inr (by simp [horder]))
  have hlength : p.sorted.length = min limit p.maxLimit + 1 := p.length_sorted.trans hsize
  have hasc : p.isAsc false = true := by simp [isAsc, hdesc]
  refine undoesNext_of_behaves (K := fun q ↦ q = p ∨ q = p.stuck)
    (I := (· = min limit p.maxLimit)) ?_ ?_ ?_
  · refine ⟨isPage_first hkeys hforward hlimit, fun _ ↦ rfl, fun hresults ↦ ?_⟩
    exact absurd hresults Bool.false_ne_true
  · rw [request_ascending horder]
    exact Or.inl (if_pos hasc)
  · rintro q (rfl | rfl)
    · refine ⟨behaves_of_one_more hkeys hlimit hlength (order_prev (Or.inl hdesc)), fun cursor ↦ ?_⟩
      rw [request_ascending horder]
      split_ifs
      · exact Or.inl rfl
      · exact Or.inr rfl
    · have hstuck := behaves_of_one_more (p := p.stuck) hkeys hlimit hlength
        (order_prev (Or.inl hdesc))
      exact ⟨hstuck.of_stuck, fun cursor ↦ Or.inr (request_stuck p true limit (some cursor))⟩

omit hlimit in
theorem isPage_prev_first {limit : ℕ} (hrow : row ∈ p.sorted[0]?) (hlimit : 0 < limit) :
    p.IsPage limit (p.page limit (p.prevCursor row)) 0 := by
  obtain ⟨hi, hget⟩ := List.getElem?_eq_some_iff.mp hrow
  have hne := key_ne_zero hkeys (mem_of_getElem? hrow)
  have hrows : p.buildQueryset (p.table.key row) true = [row] := by
    rw [buildQueryset_prev hkeys hrow, take_succ_eq_append_getElem hi, hget, take_zero]
    split_ifs <;> rfl
  apply isPage_of_fetch hkeys hrow hlimit
  rw [fetch_prev hne, hrows, take_succ_cons, take_nil]
  simp only [head?_cons, map_some, if_true, tail_cons]
  rw [take_zero, drop_nil]
  rfl

omit hlimit in
theorem isPage_prev_typo (hrow : row ∈ p.sorted[1]?)
    (hback : p.order true = p.direction) : p.IsPage 1 (p.page 1 (p.prevCursor row)) 1 := by
  obtain ⟨hi, hget⟩ := List.getElem?_eq_some_iff.mp hrow
  have hne := key_ne_zero hkeys (mem_of_getElem? hrow)
  have hfirst : 0 < p.sorted.length := by omega
  have htake : p.sorted.take 2 = [p.sorted[0], row] := by
    rw [take_succ_eq_append_getElem hi, take_succ_eq_append_getElem hfirst, hget]
    rfl
  have hfetch : p.fetch 1 (p.prevCursor row) = [row, p.sorted[0]] := by
    rw [fetch_prev_typo hkeys hrow hback Nat.one_pos le_rfl, htake]
    rfl
  refine ⟨?_, fun other hother ↦ ?_, fun hend ↦ ?_, fun _ ↦ ?_⟩
  · rw [results_prev_typo hkeys hrow hback Nat.one_pos le_rfl, take_succ_eq_append_getElem hfirst]
    rfl
  · rw [mem_unique hother hrow]
    exact next_of_prev hne 1
  · rw [hend] at hrow
    exact absurd hrow nofun
  · refine ⟨p.sorted[0], getElem?_eq_getElem hfirst, prev_of_prev hfetch ?_ ?_ nofun⟩
    · exact Nat.lt_succ_self 1
    · have hlt := pairwise_iff_getElem.mp (rank_lt_of_sorted hkeys) 0 1 hfirst hi Nat.one_pos
      intro hsame
      rw [hget, hsame] at hlt
      exact lt_irrefl _ hlt

omit hlimit in
theorem behaves_of_two (hdesc : p.desc = true) (hback : p.order true = p.direction)
    (hsize : p.sorted.length ≤ 2) : p.Behaves 1 (fun _ ↦ True) p where
  maxLimit := rfl
  next i row _ hrow := by
    obtain ⟨hpage, hprev⟩ := isPage_next hkeys (forward_eq (Or.inl hdesc)) Nat.one_pos hrow
    exact ⟨⟨hpage, fun _ ↦ trivial, fun _ ↦ trivial⟩, hprev⟩
  prev i row _ hrow := by
    refine ⟨?_, fun _ ↦ trivial, fun _ ↦ trivial⟩
    have hi : i < p.sorted.length := (List.getElem?_eq_some_iff.mp hrow).1
    match i, hi with
    | 0, _ => exact isPage_prev_first hkeys hrow Nat.one_pos
    | 1, _ => exact isPage_prev_typo hkeys hrow hback
    | i + 2, hi => omega

omit hkeys hlimit in
theorem order_stuck (hdesc : p.desc = true) : p.stuck.order true = p.stuck.direction := by
  unfold order direction stuck
  rw [hdesc]
  rfl

theorem undoesNext_of_two (hdesc : p.desc = true) (hone : min limit p.maxLimit = 1)
    (hafter : (p.request reused limit none).2 = p.stuck)
    (hsize : p.table.ascending.length ≤ 2) : p.UndoesNext reused limit := by
  refine undoesNext_of_behaves (K := (· = p.stuck)) (I := fun _ ↦ True) ?_ hafter ?_
  · have hpage := isPage_first hkeys (forward_eq (Or.inl hdesc)) hlimit
    exact ⟨hpage, fun _ ↦ trivial, fun _ ↦ trivial⟩
  · rintro q rfl
    have hstuck := behaves_of_two (p := p.stuck) hkeys hdesc (order_stuck hdesc)
      (p.length_sorted.trans_le hsize)
    rw [hone]
    exact ⟨hstuck.of_stuck, fun cursor ↦ request_stuck p reused limit (some cursor)⟩

/-! ### Rows that come in the wrong order -/

omit hlimit in
theorem notMem_sorted_drop {i : ℕ} (hrow : row ∈ p.sorted.take i) : row ∉ p.sorted.drop i :=
  fun hmem ↦ lt_irrefl _ (rel_of_mem_take_of_mem_drop (rank_lt_of_sorted hkeys) hrow hmem)

omit hlimit in
theorem length_le_one_of_reverse_eq {count : ℕ}
    (h : (p.sorted.take count).reverse = p.sorted.take count) :
    (p.sorted.take count).length ≤ 1 := by
  have hsorted := (rank_lt_of_sorted hkeys).sublist (take_sublist count _)
  have hreverse := hsorted
  rw [← h, pairwise_reverse] at hreverse
  by_contra hlong
  have hlt := pairwise_iff_getElem.mp hsorted 0 1 (by omega) (by omega) Nat.one_pos
  have hgt := pairwise_iff_getElem.mp hreverse 0 1 (by omega) (by omega) Nat.one_pos
  exact hlt.asymm hgt

theorem reverse_eq_of_undoesNext (hdesc : p.desc = true) {q : Paginator Row}
    {cursor : Option (Cursor ℤ)} {stop : ℕ} (hreached : Reached reused limit p q cursor)
    (hpage : p.IsPage (min limit p.maxLimit) (q.request reused limit cursor).1 stop)
    (hafter : (q.request reused limit cursor).2 = p.stuck) (hstop : stop < p.sorted.length)
    (hle : min limit p.maxLimit ≤ stop) (h : p.UndoesNext reused limit) :
    (p.sorted.take (min limit p.maxLimit)).reverse =
      (p.sorted.take stop).drop (stop - min limit p.maxLimit) := by
  have hrow : p.sorted[stop] ∈ p.sorted[stop]? := getElem?_eq_getElem hstop
  have hnext := hpage.next _ hrow
  have hundoes := h q cursor hreached (by rw [hnext]; rfl)
  have hprev : (p.stuck.request reused limit (some (p.nextCursor p.sorted[stop]))).1.prev =
      p.prevCursor p.sorted[stop] :=
    (isPage_next (p := p.stuck) hkeys (forward_eq (Or.inl hdesc)) hlimit hrow).2
  rw [hnext, hafter] at hundoes
  dsimp only at hundoes
  rw [hprev, request_stuck, hpage.results] at hundoes
  rw [← hundoes]
  exact (results_prev_typo (p := p.stuck) hkeys hrow (order_stuck hdesc) (by omega) hle).symm

theorem length_le_of_descending (hdesc : p.desc = true)
    (hafter : (p.request reused limit none).2 = p.stuck) (h : p.UndoesNext reused limit) :
    p.table.ascending.length ≤ min limit p.maxLimit ∨
      min limit p.maxLimit = 1 ∧ p.table.ascending.length ≤ 2 := by
  have hforward := forward_eq (p := p) (Or.inl hdesc)
  have hfirst := isPage_first hkeys hforward hlimit
  rw [← length_sorted]
  by_contra hsize
  rw [not_or, not_and] at hsize
  obtain ⟨hmore, hthird⟩ := hsize
  rw [Nat.not_le] at hmore
  have hreverse := reverse_eq_of_undoesNext hkeys hlimit hdesc Reached.first hfirst hafter hmore
    le_rfl h
  rw [Nat.sub_self, drop_zero] at hreverse
  have hone := length_le_one_of_reverse_eq hkeys hreverse
  rw [length_take_of_le hmore.le] at hone
  -- The second page, whose next page is the third.
  have hrow : p.sorted[min limit p.maxLimit] ∈ p.sorted[min limit p.maxLimit]? :=
    getElem?_eq_getElem hmore
  have hnext : (p.request reused limit none).1.next = p.nextCursor p.sorted[min limit p.maxLimit] :=
    hfirst.next _ hrow
  have hnone : Reached reused limit p p none := Reached.first
  have hreached := hnone.next (by rw [hnext]; rfl)
  rw [hnext, hafter] at hreached
  have hsecond := (isPage_next (p := p.stuck) hkeys (forward_eq (Or.inl hdesc)) hlimit hrow).1
  have hagain := reverse_eq_of_undoesNext hkeys hlimit hdesc hreached hsecond.of_stuck
    (request_stuck p reused limit _) (by omega) (by omega) h
  have hzero : p.sorted[0] ∈ p.sorted.take (min limit p.maxLimit) :=
    mem_take_iff_getElem.mpr ⟨0, by omega, rfl⟩
  have hmem : p.sorted[0] ∈ (p.sorted.take (min limit p.maxLimit)).reverse :=
    mem_reverse.mpr hzero
  rw [hagain, Nat.add_sub_cancel, drop_take_add] at hmem
  exact notMem_sorted_drop hkeys hzero (mem_of_mem_take hmem)

omit hlimit in
theorem fetch_next_typo (hdesc : p.desc = false) {limit i : ℕ} {cursor : Cursor ℤ}
    (hrow : row ∈ p.sorted[i]?) (hisPrev : cursor.isPrev = false)
    (hvalue : cursor.value = p.table.key row) : p.stuck.fetch limit cursor =
      ((p.sorted.drop i).reverse.drop cursor.offset).take (limit + 1) := by
  rw [fetch_next hisPrev, hvalue]
  show ((p.stuck.buildQueryset (p.stuck.table.key row) false).drop cursor.offset).take _ = _
  rw [buildQueryset_next (p := p.stuck) hkeys hrow, if_neg (order_stuck_next hdesc)]
  rfl

theorem length_le_of_ascending (hdesc : p.desc = false) (horder : p.orderBy = some .ascending)
    (h : p.UndoesNext true limit) : p.table.ascending.length ≤ min limit p.maxLimit + 1 := by
  have hforward : p.forward = p.sorted := forward_eq (Or.inr (by simp [horder]))
  have hfirst := isPage_first hkeys hforward hlimit
  rw [← length_sorted]
  by_contra hsize
  have hrow : p.sorted[min limit p.maxLimit] ∈ p.sorted[min limit p.maxLimit]? :=
    getElem?_eq_getElem (by omega)
  have hlast : p.sorted[p.sorted.length - 1] ∈ p.sorted[p.sorted.length - 1]? :=
    getElem?_eq_getElem (by omega)
  generalize p.sorted[min limit p.maxLimit] = row at hrow
  generalize p.sorted[p.sorted.length - 1] = last at hlast
  -- To the second page and back to the first, which leaves the queryset in descending order.
  have hon : (p.request true limit none).2 = p := by
    rw [request_ascending horder]
    exact if_pos (by simp [isAsc, hdesc])
  have hon' : (p.request true limit (some (p.nextCursor row))).2 = p := by
    rw [request_ascending horder]
    exact if_pos (by simp [isAsc, hdesc, nextCursor])
  have hback : (p.request true limit (some (p.prevCursor row))).2 = p.stuck := by
    rw [request_ascending horder]
    exact if_neg (by simp [isAsc, hdesc, prevCursor])
  have hnext : (p.request true limit none).1.next = p.nextCursor row := hfirst.next row hrow
  have hprev : (p.request true limit (some (p.nextCursor row))).1.prev = p.prevCursor row :=
    (isPage_next hkeys hforward hlimit hrow).2
  have hnone : Reached true limit p p none := Reached.first
  have hsecond := hnone.next (by rw [hnext]; rfl)
  rw [hnext, hon] at hsecond
  have hagain := hsecond.prev (by rw [hprev]; rfl)
  rw [hprev, hon'] at hagain
  have hpage : p.IsPage (min limit p.maxLimit) (p.request true limit (some (p.prevCursor row))).1
      (min limit p.maxLimit) :=
    isPage_prev hkeys hrow hlimit (order_prev (Or.inl hdesc))
  have hundoes := h p _ hagain (by rw [hpage.next row hrow]; rfl)
  -- The next page now has the last row first.
  have hfetch : (p.stuck.fetch (min limit p.maxLimit) (p.nextCursor row)).head? = some last := by
    rw [fetch_next_typo hkeys hdesc hrow rfl rfl]
    show (((p.sorted.drop (min limit p.maxLimit)).reverse.drop 0).take _).head? = some last
    rw [drop_zero, head?_take, if_neg (Nat.succ_ne_zero _), head?_reverse,
      getLast?_drop, if_neg (by omega), getLast?_eq_getElem?]
    exact hlast
  have hthird : (p.stuck.request true limit (some (p.nextCursor row))).1.prev = p.prevCursor last :=
    prev_eq_of_head (p := p.stuck) rfl (key_ne_zero hkeys (mem_of_getElem? hrow)) hfetch
  have hresults := (isPage_prev (p := p.stuck) hkeys hlast hlimit
    (order_prev (Or.inl hdesc))).results
  rw [hpage.next row hrow, hback] at hundoes
  dsimp only at hundoes
  rw [hthird, request_stuck, hpage.results, Nat.sub_self, drop_zero] at hundoes
  -- The first row is on the first page, but not before the last row of all.
  have hzero : p.sorted[0] ∈ p.sorted.take (min limit p.maxLimit) :=
    mem_take_iff_getElem.mpr ⟨0, by omega, rfl⟩
  rw [← hundoes] at hzero
  have hmem : p.sorted[0] ∈ (p.sorted.take (p.sorted.length - 1)).drop
      (p.sorted.length - 1 - min limit p.maxLimit) := hresults ▸ hzero
  rw [drop_take] at hmem
  refine notMem_sorted_drop hkeys (mem_take_iff_getElem.mpr ⟨0, ?_, rfl⟩)
    (mem_of_mem_take hmem)
  omega

omit hlimit in
theorem fetch_first_typo (hdesc : p.desc = false) {limit i : ℕ}
    (hrow : row ∈ p.sorted[i]?) (hsize : p.sorted.length = i + limit + 1) :
    p.stuck.fetch limit ⟨0, 0, false, false⟩ = (p.sorted.drop (i + 1)).reverse ++ [row] := by
  obtain ⟨hi, hget⟩ := List.getElem?_eq_some_iff.mp hrow
  have hforward : p.stuck.forward = p.sorted.reverse :=
    (rows_eq (p := p.stuck) hkeys false).trans (if_neg (order_stuck_next hdesc))
  have hlength : (p.sorted.drop i).reverse.length = limit + 1 := by
    rw [length_reverse, length_drop]
    omega
  rw [fetch_next rfl, buildQueryset_zero, hforward, drop_zero,
    ← take_append_drop i p.sorted, reverse_append, take_left' hlength,
    take_append_drop, drop_eq_getElem_cons hi, reverse_cons, hget]

theorem next_first_typo (hdesc : p.desc = false) {i : ℕ}
    (hrow : row ∈ p.sorted[i]?) (hsize : p.sorted.length = i + min limit p.maxLimit + 1) :
    (p.stuck.request reused limit none).1.next =
      ⟨p.table.key row, min limit p.maxLimit, false, true⟩ := by
  have hbehind : ∀ other ∈ p.sorted.drop (i + 1), p.table.key row < p.table.key other := by
    intro other hother
    have hlt := rel_of_getElem_of_mem_drop (rank_lt_of_sorted hkeys) hrow hother
    simpa [rank, hdesc] using hlt
  have hlength : (p.sorted.drop (i + 1)).length = min limit p.maxLimit := by
    rw [length_drop]
    omega
  have hnonempty : (p.sorted.drop (i + 1)).reverse ≠ [] := by
    apply ne_nil_of_length_pos
    rw [length_reverse, hlength]
    exact hlimit
  obtain ⟨first, hfirst⟩ := Option.ne_none_iff_exists'.mp
    (head?_eq_none_iff.not.mpr hnonempty)
  have hkey : p.table.key row ≠ p.table.key first :=
    (hbehind first (mem_reverse.mp (mem_of_head? hfirst))).ne
  have hhead : ((p.sorted.drop (i + 1)).reverse ++ [row]).head? = some first := by
    rw [head?_append, hfirst, some_or]
  have hlong : min limit p.maxLimit < ((p.sorted.drop (i + 1)).reverse ++ [row]).length := by
    rw [length_append, length_reverse, hlength]
    exact Nat.lt_succ_self _
  have hpassed : (p.sorted.drop (i + 1)).takeWhile
      (fun result ↦ decide (p.table.key row ≤ p.table.key result)) = p.sorted.drop (i + 1) := by
    rw [takeWhile_eq_self_iff]
    exact fun other hother ↦ decide_eq_true (hbehind other hother).le
  have hvalues : buildNextValues p.table.key (min limit p.maxLimit) false ⟨0, 0, false, false⟩
      ((p.sorted.drop (i + 1)).reverse ++ [row]) =
        (p.table.key row, min limit p.maxLimit, true) := by
    simp only [buildNextValues, if_true, hhead, map_some, getD_some, Bool.false_eq_true, if_false,
      getLast?_concat, decide_eq_true hlong, if_neg hkey, reverse_append, reverse_singleton,
      singleton_append, tail_cons, reverse_reverse, hpassed, hlength]
  show (p.stuck.page (min limit p.maxLimit) ⟨0, 0, false, false⟩).next = _
  rw [page, fetch_first_typo hkeys hdesc hrow hsize]
  show (buildCursor p.table.key _ p.desc _ _).next = _
  rw [hdesc, buildCursor, hvalues]

theorem length_le_of_typo (hdesc : p.desc = false) (horder : p.orderBy = some .descending)
    (h : p.UndoesNext reused limit) : p.table.ascending.length ≤ min limit p.maxLimit := by
  rw [← length_sorted]
  by_contra hsize
  obtain ⟨i, hi⟩ : ∃ i, p.sorted.length = i + min limit p.maxLimit + 1 :=
    ⟨p.sorted.length - min limit p.maxLimit - 1, by omega⟩
  have hrow : p.sorted[i] ∈ p.sorted[i]? := getElem?_eq_getElem (by omega)
  generalize p.sorted[i] = row at hrow
  have hstuck := stuck_eq horder
  have hafter (cursor : Option (Cursor ℤ)) : (p.request reused limit cursor).2 = p := by
    have hrequest := request_stuck p reused limit cursor
    rwa [hstuck] at hrequest
  have hlength : (p.sorted.drop (i + 1)).reverse.length = min limit p.maxLimit := by
    rw [length_reverse, length_drop]
    omega
  have hbound : i < p.sorted.length := by omega
  have hdrop : p.sorted.drop i = row :: p.sorted.drop (i + 1) := by
    rw [drop_eq_getElem_cons hbound, (List.getElem?_eq_some_iff.mp hrow).2]
  have hnext : (p.stuck.request reused limit none).1.next = _ :=
    next_first_typo hkeys hlimit hdesc hrow hi
  have hresults : (p.stuck.page (min limit p.maxLimit) ⟨0, 0, false, false⟩).results =
      (p.sorted.drop (i + 1)).reverse := by
    rw [results_eq_take rfl, fetch_first_typo hkeys hdesc hrow hi, take_left' hlength]
  have hhead : (p.stuck.fetch (min limit p.maxLimit)
      ⟨p.table.key row, min limit p.maxLimit, false, true⟩).head? = some row := by
    rw [fetch_next_typo hkeys hdesc hrow rfl rfl, hdrop, reverse_cons, drop_left' hlength]
    rfl
  rw [hstuck] at hnext hresults hhead
  have hprev : (p.request reused limit
      (some ⟨p.table.key row, min limit p.maxLimit, false, true⟩)).1.prev = p.prevCursor row :=
    prev_eq_of_head rfl (key_ne_zero hkeys (mem_of_getElem? hrow)) hhead
  have hback := (isPage_prev hkeys hrow hlimit (order_prev (Or.inl hdesc))).results
  have hundoes := h p none Reached.first (by rw [hnext])
  rw [hnext, hafter] at hundoes
  dsimp only at hundoes
  rw [hprev, hafter] at hundoes
  -- The rows of the first page come behind the row, and those of the last request before it.
  have hsame : (p.sorted.take i).drop (i - min limit p.maxLimit) =
      (p.sorted.drop (i + 1)).reverse := hback.symm.trans (hundoes.trans hresults)
  obtain ⟨other, hother⟩ := exists_mem_of_length_pos (hlength ▸ hlimit)
  have hbefore : other ∈ p.sorted.take i := mem_of_mem_drop (hsame ▸ hother)
  refine notMem_sorted_drop hkeys hbefore ?_
  rw [hdrop]
  exact mem_cons_of_mem row (mem_reverse.mp hother)

theorem undoesNext_iff_of_descending (hdesc : p.desc = true)
    (hafter : (p.request reused limit none).2 = p.stuck) : p.UndoesNext reused limit ↔
      p.table.ascending.length ≤ min limit p.maxLimit ∨
        min limit p.maxLimit = 1 ∧ p.table.ascending.length ≤ 2 := by
  refine ⟨length_le_of_descending hkeys hlimit hdesc hafter, ?_⟩
  rintro (hsize | ⟨hone, hsize⟩)
  · exact undoesNext_of_length_le hsize
  · exact undoesNext_of_two hkeys hlimit hdesc hone hafter hsize

theorem undoesNext_iff_of_ascending (hdesc : p.desc = false)
    (horder : p.orderBy = some .ascending) : p.UndoesNext true limit ↔
      p.table.ascending.length ≤ min limit p.maxLimit + 1 := by
  refine ⟨length_le_of_ascending hkeys hlimit hdesc horder, fun hsize ↦ ?_⟩
  by_cases hle : p.table.ascending.length ≤ min limit p.maxLimit
  · exact undoesNext_of_length_le hle
  · exact undoesNext_of_ascending hkeys hlimit hdesc horder (by omega)

end DistinctKeys

end Runs

/-- The previous cursor of the next page gives the page, on every page that comes up, if and only if
the order of the queryset allows it or there are too few rows for that to matter. Assumes: different
keys that are not 0. -/
theorem undoesNext_iff (p : Paginator Row) (hkeys : p.table.DistinctKeys) (reused : Bool)
    {limit : ℕ} (hlimit : 1 ≤ limit) (hmax : 1 ≤ p.maxLimit) :
    p.UndoesNext reused limit ↔ p.Undoable reused limit := by
  have hmin : 0 < min limit p.maxLimit := lt_min hlimit hmax
  unfold Undoable
  cases horder : p.orderBy with
  | none =>
    refine iff_of_true ?_ trivial
    exact undoesNext_of_straight hkeys hmin (by simp [horder]) (request_none horder)
  | some order =>
    cases order with
    | ascending =>
      cases reused with
      | false =>
        refine iff_of_true ?_ fun h ↦ absurd h Bool.false_ne_true
        exact undoesNext_of_straight hkeys hmin (by simp [horder]) fun _ ↦ rfl
      | true =>
        cases hdesc : p.desc with
        | false =>
          exact (undoesNext_iff_of_ascending hkeys hmin hdesc horder).trans
            ⟨fun h _ ↦ h, fun h ↦ h rfl⟩
        | true =>
          have hafter : (p.request true limit none).2 = p.stuck := by
            rw [request_ascending horder]
            exact if_neg (by simp [isAsc, hdesc])
          exact (undoesNext_iff_of_descending hkeys hmin hdesc hafter).trans
            ⟨fun h _ ↦ h, fun h ↦ h rfl⟩
    | descending =>
      have hafter : (p.request reused limit none).2 = p.stuck := by
        have hstuck := request_stuck p reused limit none
        rwa [stuck_eq horder] at hstuck ⊢
      cases hdesc : p.desc with
      | false =>
        constructor
        · exact fun h ↦ Or.inl (length_le_of_typo hkeys hmin hdesc horder h)
        · rintro (hsize | ⟨hfalse, -⟩)
          · exact undoesNext_of_length_le hsize
          · exact absurd hfalse Bool.false_ne_true
      | true =>
        rw [undoesNext_iff_of_descending hkeys hmin hdesc hafter]
        exact or_congr_right ⟨fun h ↦ ⟨rfl, h⟩, And.right⟩

/-- Three rows for a paginator that descends, with the queryset already in descending order. -/
def descendingKeys : Paginator ℤ where
  table :=
    { key := id
      ascending := [1, 2, 3]
      descending := [3, 2, 1]
      nodup := by decide
      perm := (reverse_perm [1, 2, 3])
      ascending_sorted := by decide
      descending_sorted := by decide }
  orderBy := some .descending
  desc := true
  maxLimit := 100

theorem distinctKeys_descendingKeys : descendingKeys.table.DistinctKeys where
  key_ne := by decide
  ne_zero := by decide

theorem undoesNext_iff_descendingKeys :
    descendingKeys.UndoesNext false 3 ↔ descendingKeys.Undoable false 3 :=
  undoesNext_iff descendingKeys distinctKeys_descendingKeys false (by decide) (by decide)

/-- From the second page back to the first, its rows come the other way round. -/
theorem descendingKeys_not_undoesNext : ¬ descendingKeys.UndoesNext false 2 := by
  intro h
  exact absurd (h descendingKeys none Reached.first rfl) (by decide)

end Paginator

end Sentry.Pagination
