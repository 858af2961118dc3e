import Sentry.Pagination.Paginator

/-!
# Visiting all rows

Following the next cursors from no cursor. The cursor of a position has the key of the row there and
the number of rows before it with the same key (`cursorAt`), and its page starts there unless the
key is 0 and the rows do not start with 0 (`startsAt_cursorAt`, `exists_mem_take_of_visit`). So all
rows are visited once if and only if no page after the first starts with key 0, or the first one
does, and the queryset has the order of the paginator (`visitsAll_iff`).
-/

namespace Sentry.Pagination

open Library List Option
open Search (Cursor)

variable {Row : Type*}

namespace Paginator

def visit (limit : ℕ) : ℕ → Paginator Row → Option (Cursor ℤ) → Option (List (List Row))
  | 0, _, _ => none
  | fuel + 1, p, cursor =>
    let result := p.getResult limit cursor
    if result.1.next.hasResults then
      (visit limit fuel result.2 (some result.1.next)).map (result.1.results :: ·)
    else some [result.1.results]

def Before (p : Paginator Row) (a b : Row) : Prop :=
  if p.desc then p.table.key b ≤ p.table.key a else p.table.key a ≤ p.table.key b

/-- The visit ends, with every row once and in sort order. -/
def VisitsAll (p : Paginator Row) (limit : ℕ) : Prop :=
  ∃ fuel pages, p.visit limit fuel none = some pages ∧
    pages.flatten.Perm p.table.ascending ∧ pages.flatten.Pairwise p.Before

def forward (p : Paginator Row) : List Row := p.table.rows (p.order false)

/-- The rows come in sort order, and no page after the first one starts with key 0 unless the first
one does. -/
def Visitable (p : Paginator Row) (limit : ℕ) : Prop :=
  (p.desc = false → p.orderBy = some .descending →
    ∀ a ∈ p.table.ascending, ∀ b ∈ p.table.ascending, p.table.key a = p.table.key b) ∧
  ∀ k, ∀ row ∈ p.forward[k * limit]?, p.table.key row = 0 →
    ∀ first ∈ p.forward.head?, p.table.key first = 0

/-! ### The order of the rows -/

def rank (p : Paginator Row) (value : ℤ) : ℤ := if p.desc then -value else value

variable {p : Paginator Row}

theorem rank_inj {v w : ℤ} : p.rank v = p.rank w ↔ v = w := by
  unfold rank
  split_ifs <;> omega

theorem before_iff {a b : Row} : p.Before a b ↔
    p.rank (p.table.key a) ≤ p.rank (p.table.key b) := by
  unfold Before rank
  split_ifs <;> omega

/-- The rows of the queryset are in sort order. -/
def Sorted (p : Paginator Row) : Prop :=
  p.forward.Pairwise fun a b ↦ p.rank (p.table.key a) ≤ p.rank (p.table.key b)

theorem forward_perm (p : Paginator Row) : p.forward.Perm p.table.ascending := by
  unfold forward
  cases p.order false with
  | ascending => exact List.Perm.refl _
  | descending => exact p.table.perm

theorem nodup_forward (p : Paginator Row) : p.forward.Nodup :=
  p.forward_perm.nodup_iff.mpr p.table.nodup

theorem order_eq (h : ¬ (p.desc = false ∧ p.orderBy = some .descending)) :
    p.order false = if p.desc then .descending else .ascending := by
  unfold order isAsc
  cases hdesc : p.desc <;> rcases horder : p.orderBy with _ | ⟨_ | _⟩ <;> simp_all

theorem sorted_of_order (h : ¬ (p.desc = false ∧ p.orderBy = some .descending)) : p.Sorted := by
  unfold Sorted forward
  rw [order_eq h]
  unfold rank
  cases p.desc with
  | true => exact p.table.descending_sorted.imp fun h ↦ Int.neg_le_neg h
  | false => exact p.table.ascending_sorted

theorem forward_of_typo (h : p.desc = false ∧ p.orderBy = some .descending) :
    p.forward = p.table.descending := by
  unfold forward order
  rw [h.2]
  rfl

/-! ### The queryset -/

def equalBefore (p : Paginator Row) (q : ℕ) (value : ℤ) : ℕ :=
  (p.forward.take q).countP fun row ↦ p.table.key row = value

def cursorAt (p : Paginator Row) (q : ℕ) (row : Row) : Cursor ℤ :=
  ⟨p.table.key row, p.equalBefore q (p.table.key row), false, true⟩

theorem buildQueryset_zero (p : Paginator Row) : p.buildQueryset 0 false = p.forward := by
  unfold buildQueryset
  simp only [if_true, filter_true]
  rfl

theorem buildQueryset_of_ne_zero {value : ℤ} (hvalue : value ≠ 0) :
    p.buildQueryset value false =
      p.forward.filter fun row ↦ decide (p.rank value ≤ p.rank (p.table.key row)) := by
  unfold buildQueryset forward
  congr 1
  funext row
  rw [if_neg hvalue]
  unfold isAsc rank
  cases p.desc <;> simp

section Position

variable {q : ℕ} {row : Row} (hsorted : p.Sorted) (hrow : row ∈ p.forward[q]?)

include hsorted hrow

theorem rank_le_of_mem_take {other : Row} (hother : other ∈ p.forward.take q) :
    p.rank (p.table.key other) ≤ p.rank (p.table.key row) := by
  obtain ⟨hq, hget⟩ := List.getElem?_eq_some_iff.mp hrow
  refine rel_of_mem_take_of_mem_drop hsorted hother ?_
  exact mem_drop_iff_getElem.mpr ⟨0, by simpa using hq, by simpa using hget⟩

theorem rank_le_of_mem_drop {other : Row} (hother : other ∈ p.forward.drop q) :
    p.rank (p.table.key row) ≤ p.rank (p.table.key other) := by
  obtain ⟨hq, rfl⟩ := List.getElem?_eq_some_iff.mp hrow
  rw [drop_eq_getElem_cons hq] at hother
  rcases mem_cons.mp hother with rfl | hother
  · exact le_rfl
  · refine rel_of_mem_take_of_mem_drop hsorted (n := q + 1) ?_ hother
    rw [take_succ_eq_append_getElem hq]
    exact mem_append_right _ (mem_singleton_self _)

theorem filter_drop_equalBefore :
    (p.forward.filter fun other ↦
      decide (p.rank (p.table.key row) ≤ p.rank (p.table.key other))).drop
        (p.equalBefore q (p.table.key row)) = p.forward.drop q := by
  have hbehind : p.forward.Pairwise fun a b ↦
      decide (p.rank (p.table.key row) ≤ p.rank (p.table.key a)) = true →
        decide (p.rank (p.table.key row) ≤ p.rank (p.table.key b)) = true := by
    refine hsorted.imp fun hab ha ↦ ?_
    exact decide_eq_true ((of_decide_eq_true ha).trans hab)
  have hlength : (p.forward.take q).length = q :=
    length_take_of_le (List.getElem?_eq_some_iff.mp hrow).1.le
  have hnone : (p.forward.drop q).countP
      (fun other ↦ !decide (p.rank (p.table.key row) ≤ p.rank (p.table.key other))) = 0 := by
    rw [countP_eq_zero]
    intro other hother
    simpa using rank_le_of_mem_drop hsorted hrow hother
  have hequal : p.equalBefore q (p.table.key row) = (p.forward.take q).countP
      fun other ↦ decide (p.rank (p.table.key row) ≤ p.rank (p.table.key other)) := by
    refine countP_congr fun other hother ↦ ?_
    rw [decide_eq_true_eq, decide_eq_true_eq, ← rank_inj (p := p)]
    have hle := rank_le_of_mem_take hsorted hrow hother
    exact ⟨fun h ↦ h.ge, fun h ↦ le_antisymm hle h⟩
  have hcount : (p.forward.countP fun other ↦
      !decide (p.rank (p.table.key row) ≤ p.rank (p.table.key other))) +
        p.equalBefore q (p.table.key row) = q := by
    have hsplit := length_eq_countP_add_countP
      (fun other ↦ decide (p.rank (p.table.key row) ≤ p.rank (p.table.key other)))
      (l := p.forward.take q)
    simp only [decide_eq_true_eq, decide_not, hlength] at hsplit
    rw [← take_append_drop q p.forward, countP_append, hnone, Nat.add_zero, hequal,
      Nat.add_comm, ← hsplit]
  rw [filter_eq_drop_countP _ hbehind, drop_drop, hcount]

theorem equalBefore_eq_of_head {first : Row} (hfirst : first ∈ p.forward.head?)
    (hkey : p.table.key first = p.table.key row) : p.equalBefore q (p.table.key row) = q := by
  have hlength : (p.forward.take q).length = q :=
    length_take_of_le (List.getElem?_eq_some_iff.mp hrow).1.le
  have hzero : first ∈ p.forward[0]? := by rwa [← head?_eq_getElem?]
  have hall : (p.forward.take q).countP (fun other ↦ p.table.key other = p.table.key row) =
      (p.forward.take q).length := by
    rw [countP_eq_length]
    intro other hother
    have hle := rank_le_of_mem_take hsorted hrow hother
    have hge := rank_le_of_mem_drop hsorted hzero (mem_of_mem_take hother)
    rw [decide_eq_true_eq, ← rank_inj (p := p)]
    exact le_antisymm hle (hkey ▸ hge)
  rw [equalBefore, hall, hlength]

end Position

/-! ### Where a page starts -/

/-- The page of a cursor starts at a position; the cursor has the key of the row there, unless it
has none, and its offset is the number of rows before with that key. -/
structure StartsAt (p : Paginator Row) (cursor : Cursor ℤ) (q : ℕ) : Prop where
  isPrev : cursor.isPrev = false
  queryset : (p.buildQueryset cursor.value false).drop cursor.offset = p.forward.drop q
  value : ∀ row ∈ p.forward[q]?, cursor.value ≠ 0 → cursor.value = p.table.key row
  offset : ∀ row ∈ p.forward[q]?, cursor.offset = p.equalBefore q (p.table.key row)

theorem startsAt_zero (p : Paginator Row) : p.StartsAt ⟨0, 0, false, false⟩ 0 where
  isPrev := rfl
  queryset := by rw [buildQueryset_zero]
  value _ _ h := absurd rfl h
  offset _ _ := rfl

theorem startsAt_cursorAt (hsorted : p.Sorted) {q : ℕ} {row : Row} (hrow : row ∈ p.forward[q]?)
    (hzero : p.table.key row = 0 → ∀ first ∈ p.forward.head?, p.table.key first = 0) :
    p.StartsAt (p.cursorAt q row) q where
  isPrev := rfl
  queryset := by
    by_cases hkey : p.table.key row = 0
    · cases hfirst : p.forward.head? with
      | none =>
        rw [head?_eq_none_iff.mp hfirst] at hrow
        exact absurd hrow (by simp)
      | some first =>
        have hsame : p.table.key first = p.table.key row :=
          (hzero hkey first hfirst).trans hkey.symm
        rw [cursorAt, equalBefore_eq_of_head hsorted hrow hfirst hsame, hkey, buildQueryset_zero]
    · rw [cursorAt, buildQueryset_of_ne_zero hkey, filter_drop_equalBefore hsorted hrow]
  value other hother _ := by rw [mem_unique hother hrow, cursorAt]
  offset other hother := by rw [mem_unique hother hrow, cursorAt]

/-! ### The page and the next cursor -/

section Page

variable {limit : ℕ} {cursor : Cursor ℤ} {q : ℕ}

theorem fetch_next (h : cursor.isPrev = false) (limit : ℕ) : p.fetch limit cursor =
    ((p.buildQueryset cursor.value false).drop cursor.offset).take (limit + 1) := by
  have hstop : cursor.offset + limit + 1 - cursor.offset = limit + 1 := by omega
  simp only [fetch, h, Bool.false_and, Bool.false_eq_true, if_false, drop_take, hstop]

theorem results_next (h : cursor.isPrev = false) (limit : ℕ) :
    (buildCursor p.table.key limit p.desc cursor (p.fetch limit cursor)).results =
      ((p.buildQueryset cursor.value false).drop cursor.offset).take limit := by
  simp only [buildCursor, h, fetch_next h, Bool.false_and, Bool.false_eq_true, if_false,
    Bool.not_false, if_true, take_take]
  rw [min_eq_left (Nat.le_succ limit)]

theorem equalBefore_add (q count : ℕ) (value : ℤ) :
    p.equalBefore (q + count) value = p.equalBefore q value +
      ((p.forward.drop q).take count).countP fun row ↦ p.table.key row = value := by
  rw [equalBefore, take_add, countP_append]
  rfl

theorem length_passed {page : List Row} (value : ℤ)
    (hpage : page.Pairwise fun a b ↦ p.rank (p.table.key a) ≤ p.rank (p.table.key b))
    (hupper : ∀ other ∈ page, p.rank (p.table.key other) ≤ p.rank value) :
    (page.reverse.takeWhile fun result ↦
      if p.desc then decide (p.table.key result ≤ value)
      else decide (value ≤ p.table.key result)).length =
        page.countP fun other ↦ p.table.key other = value := by
  have hpassed : (fun result ↦ if p.desc then decide (p.table.key result ≤ value)
      else decide (value ≤ p.table.key result)) =
        fun result ↦ decide (p.rank value ≤ p.rank (p.table.key result)) := by
    funext result
    unfold rank
    cases p.desc <;> simp
  have hreverse : page.reverse.Pairwise fun a b ↦
      decide (p.rank value ≤ p.rank (p.table.key b)) = true →
        decide (p.rank value ≤ p.rank (p.table.key a)) = true := by
    rw [pairwise_reverse]
    refine hpage.imp fun hab ha ↦ ?_
    exact decide_eq_true ((of_decide_eq_true ha).trans hab)
  rw [hpassed, takeWhile_eq_filter hreverse, filter_reverse, length_reverse,
    ← countP_eq_length_filter]
  refine countP_congr fun other hother ↦ ?_
  rw [decide_eq_true_eq, decide_eq_true_eq, ← rank_inj (p := p)]
  exact ⟨fun hge ↦ le_antisymm (hupper other hother) hge, fun hsame ↦ hsame.ge⟩

theorem rank_of_mem_page (hsorted : p.Sorted) {first row : Row} (hfirst : first ∈ p.forward[q]?)
    (hrow : row ∈ p.forward[q + limit]?) {other : Row}
    (hother : other ∈ (p.forward.drop q).take limit) :
    p.rank (p.table.key first) ≤ p.rank (p.table.key other) ∧
      p.rank (p.table.key other) ≤ p.rank (p.table.key row) := by
  refine ⟨rank_le_of_mem_drop hsorted hfirst (mem_of_mem_take hother), ?_⟩
  refine rank_le_of_mem_take hsorted hrow ?_
  rw [take_add]
  exact mem_append_right _ hother

theorem equalBefore_next (hsorted : p.Sorted) {first row : Row} (hfirst : first ∈ p.forward[q]?)
    (hrow : row ∈ p.forward[q + limit]?) :
    p.equalBefore (q + limit) (p.table.key row) =
      if p.table.key row = p.table.key first then p.equalBefore q (p.table.key first) + limit
      else ((p.forward.drop q).take limit).countP fun other ↦
        p.table.key other = p.table.key row := by
  obtain ⟨hmore, hget⟩ := List.getElem?_eq_some_iff.mp hrow
  have hlength : ((p.forward.drop q).take limit).length = limit := by
    rw [length_take, length_drop]
    omega
  rw [equalBefore_add]
  by_cases hkey : p.table.key row = p.table.key first
  · have hall : ((p.forward.drop q).take limit).countP
        (fun other ↦ p.table.key other = p.table.key row) =
          ((p.forward.drop q).take limit).length := by
      rw [countP_eq_length]
      intro other hother
      obtain ⟨hlower, hupper⟩ := rank_of_mem_page hsorted hfirst hrow hother
      rw [decide_eq_true_eq, ← rank_inj (p := p)]
      exact le_antisymm hupper (hkey ▸ hlower)
    rw [if_pos hkey, hall, hlength, hkey]
  · have hnone : p.equalBefore q (p.table.key row) = 0 := by
      rw [equalBefore, countP_eq_zero]
      intro other hother hsame
      have hle := rank_le_of_mem_take hsorted hfirst hother
      have hbehind : row ∈ p.forward.drop q :=
        mem_drop_iff_getElem.mpr ⟨limit, by omega, hget⟩
      have hge := rank_le_of_mem_drop hsorted hfirst hbehind
      rw [of_decide_eq_true hsame] at hle
      exact hkey (rank_inj.mp (le_antisymm hle hge))
    rw [if_neg hkey, hnone, Nat.zero_add]

theorem next_of_more (hsorted : p.Sorted) (hlimit : 0 < limit) (h : p.StartsAt cursor q) {row : Row}
    (hrow : row ∈ p.forward[q + limit]?) :
    (buildCursor p.table.key limit p.desc cursor (p.fetch limit cursor)).next =
      p.cursorAt (q + limit) row := by
  obtain ⟨hmore, hget⟩ := List.getElem?_eq_some_iff.mp hrow
  have hq : q < p.forward.length := by omega
  have hfirst : p.forward[q] ∈ p.forward[q]? := getElem?_eq_getElem hq
  have hlength : ((p.forward.drop q).take limit).length = limit := by
    rw [length_take, length_drop]
    omega
  have hlt : limit < (p.forward.drop q).length := by
    rw [length_drop]
    omega
  -- The page is followed by the row.
  have hfetch : p.fetch limit cursor = (p.forward.drop q).take limit ++ [row] := by
    rw [fetch_next h.isPrev, h.queryset, take_succ_eq_append_getElem hlt, getElem_drop, hget]
  have hlong : limit < ((p.forward.drop q).take limit ++ [row]).length := by
    rw [length_append, hlength]
    exact Nat.lt_succ_self limit
  have hhead : ((p.forward.drop q).take limit ++ [row]).head? = some p.forward[q] := by
    rw [head?_append_of_ne_nil _ (ne_nil_of_length_pos (by omega)), head?_take,
      if_neg hlimit.ne', head?_drop, getElem?_eq_getElem hq]
  have hvalue : (if cursor.value = 0 then p.table.key p.forward[q] else cursor.value) =
      p.table.key p.forward[q] := by
    by_cases hzero : cursor.value = 0
    · rw [if_pos hzero]
    · rw [if_neg hzero, h.value _ hfirst hzero]
  have hpassed := length_passed (p.table.key row)
    ((hsorted.sublist (drop_sublist q _)).sublist (take_sublist limit _))
    fun other hother ↦ (rank_of_mem_page hsorted hfirst hrow hother).2
  have hnext : buildNextValues p.table.key limit p.desc cursor (p.fetch limit cursor) =
      (p.table.key row, p.equalBefore (q + limit) (p.table.key row), true) := by
    simp only [buildNextValues, h.isPrev, Bool.false_eq_true, if_false, hfetch, hhead,
      map_some, getD_some, hvalue, getLast?_concat, hlong, decide_true, if_true,
      reverse_append, reverse_singleton, singleton_append, tail_cons, hpassed,
      equalBefore_next hsorted hfirst hrow, h.offset _ hfirst]
    split_ifs <;> rfl
  rw [buildCursor, hnext]
  rfl

theorem next_of_end (h : p.StartsAt cursor q) (hend : p.forward.length ≤ q + limit) :
    (buildCursor p.table.key limit p.desc cursor (p.fetch limit cursor)).next.hasResults =
      false := by
  have hshort : ¬ limit < (p.fetch limit cursor).length := by
    rw [fetch_next h.isPrev, h.queryset, length_take, length_drop]
    omega
  unfold buildCursor buildNextValues
  cases hlast : (p.fetch limit cursor).getLast? with
  | none => simp [h.isPrev]
  | some last =>
    simp only [h.isPrev, Bool.false_eq_true, if_false, hshort, decide_false]
    split_ifs <;> rfl

end Page

/-! ### Visits -/

section Visit

variable {limit : ℕ}

theorem order_afterBuild (p : Paginator Row) :
    (p.afterBuild false).order false = p.order false := by
  unfold afterBuild order isAsc
  rcases p.orderBy with _ | _ | _
  · rfl
  · cases p.desc <;> rfl
  · rfl

theorem getResult_afterBuild (p : Paginator Row) (limit : ℕ) (cursor : Option (Cursor ℤ))
    (hnext : (cursor.getD ⟨0, 0, false, false⟩).isPrev = false) :
    (p.afterBuild false).getResult limit cursor = p.getResult limit cursor := by
  have horder := p.order_afterBuild
  have hrows (value : ℤ) :
      (p.afterBuild false).buildQueryset value false = p.buildQueryset value false := by
    simp only [buildQueryset, horder]
    rfl
  have hafter : (p.afterBuild false).afterBuild false = p.afterBuild false := by
    rw [afterBuild, horder]
    simp only [afterBuild, Option.map_map]
    rfl
  unfold getResult
  simp only [hnext, hafter, fetch_next hnext, hrows]
  rfl

variable {cursor : Option (Cursor ℤ)}

theorem visit_succ (p : Paginator Row) (limit fuel : ℕ)
    (hnext : (cursor.getD ⟨0, 0, false, false⟩).isPrev = false) :
    visit limit (fuel + 1) p cursor =
      let result := (p.getResult limit cursor).1
      if result.next.hasResults then
        (visit limit fuel p (some result.next)).map (result.results :: ·)
      else some [result.results] := by
  have hsame (fuel : ℕ) (next : Cursor ℤ) (h : next.isPrev = false) :
      visit limit fuel (p.afterBuild false) (some next) = visit limit fuel p (some next) := by
    cases fuel with
    | zero => rfl
    | succ fuel => simp only [visit, getResult_afterBuild p limit (some next) h]
  have hafter : (p.getResult limit cursor).2 = p.afterBuild false := by
    rw [getResult, hnext]
  rw [visit]
  simp only [hafter]
  rw [hsame fuel _ rfl]

variable {pages : List (List Row)}

theorem exists_eq_cons_of_visit {fuel : ℕ} (hvisit : visit limit fuel p cursor = some pages) :
    ∃ rest, pages = (p.getResult limit cursor).1.results :: rest := by
  cases fuel with
  | zero => exact absurd hvisit (some_ne_none pages).symm
  | succ fuel =>
    simp only [visit] at hvisit
    split_ifs at hvisit
    · obtain ⟨rest, -, rfl⟩ := map_eq_some_iff.mp hvisit
      exact ⟨rest, rfl⟩
    · obtain rfl := Option.some.inj hvisit
      exact ⟨[], rfl⟩

theorem exists_mem_take_of_visit (hlimit : 0 < limit) (hmax : limit ≤ p.maxLimit) {fuel q : ℕ}
    {row : Row} (hrow : row ∈ p.forward[q]?) (hkey : p.table.key row = 0)
    {first : Row} (hfirst : first ∈ p.forward.head?) (hne : p.table.key first ≠ 0)
    (hvisit : visit limit fuel p (some (p.cursorAt q row)) = some pages) :
    ∃ other ∈ pages.flatten, other ∈ p.forward.take q := by
  have hq := (List.getElem?_eq_some_iff.mp hrow).1
  have hpos : q ≠ 0 := by
    rintro rfl
    rw [← head?_eq_getElem?] at hrow
    exact hne (mem_unique hfirst hrow ▸ hkey)
  -- The first row is among those before the position and does not have the key 0.
  have hbefore : p.equalBefore q 0 < q := by
    have hlength : (p.forward.take q).length = q := length_take_of_le hq.le
    have hle := countP_le_length (p := fun other ↦ p.table.key other = 0)
      (l := p.forward.take q)
    rw [hlength] at hle
    refine lt_of_le_of_ne hle fun hall ↦ ?_
    have hzero := countP_eq_length.mp (hall.trans hlength.symm)
    have htake : first ∈ p.forward.take q := by
      refine mem_of_head? ?_
      rwa [head?_take, if_neg hpos]
    exact hne (of_decide_eq_true (hzero first htake))
  have hinside : p.equalBefore q 0 < p.forward.length := hbefore.trans hq
  have hresults : (p.getResult limit (some (p.cursorAt q row))).1.results =
      (p.forward.drop (p.equalBefore q 0)).take limit := by
    have hprev : (p.cursorAt q row).isPrev = false := rfl
    have hpage := results_next (p := p) hprev limit
    simp only [cursorAt, hkey, buildQueryset_zero] at hpage
    simp only [getResult, min_eq_left hmax, getD_some, cursorAt, hkey, hpage]
  have hmem : p.forward[p.equalBefore q 0] ∈ (p.forward.drop (p.equalBefore q 0)).take limit := by
    refine mem_of_head? ?_
    rw [head?_take, if_neg hlimit.ne', head?_drop, getElem?_eq_getElem hinside]
  obtain ⟨rest, hpages⟩ := exists_eq_cons_of_visit hvisit
  refine ⟨p.forward[p.equalBefore q 0], ?_, ?_⟩
  · rw [hpages, hresults, flatten_cons]
    exact mem_append_left _ hmem
  · exact mem_take_iff_getElem.mpr ⟨p.equalBefore q 0, by omega, rfl⟩

variable (hsorted : p.Sorted) (hlimit : 0 < limit) (hmax : limit ≤ p.maxLimit)

include hsorted hlimit hmax

theorem visit_startsAt (fuel : ℕ) {q : ℕ} (h : p.StartsAt (cursor.getD ⟨0, 0, false, false⟩) q) :
    visit limit (fuel + 1) p cursor =
      match p.forward[q + limit]? with
      | some row => (visit limit fuel p (some (p.cursorAt (q + limit) row))).map
          ((p.forward.drop q).take limit :: ·)
      | none => some [(p.forward.drop q).take limit] := by
  have hresults := results_next (p := p) h.isPrev limit
  rw [h.queryset] at hresults
  rw [visit_succ p limit fuel h.isPrev]
  simp only [getResult, min_eq_left hmax, hresults]
  cases hrow : p.forward[q + limit]? with
  | some row =>
    rw [next_of_more hsorted hlimit h hrow]
    rfl
  | none =>
    rw [next_of_end h (List.getElem?_eq_none_iff.mp hrow)]
    rfl

theorem exists_visit {q : ℕ} (hstart : p.StartsAt (cursor.getD ⟨0, 0, false, false⟩) q)
    (hzero : ∀ k, ∀ row ∈ p.forward[q + k * limit]?, p.table.key row = 0 →
      ∀ first ∈ p.forward.head?, p.table.key first = 0) :
    ∃ fuel pages, visit limit fuel p cursor = some pages ∧ pages.flatten = p.forward.drop q := by
  induction hn : p.forward.length - q using Nat.strong_induction_on generalizing q cursor with
  | _ n ih =>
    cases hrow : p.forward[q + limit]? with
    | none =>
      refine ⟨1, [(p.forward.drop q).take limit], ?_, ?_⟩
      · rw [visit_startsAt hsorted hlimit hmax 0 hstart, hrow]
      · have hend := List.getElem?_eq_none_iff.mp hrow
        rw [flatten_singleton, take_of_length_le (by rw [length_drop]; omega)]
    | some row =>
      have hmore := (List.getElem?_eq_some_iff.mp hrow).1
      have hnext : p.StartsAt ((some (p.cursorAt (q + limit) row)).getD ⟨0, 0, false, false⟩)
          (q + limit) := by
        refine startsAt_cursorAt hsorted hrow (hzero 1 row ?_)
        rwa [Nat.one_mul]
      obtain ⟨fuel, pages, hvisit, hflatten⟩ := ih (p.forward.length - (q + limit)) (by omega)
        hnext (fun k other hother ↦ by
          refine hzero (k + 1) other ?_
          rwa [Nat.succ_mul, Nat.add_comm (k * limit), ← Nat.add_assoc]) rfl
      refine ⟨fuel + 1, (p.forward.drop q).take limit :: pages, ?_, ?_⟩
      · rw [visit_startsAt hsorted hlimit hmax fuel hstart, hrow]
        simp only [hvisit, map_some]
      · rw [flatten_cons, hflatten, ← drop_drop, take_append_drop]

theorem visitable_of_visit {fuel q : ℕ} (hstart : p.StartsAt (cursor.getD ⟨0, 0, false, false⟩) q)
    (hvisit : visit limit fuel p cursor = some pages)
    (hnodup : (p.forward.take q ++ pages.flatten).Nodup) :
    ∀ k, ∀ row ∈ p.forward[q + (k + 1) * limit]?, p.table.key row = 0 →
      ∀ first ∈ p.forward.head?, p.table.key first = 0 := by
  induction fuel generalizing q cursor pages with
  | zero => exact absurd hvisit (some_ne_none pages).symm
  | succ fuel ih =>
    intro k row hrow hkey first hfirst
    by_contra hne
    rw [visit_startsAt hsorted hlimit hmax fuel hstart] at hvisit
    cases hnext : p.forward[q + limit]? with
    | none =>
      have hend := List.getElem?_eq_none_iff.mp hnext
      have hmore := (List.getElem?_eq_some_iff.mp hrow).1
      rw [Nat.succ_mul] at hmore
      omega
    | some next =>
      rw [hnext] at hvisit
      obtain ⟨rest, hrest, rfl⟩ := map_eq_some_iff.mp hvisit
      have happend : p.forward.take q ++ ((p.forward.drop q).take limit :: rest).flatten =
          p.forward.take (q + limit) ++ rest.flatten := by
        rw [flatten_cons, ← append_assoc, take_add]
      rw [happend] at hnodup
      have hok : p.table.key next = 0 → ∀ first ∈ p.forward.head?, p.table.key first = 0 := by
        intro hzero head hhead
        by_contra hhead'
        obtain ⟨other, hother, htake⟩ :=
          exists_mem_take_of_visit hlimit hmax hnext hzero hhead hhead' hrest
        exact (nodup_append.mp hnodup).2.2 other htake other hother rfl
      cases k with
      | zero =>
        rw [Nat.zero_add, Nat.one_mul] at hrow
        rw [mem_unique hnext hrow] at hok
        exact hne (hok hkey first hfirst)
      | succ k =>
        have hstart' : p.StartsAt ((some (p.cursorAt (q + limit) next)).getD ⟨0, 0, false, false⟩)
            (q + limit) := startsAt_cursorAt hsorted hnext hok
        refine hne (ih hstart' hrest hnodup k row ?_ hkey first hfirst)
        rwa [Nat.succ_mul (k + 1), Nat.add_comm ((k + 1) * limit), ← Nat.add_assoc] at hrow

theorem visitsAll_iff_of_sorted :
    p.VisitsAll limit ↔ ∀ k, ∀ row ∈ p.forward[k * limit]?, p.table.key row = 0 →
      ∀ first ∈ p.forward.head?, p.table.key first = 0 := by
  have hstart : p.StartsAt ((none : Option (Cursor ℤ)).getD ⟨0, 0, false, false⟩) 0 :=
    p.startsAt_zero
  constructor
  · rintro ⟨fuel, pages, hvisit, hperm, -⟩ k row hrow hkey first hfirst
    cases k with
    | zero =>
      rw [Nat.zero_mul, ← head?_eq_getElem?] at hrow
      rwa [mem_unique hfirst hrow]
    | succ k =>
      have hnodup : (p.forward.take 0 ++ pages.flatten).Nodup := by
        exact hperm.nodup_iff.mpr p.table.nodup
      refine visitable_of_visit hsorted hlimit hmax hstart hvisit hnodup k row ?_ hkey first hfirst
      rwa [Nat.zero_add]
  · intro hzero
    obtain ⟨fuel, pages, hvisit, hflatten⟩ := exists_visit hsorted hlimit hmax hstart
      fun k row hrow ↦ hzero k row (by rwa [Nat.zero_add] at hrow)
    refine ⟨fuel, pages, hvisit, ?_, ?_⟩
    · rw [hflatten]
      exact p.forward_perm
    · rw [hflatten]
      exact hsorted.imp fun h ↦ before_iff.mpr h

end Visit

/-! ### The order of the queryset -/

section Order

variable {limit : ℕ}

theorem keys_eq_of_visitsAll (h : p.desc = false ∧ p.orderBy = some .descending)
    (hlimit : 0 < limit) (hmax : limit ≤ p.maxLimit) (hvisits : p.VisitsAll limit) :
    ∀ a ∈ p.table.ascending, ∀ b ∈ p.table.ascending, p.table.key a = p.table.key b := by
  obtain ⟨fuel, pages, hvisit, hperm, hbefore⟩ := hvisits
  obtain ⟨rest, hpages⟩ := exists_eq_cons_of_visit hvisit
  have hresults : (p.getResult limit none).1.results = p.table.descending.take limit := by
    have hpage := results_next (p := p) p.startsAt_zero.isPrev limit
    rw [buildQueryset_zero, forward_of_typo h] at hpage
    simpa only [getResult, min_eq_left hmax, getD_none, drop_zero] using hpage
  -- Every key is that of the first row.
  have hfirst : ∀ first ∈ p.table.descending.head?, ∀ a ∈ p.table.ascending,
      p.table.key a = p.table.key first := by
    intro first hfirst a ha
    have hhead : pages.flatten.head? = some first := by
      rw [hpages, hresults, flatten_cons, head?_append, head?_take,
        if_neg hlimit.ne', mem_def.mp hfirst, some_or]
    obtain ⟨tail, htail⟩ := head?_eq_some_iff.mp hhead
    obtain ⟨tail', htail'⟩ := head?_eq_some_iff.mp hfirst
    have hmem : a ∈ pages.flatten := hperm.mem_iff.mpr ha
    have hmem' : a ∈ p.table.descending := p.table.perm.mem_iff.mpr ha
    have hsorted := p.table.descending_sorted
    rw [htail] at hmem hbefore
    rw [htail'] at hmem' hsorted
    rcases mem_cons.mp hmem with rfl | hmem
    · rfl
    rcases mem_cons.mp hmem' with rfl | hmem'
    · rfl
    have hle := rel_of_pairwise_cons hbefore hmem
    rw [Before, h.1] at hle
    exact le_antisymm (rel_of_pairwise_cons hsorted hmem') hle
  intro a ha b hb
  cases hhead : p.table.descending.head? with
  | none =>
    rw [← p.table.perm.mem_iff, head?_eq_none_iff.mp hhead] at ha
    exact absurd ha not_mem_nil
  | some first => rw [hfirst first hhead a ha, hfirst first hhead b hb]

theorem sorted_of_keys_eq
    (h : ∀ a ∈ p.table.ascending, ∀ b ∈ p.table.ascending, p.table.key a = p.table.key b) :
    p.Sorted := by
  refine List.Pairwise.imp_of_mem (fun {a b} ha hb _ ↦ ?_) p.nodup_forward
  rw [h a (p.forward_perm.mem_iff.mp ha) b (p.forward_perm.mem_iff.mp hb)]

theorem sorted_of_visitable (h : p.Visitable limit) : p.Sorted := by
  by_cases htypo : p.desc = false ∧ p.orderBy = some .descending
  · exact sorted_of_keys_eq (h.1 htypo.1 htypo.2)
  · exact sorted_of_order htypo

theorem sorted_of_visitsAll (hlimit : 0 < limit) (hmax : limit ≤ p.maxLimit)
    (h : p.VisitsAll limit) : p.Sorted := by
  by_cases htypo : p.desc = false ∧ p.orderBy = some .descending
  · exact sorted_of_keys_eq (keys_eq_of_visitsAll htypo hlimit hmax h)
  · exact sorted_of_order htypo

end Order

theorem visitable_of_visitsAll {limit : ℕ} (hlimit : 0 < limit) (hmax : limit ≤ p.maxLimit)
    (h : p.VisitsAll limit) : p.Visitable limit := by
  have hsorted := sorted_of_visitsAll hlimit hmax h
  refine ⟨fun hdesc horder ↦ ?_, (visitsAll_iff_of_sorted hsorted hlimit hmax).mp h⟩
  exact keys_eq_of_visitsAll ⟨hdesc, horder⟩ hlimit hmax h

/-- All rows are visited once and in sort order if and only if they come in sort order and no page
after the first one starts with key 0 unless the first one does. -/
theorem visitsAll_iff (p : Paginator Row) {limit : ℕ} (hlimit : 1 ≤ limit)
    (hmax : limit ≤ p.maxLimit) : p.VisitsAll limit ↔ p.Visitable limit := by
  refine ⟨visitable_of_visitsAll hlimit hmax, fun h ↦ ?_⟩
  exact (visitsAll_iff_of_sorted (sorted_of_visitable h) hlimit hmax).mpr h.2

/-- Two rows with the keys -1 and 0, of which the second starts the second page. -/
def zeroKeys : Paginator ℤ where
  table :=
    { key := id
      ascending := [-1, 0]
      descending := [0, -1]
      nodup := by decide
      perm := List.Perm.swap _ _ _
      ascending_sorted := by decide
      descending_sorted := by decide }
  orderBy := none
  desc := false
  maxLimit := 100

theorem visitsAll_iff_zeroKeys : zeroKeys.VisitsAll 2 ↔ zeroKeys.Visitable 2 :=
  visitsAll_iff zeroKeys (by decide) (by decide)

theorem zeroKeys_not_visitsAll : ¬ zeroKeys.VisitsAll 1 := by
  intro h
  have hvisitable := visitable_of_visitsAll Nat.one_pos (by decide) h
  exact absurd (hvisitable.2 1 0 rfl rfl (-1) rfl) (by decide)

end Paginator

end Sentry.Pagination
