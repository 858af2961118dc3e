import Sentry.Search.SequencePaginator

/-!
# The paginator

`Paginator` of `api/paginator.py`, with a key that is an integer, and `build_cursor` of
`utils/cursors.py`. The page of a cursor has the rows at or behind its value, after as many as its
offset says; a cursor with the value 0 is read as no cursor. A table has its rows in both orders,
and `build_queryset` changes the order of the queryset in place, if it means to: it assigns the
ascending order, in the place of a descending one, to an attribute that nobody reads. The hits are
left out, and so are `on_results` and `post_query_filter`.
-/

namespace Sentry.Pagination

open Search (Cursor)

variable {Row : Type*}

/-- The rows by ascending and by descending key, each with a fixed order of the rows that have the
same key. -/
structure Table (Row : Type*) where
  key : Row → ℤ
  ascending : List Row
  descending : List Row
  nodup : ascending.Nodup
  perm : descending.Perm ascending
  ascending_sorted : ascending.Pairwise fun a b ↦ key a ≤ key b
  descending_sorted : descending.Pairwise fun a b ↦ key b ≤ key a

/-- An order by the key. -/
inductive KeyOrder
  | ascending
  | descending
  deriving DecidableEq

/-- The rows in an order. -/
def Table.rows (table : Table Row) : KeyOrder → List Row
  | .ascending => table.ascending
  | .descending => table.descending

/-- `CursorResult` -/
structure CursorResult (Row : Type*) where
  results : List Row
  next : Cursor ℤ
  prev : Cursor ℤ

section BuildCursor

variable (key : Row → ℤ) (limit : ℕ) (isDesc : Bool) (cursor : Cursor ℤ) (results : List Row)

/-- `_build_next_values` -/
def buildNextValues : ℤ × ℕ × Bool :=
  let value := if cursor.value = 0 then (results.head?.map key).getD 0 else cursor.value
  if cursor.isPrev then (value, 0, true)
  else
    match results.getLast? with
    | none => (value, cursor.offset, false)
    | some last =>
      let hasNext := decide (limit < results.length)
      let nextValue := key last
      if nextValue = value then (nextValue, cursor.offset + limit, hasNext)
      else
        let resultIter := if hasNext then results.reverse.tail else results.reverse
        let passed := resultIter.takeWhile fun result ↦
          if isDesc then decide (key result ≤ nextValue) else decide (nextValue ≤ key result)
        (nextValue, passed.length, hasNext)

/-- `_build_prev_values` -/
def buildPrevValues : ℤ × ℕ × Bool :=
  let hasPrev :=
    if cursor.isPrev then decide (limit < results.length)
    else decide (cursor.value ≠ 0) || decide (cursor.offset ≠ 0)
  let firstPrevIndex := if cursor.isPrev && hasPrev then 1 else 0
  let prevValue := (results[firstPrevIndex]?.map key).getD 0
  let prevOffset := if cursor.isPrev then cursor.offset else 0
  if !cursor.isPrev || results.isEmpty then (prevValue, prevOffset, hasPrev)
  else if prevValue = cursor.value then (prevValue, cursor.offset + limit, hasPrev)
  else
    let resultIter := if hasPrev then results.tail.tail else results.tail
    let passed := resultIter.takeWhile fun result ↦
      if isDesc then decide (prevValue ≤ key result) else decide (key result ≤ prevValue)
    (prevValue, passed.length, hasPrev)

/-- `build_cursor` -/
def buildCursor : CursorResult Row :=
  let next := buildNextValues key limit isDesc cursor results
  let prev := buildPrevValues key limit isDesc cursor results
  { results :=
      if cursor.isPrev && prev.2.2 then results.tail
      else if !cursor.isPrev then results.take limit
      else results
    next := ⟨next.1, next.2.1, false, next.2.2⟩
    prev := ⟨prev.1, prev.2.1, true, prev.2.2⟩ }

end BuildCursor

/-- `Paginator`; the order of its queryset, if it is by the key. -/
structure Paginator (Row : Type*) where
  table : Table Row
  orderBy : Option KeyOrder
  desc : Bool
  maxLimit : ℕ

namespace Paginator

variable (p : Paginator Row)

/-- `_is_asc` -/
def isAsc (isPrev : Bool) : Bool := (p.desc && isPrev) || !(p.desc || isPrev)

/-- The order of the queryset in `build_queryset`. -/
def order (isPrev : Bool) : KeyOrder :=
  match p.orderBy with
  | some .descending => .descending
  | _ => if p.isAsc isPrev then .ascending else .descending

/-- The rows of `build_queryset`. -/
def buildQueryset (value : ℤ) (isPrev : Bool) : List Row :=
  (p.table.rows (p.order isPrev)).filter fun row ↦
    if value = 0 then true
    else if p.isAsc isPrev then decide (value ≤ p.table.key row)
    else decide (p.table.key row ≤ value)

/-- The paginator after `build_queryset`: an order of its queryset is changed in place. -/
def afterBuild (isPrev : Bool) : Paginator Row :=
  { p with orderBy := p.orderBy.map fun _ ↦ p.order isPrev }

/-- `results` in `get_result`, before the cursor is built. -/
def fetch (limit : ℕ) (cursor : Cursor ℤ) : List Row :=
  let extra := if cursor.isPrev && decide (cursor.value ≠ 0) then 2 else 1
  let stop := cursor.offset + limit + extra
  let results := ((p.buildQueryset cursor.value cursor.isPrev).take stop).drop cursor.offset
  let results :=
    if cursor.isPrev && decide (cursor.value ≠ 0) then
      if results.head?.map p.table.key = some cursor.value then results.tail
      else if results.length = stop then results.dropLast
      else results
    else results
  if cursor.isPrev then results.reverse else results

/-- `get_result` -/
def getResult (limit : ℕ) (cursor : Option (Cursor ℤ)) : CursorResult Row × Paginator Row :=
  let cursor := cursor.getD ⟨0, 0, false, false⟩
  let limit := min limit p.maxLimit
  (buildCursor p.table.key limit p.desc cursor (p.fetch limit cursor), p.afterBuild cursor.isPrev)

end Paginator

end Sentry.Pagination
