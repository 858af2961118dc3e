import Sentry.Library.SortedSublist
import Mathlib.Algebra.Order.Group.Nat
import Mathlib.Algebra.Order.Ring.Int

/-!
# Ranges of a queryset

`RangeQuerySetWrapper` of `utils/query.py`. Each batch is a query for the rows at the last value or
beyond it, cut at the step, and the row that was there before is passed over; the number of rows is
looked at between batches only (`iterFrom_eq`). These are the rows of the range up to the limit if
and only if a batch ends there, or there are no more (`iteratesRange_iff`).
-/

namespace Sentry.Utils

open Library List

variable {Row : Type*}

/-- `InvalidQuerySetError`, with its message. -/
structure InvalidQuerySetError where
  message : Option String
  deriving DecidableEq

/-- A queryset: the rows by an ascending column that is unique, and the slice it was cut to. -/
structure Queryset (Row : Type*) where
  rows : List Row
  pk : Row → ℤ
  column : Row → ℤ
  columnUnique : Bool
  lowMark : ℕ
  highMark : Option ℕ
  ordered : Bool
  sorted : rows.Pairwise fun a b ↦ column a < column b
  nodup : (rows.map pk).Nodup

/-- `RangeQuerySetWrapper`. Callbacks see the batches and change nothing. -/
structure RangeQuerySetWrapper (Row : Type*) where
  queryset : Queryset Row
  limit : Option ℕ
  step : ℕ
  desc : Bool
  minValue : Option ℤ
  resultValueGetter : Option (Row → ℤ)

namespace RangeQuerySetWrapper

/-- `if limit:` -/
def truthy (limit : Option ℕ) : Bool := limit.any (· ≠ 0)

/-- `RangeQuerySetWrapper.__init__` -/
def create (queryset : Queryset Row) (step : ℤ) (limit : Option ℕ) (minId : Option ℤ)
    (resultValueGetter : Option (Row → ℤ)) (overrideUniqueSafetyCheck : Bool) :
    Except InvalidQuerySetError (RangeQuerySetWrapper Row) :=
  if queryset.lowMark = 0 ∧ ¬ queryset.ordered then
    let limit := if limit.isNone then queryset.highMark else limit
    if ¬ overrideUniqueSafetyCheck ∧ ¬ queryset.columnUnique then
      .error ⟨some ("Order by column must be unique, otherwise this wrapper can get stuck in an " ++
        "infinite loop. If you're sure your data is unique, you can disable this by passing " ++
        "`override_unique_safety_check=True`")⟩
    else .ok
      { queryset := queryset
        limit := limit
        step := if truthy limit then min (limit.getD 0) step.natAbs else step.natAbs
        desc := step < 0
        minValue := minId
        resultValueGetter := resultValueGetter }
  else .error ⟨none⟩

/-- The variables of the loop, with the rows that were yielded. -/
structure Loop (Row : Type*) where
  curValue : Option ℤ
  num : ℕ
  lastObjectPk : Option ℤ
  yielded : List Row

variable (w : RangeQuerySetWrapper Row)

def directed : List Row := if w.desc then w.queryset.rows.reverse else w.queryset.rows

def beyond (value : ℤ) (row : Row) : Bool :=
  if w.desc then w.queryset.column row ≤ value else value ≤ w.queryset.column row

/-- The results of a query for the current value. -/
def batch (curValue : Option ℤ) : List Row :=
  let results := match curValue with
    | none => w.directed
    | some value => w.directed.filter (w.beyond value)
  results.take w.step

/-- `pk`, or the value of the getter. -/
def pkOf (row : Row) : ℤ := w.resultValueGetter.elim (w.queryset.pk row) (· row)

def valueOf (row : Row) : ℤ := w.resultValueGetter.elim (w.queryset.column row) (· row)

def visit (s : Loop Row) (result : Row) : Loop Row :=
  if s.lastObjectPk = some (w.pkOf result) then s
  else ⟨some (w.valueOf result), s.num + 1, some (w.pkOf result), s.yielded ++ [result]⟩

/-- `limit and num >= limit` -/
def reached (num : ℕ) : Bool := truthy w.limit && decide (w.limit.getD 0 ≤ num)

/-- The rows that `__iter__` yields from a state on, if it ends within a number of batches. -/
def iterFrom : ℕ → Loop Row → Option (List Row)
  | 0, _ => none
  | fuel + 1, s =>
    if w.reached s.num then some s.yielded
    else
      let t := (w.batch s.curValue).foldl w.visit s
      if t.curValue.isNone then some t.yielded
      else if s.num < t.num then iterFrom fuel t
      else some t.yielded

/-- `__iter__` -/
def iter (fuel : ℕ) : Option (List Row) := w.iterFrom fuel ⟨w.minValue, 0, none, []⟩

/-- The rows at the least value or beyond it. -/
def range : List Row :=
  match w.minValue with
  | none => w.directed
  | some value => w.directed.filter (w.beyond value)

/-- The iteration ends, with the rows of the range, up to the limit. -/
def IteratesRange : Prop :=
  ∃ fuel, w.iter fuel = some (w.limit.elim w.range (w.range.take ·))

/-- The batches end at the limit, or there are no rows behind it; a step of one row brings only one
row. -/
def Exact (step : ℕ) (limit : Option ℕ) (count : ℕ) : Prop :=
  match limit with
  | none => 2 ≤ step ∨ count ≤ 1
  | some limit =>
    min limit step - 1 ∣ limit - 1 ∨ (2 ≤ min limit step ∧ count ≤ limit) ∨ count ≤ 1

/-! ### Batches -/

section Batches

variable {w : RangeQuerySetWrapper Row}

/-- The getter, if there is one, gives the column. -/
def GetsColumn (w : RangeQuerySetWrapper Row) : Prop :=
  ∀ getter ∈ w.resultValueGetter, ∀ row ∈ w.queryset.rows, getter row = w.queryset.column row

def stateAt (w : RangeQuerySetWrapper Row) (i : ℕ) : Loop Row :=
  ⟨((w.range.take i).getLast?.map w.queryset.column).or w.minValue, i,
    (w.range.take i).getLast?.map w.pkOf, w.range.take i⟩

def Before (w : RangeQuerySetWrapper Row) (a b : Row) : Prop :=
  if w.desc then w.queryset.column b < w.queryset.column a
  else w.queryset.column a < w.queryset.column b

theorem pairwise_directed (w : RangeQuerySetWrapper Row) : w.directed.Pairwise w.Before := by
  unfold directed Before
  cases w.desc with
  | true => exact pairwise_reverse.mpr w.queryset.sorted
  | false => exact w.queryset.sorted

theorem beyond_self (w : RangeQuerySetWrapper Row) (row : Row) :
    w.beyond (w.queryset.column row) row = true := by
  unfold beyond
  split_ifs <;> exact decide_eq_true le_rfl

theorem beyond_of_before {a b : Row} (h : w.Before a b) :
    w.beyond (w.queryset.column a) b = true ∧ ¬ w.beyond (w.queryset.column b) a = true := by
  unfold Before at h
  unfold beyond
  split_ifs at h ⊢ <;> simp only [decide_eq_true_eq] <;> omega

theorem beyond_trans {value : ℤ} {a b : Row} (ha : w.beyond value a = true)
    (hb : w.beyond (w.queryset.column a) b = true) : w.beyond value b = true := by
  unfold beyond at *
  split_ifs at * <;> simp only [decide_eq_true_eq] at * <;> omega

theorem range_sublist (w : RangeQuerySetWrapper Row) : w.range.Sublist w.directed := by
  unfold range
  split
  · exact List.Sublist.refl _
  · exact filter_sublist

theorem pairwise_range (w : RangeQuerySetWrapper Row) : w.range.Pairwise w.Before :=
  w.pairwise_directed.sublist w.range_sublist

theorem mem_rows_of_mem_range {row : Row} (h : row ∈ w.range) : row ∈ w.queryset.rows := by
  have hdirected := w.range_sublist.subset h
  unfold directed at hdirected
  split_ifs at hdirected
  · exact mem_reverse.mp hdirected
  · exact hdirected

variable {i : ℕ}

theorem filter_beyond (hi : i < w.range.length) :
    w.directed.filter (w.beyond (w.queryset.column w.range[i])) = w.range.drop i := by
  have hsame : w.directed.filter (w.beyond (w.queryset.column w.range[i])) =
      w.range.filter (w.beyond (w.queryset.column w.range[i])) := by
    have hrow : w.range[i] ∈ w.range := getElem_mem hi
    generalize w.range[i] = row at hrow
    unfold range at hrow ⊢
    split
    · rfl
    next value hvalue =>
      rw [hvalue] at hrow
      rw [filter_filter]
      refine filter_congr fun other _ ↦ ?_
      have hother := beyond_trans (b := other) (mem_filter.mp hrow).2
      cases hbeyond : w.beyond (w.queryset.column row) other with
      | false => rfl
      | true => rw [hother hbeyond, Bool.true_and]
  rw [hsame]
  refine filter_eq_drop (fun other hother ↦ ?_) (fun other hother ↦ ?_)
  · exact (beyond_of_before (rel_of_mem_take_of_getElem w.pairwise_range hother
      (getElem?_eq_getElem hi))).2
  · rw [drop_eq_getElem_cons hi] at hother
    rcases mem_cons.mp hother with rfl | hbehind
    · exact w.beyond_self _
    · exact (beyond_of_before (rel_of_getElem_of_mem_drop w.pairwise_range
        (getElem?_eq_getElem hi) hbehind)).1

theorem valueOf_eq (h : w.GetsColumn) {row : Row} (hrow : row ∈ w.queryset.rows) :
    w.valueOf row = w.queryset.column row := by
  unfold valueOf
  cases hgetter : w.resultValueGetter with
  | none => rfl
  | some getter => exact h getter hgetter row hrow

theorem pairwise_pkOf (h : w.GetsColumn) : w.range.Pairwise fun a b ↦ w.pkOf a ≠ w.pkOf b := by
  cases hgetter : w.resultValueGetter with
  | none =>
    have hrows : w.directed.Pairwise fun a b ↦ w.queryset.pk a ≠ w.queryset.pk b := by
      have hnodup := pairwise_map.mp w.queryset.nodup
      unfold directed
      split_ifs
      · exact pairwise_reverse.mpr (hnodup.imp Ne.symm)
      · exact hnodup
    simp only [pkOf, hgetter]
    exact hrows.sublist w.range_sublist
  | some getter =>
    refine w.pairwise_range.imp_of_mem fun {a b} ha hb hbefore ↦ ?_
    have hcolumn : w.queryset.column a ≠ w.queryset.column b := by
      unfold Before at hbefore
      split_ifs at hbefore
      · exact hbefore.ne'
      · exact hbefore.ne
    simp only [pkOf, hgetter]
    show getter a ≠ getter b
    rw [h getter hgetter a (mem_rows_of_mem_range ha),
      h getter hgetter b (mem_rows_of_mem_range hb)]
    exact hcolumn

theorem getLast?_take_range (hi : i < w.range.length) :
    (w.range.take (i + 1)).getLast? = some w.range[i] := by
  rw [take_succ_eq_append_getElem hi, getLast?_concat]

theorem visit_next (h : w.GetsColumn) (hi : i < w.range.length) :
    w.visit (w.stateAt i) w.range[i] = w.stateAt (i + 1) := by
  have hfresh : (w.stateAt i).lastObjectPk ≠ some (w.pkOf w.range[i]) := by
    intro hlast
    obtain ⟨last, hmem, hpk⟩ := Option.map_eq_some_iff.mp hlast
    exact rel_of_mem_take_of_getElem (pairwise_pkOf h) (mem_of_getLast? hmem)
      (getElem?_eq_getElem hi) hpk
  rw [visit, if_neg hfresh, valueOf_eq h (mem_rows_of_mem_range (getElem_mem hi)), stateAt,
    stateAt, getLast?_take_range hi, take_succ_eq_append_getElem hi]
  rfl

theorem visit_again (hi : i < w.range.length) :
    w.visit (w.stateAt (i + 1)) w.range[i] = w.stateAt (i + 1) := by
  have hlast : (w.stateAt (i + 1)).lastObjectPk = some (w.pkOf w.range[i]) := by
    rw [stateAt, getLast?_take_range hi]
    rfl
  rw [visit, if_pos hlast]

theorem foldl_visit (h : w.GetsColumn) {i count : ℕ} (hcount : i + count ≤ w.range.length) :
    ((w.range.drop i).take count).foldl w.visit (w.stateAt i) = w.stateAt (i + count) := by
  induction count with
  | zero => rfl
  | succ count ih =>
    have hlength : count < (w.range.drop i).length := by
      rw [length_drop]
      omega
    rw [take_succ_eq_append_getElem hlength, foldl_append, ih (by omega)]
    simp only [foldl_cons, foldl_nil, getElem_drop]
    exact visit_next h (by omega)

def advance (w : RangeQuerySetWrapper Row) (i : ℕ) : ℕ :=
  min w.range.length (if i = 0 then w.step else i - 1 + w.step)

theorem foldl_take (h : w.GetsColumn) (hi : i ≤ w.range.length) (count : ℕ) :
    ((w.range.drop i).take count).foldl w.visit (w.stateAt i) =
      w.stateAt (min w.range.length (i + count)) := by
  have hshort : (w.range.drop i).take count =
      (w.range.drop i).take (min w.range.length (i + count) - i) := by
    rw [take_eq_take_iff, length_drop]
    omega
  rw [hshort, foldl_visit h (by omega)]
  congr 1
  omega

theorem foldl_batch (h : w.GetsColumn) (hstep : 1 ≤ w.step) (hi : i ≤ w.range.length) :
    (w.batch (w.stateAt i).curValue).foldl w.visit (w.stateAt i) = w.stateAt (w.advance i) := by
  cases i with
  | zero =>
    have hbatch : w.batch (w.stateAt 0).curValue = (w.range.drop 0).take w.step := rfl
    rw [hbatch, foldl_take h (Nat.zero_le _), advance, if_pos rfl, Nat.zero_add]
  | succ i =>
    have hvalue : (w.stateAt (i + 1)).curValue = some (w.queryset.column w.range[i]) := by
      rw [stateAt, getLast?_take_range hi]
      rfl
    have hbatch : w.batch (some (w.queryset.column w.range[i])) =
        w.range[i] :: (w.range.drop (i + 1)).take (w.step - 1) := by
      rw [batch, filter_beyond hi, drop_eq_getElem_cons hi]
      obtain ⟨step, hsucc⟩ := Nat.exists_eq_succ_of_ne_zero (Nat.pos_iff_ne_zero.mp hstep)
      rw [hsucc, take_succ_cons, Nat.succ_sub_one]
    rw [hvalue, hbatch, foldl_cons, visit_again hi, foldl_take h hi, advance,
      if_neg (Nat.succ_ne_zero i)]
    congr 1
    omega

theorem advance_le (w : RangeQuerySetWrapper Row) (i : ℕ) : w.advance i ≤ w.range.length :=
  min_le_left _ _

theorem eq_zero_of_curValue (hi : i ≤ w.range.length)
    (h : (w.stateAt i).curValue.isNone) : i = 0 := by
  cases i with
  | zero => rfl
  | succ i =>
    rw [stateAt, getLast?_take_range hi] at h
    exact absurd h Bool.false_ne_true

theorem iterFrom_stateAt (h : w.GetsColumn) (hstep : 1 ≤ w.step) (hi : i ≤ w.range.length)
    (fuel : ℕ) : w.iterFrom (fuel + 1) (w.stateAt i) =
      if w.reached i then some (w.range.take i)
      else if i < w.advance i then w.iterFrom fuel (w.stateAt (w.advance i))
      else some (w.range.take (w.advance i)) := by
  rw [iterFrom, foldl_batch h hstep hi]
  by_cases hnone : (w.stateAt (w.advance i)).curValue.isNone = true
  · have hzero := eq_zero_of_curValue (w.advance_le i) hnone
    have hstay : ¬ i < w.advance i := by omega
    rw [if_pos hnone, if_neg hstay]
    rfl
  · rw [if_neg hnone]
    rfl

theorem exists_iterFrom (h : w.GetsColumn) (hstep : 1 ≤ w.step) {I : ℕ → Prop}
    (hI : ∀ i, I i → w.reached i = false → I (w.advance i)) (hi : i ≤ w.range.length)
    (hinit : I i) : ∃ fuel stop, w.iterFrom fuel (w.stateAt i) = some (w.range.take stop) ∧
      I stop ∧ stop ≤ w.range.length ∧ (w.reached stop = true ∨ w.advance stop ≤ stop) := by
  induction hn : w.range.length - i using Nat.strong_induction_on generalizing i with
  | _ n ih =>
    by_cases hreached : w.reached i = true
    · refine ⟨1, i, ?_, hinit, hi, Or.inl hreached⟩
      rw [iterFrom_stateAt h hstep hi, if_pos hreached]
    · have hnext := hI i hinit (Bool.eq_false_of_not_eq_true hreached)
      have hle := w.advance_le i
      by_cases hmore : i < w.advance i
      · obtain ⟨fuel, stop, hiter, hstop⟩ := ih _ (by omega) hle hnext rfl
        refine ⟨fuel + 1, stop, ?_, hstop⟩
        rw [iterFrom_stateAt h hstep hi, if_neg hreached, if_pos hmore, hiter]
      · have hsame : w.range.take (w.advance i) = w.range.take i := by
          unfold advance at hmore ⊢
          rw [take_eq_take_iff]
          split_ifs at * <;> omega
        refine ⟨1, i, ?_, hinit, hi, Or.inr (Nat.not_lt.mp hmore)⟩
        rw [iterFrom_stateAt h hstep hi, if_neg hreached, if_neg hmore, hsame]

theorem iterFrom_unique (w : RangeQuerySetWrapper Row) {fuel fuel' : ℕ} {s : Loop Row}
    {rows rows' : List Row} (h : w.iterFrom fuel s = some rows)
    (h' : w.iterFrom fuel' s = some rows') : rows = rows' := by
  induction fuel generalizing fuel' s with
  | zero => exact absurd h.symm (Option.some_ne_none rows)
  | succ fuel ih =>
    cases fuel' with
    | zero => exact absurd h'.symm (Option.some_ne_none rows')
    | succ fuel' =>
      rw [iterFrom] at h h'
      dsimp only at h h'
      split_ifs at h h'
      · exact Option.some.inj (h.symm.trans h')
      · exact Option.some.inj (h.symm.trans h')
      · exact ih h h'
      · exact Option.some.inj (h.symm.trans h')

theorem exists_stop (h : w.GetsColumn) (hstep : 1 ≤ w.step) {I : ℕ → Prop}
    (hI : ∀ i, I i → w.reached i = false → I (w.advance i)) (hinit : I 0) :
    ∃ stop, I stop ∧ stop ≤ w.range.length ∧ (w.reached stop = true ∨ w.advance stop ≤ stop) ∧
      (w.IteratesRange ↔ stop = w.limit.elim w.range.length (min w.range.length ·)) := by
  obtain ⟨fuel, stop, hiter, hstop, hle, hend⟩ :=
    exists_iterFrom h hstep hI (Nat.zero_le _) hinit
  have hstart : w.stateAt 0 = ⟨w.minValue, 0, none, []⟩ := rfl
  refine ⟨stop, hstop, hle, hend, ?_⟩
  have hrows : w.IteratesRange ↔ w.range.take stop = w.limit.elim w.range (w.range.take ·) := by
    constructor
    · rintro ⟨fuel', hiter'⟩
      exact w.iterFrom_unique hiter hiter'
    · intro hrows
      refine ⟨fuel, ?_⟩
      rw [← hrows, ← hiter, hstart, iter]
  rw [hrows]
  cases w.limit with
  | none =>
    constructor
    · intro hall
      have hlength := congrArg List.length hall
      rw [length_take] at hlength
      exact (min_eq_left hle).symm.trans hlength
    · intro hall
      rw [hall]
      exact take_length
  | some limit =>
    simp only [Option.elim_some, take_eq_take_iff]
    omega

theorem reached_iff (hlimit : ∀ limit ∈ w.limit, 1 ≤ limit) (num : ℕ) :
    w.reached num = true ↔ ∃ limit ∈ w.limit, limit ≤ num := by
  unfold reached truthy
  cases hcases : w.limit with
  | none => simp
  | some limit =>
    have hpos := hlimit limit hcases
    simp only [Option.any_some, Option.getD_some, Option.mem_def, Option.some.injEq,
      Bool.and_eq_true, decide_eq_true_eq, exists_eq_left', and_iff_right_iff_imp]
    omega

theorem iteratesRange_iff_of_step_one (h : w.GetsColumn) (hstep : w.step = 1)
    (hlimit : ∀ limit ∈ w.limit, 1 ≤ limit) :
    w.IteratesRange ↔ w.limit = some 1 ∨ w.range.length ≤ 1 := by
  have hadvance (i : ℕ) : w.advance i = min w.range.length (max i 1) := by
    unfold advance
    split_ifs <;> omega
  obtain ⟨stop, hone, hle, hend, hiff⟩ := exists_stop h hstep.ge (I := (· ≤ 1))
    (fun i hi _ ↦ by rw [hadvance]; omega) (Nat.zero_le 1)
  have hstop : stop = min w.range.length 1 := by
    rw [reached_iff hlimit, hadvance] at hend
    rcases hend with ⟨limit, hmem, hreached⟩ | hend
    · have hpos := hlimit limit hmem
      omega
    · omega
  rw [hiff, hstop]
  cases hcases : w.limit with
  | none =>
    simp only [Option.elim_none, reduceCtorEq, false_or]
    omega
  | some limit =>
    have hpos := hlimit limit hcases
    simp only [Option.elim_some, Option.some.injEq]
    omega

/-- The positions after batches: a batch of one row less than the step has followed another, and a
limit where a batch ends is not passed. -/
def Placed (w : RangeQuerySetWrapper Row) (i : ℕ) : Prop :=
  (i = 0 ∨ i = w.range.length ∨ w.step - 1 ∣ i - 1) ∧
    ∀ limit ∈ w.limit, w.step - 1 ∣ limit - 1 → i ≤ limit

theorem placed_advance (hstep : 2 ≤ w.step) (hlimit : ∀ limit ∈ w.limit, w.step ≤ limit)
    (h : w.Placed i) (hreached : ¬ ∃ limit ∈ w.limit, limit ≤ i) : w.Placed (w.advance i) := by
  obtain ⟨hplace, -⟩ := h
  unfold Placed advance
  by_cases hzero : i = 0
  · rw [if_pos hzero]
    refine ⟨?_, fun limit hmem _ ↦ (min_le_right _ _).trans (hlimit limit hmem)⟩
    rcases min_choice w.range.length w.step with heq | heq
    · exact Or.inr (Or.inl heq)
    · exact Or.inr (Or.inr (by rw [heq]))
  · rw [if_neg hzero]
    rcases hplace with hfirst | hall | hdvd
    · exact absurd hfirst hzero
    · have hend : min w.range.length (i - 1 + w.step) = i := by omega
      rw [hend]
      exact ⟨Or.inr (Or.inl hall), fun limit hmem _ ↦
        Nat.le_of_not_le fun hle ↦ hreached ⟨limit, hmem, hle⟩⟩
    · have hnext : i - 1 + w.step - 1 = (i - 1) + (w.step - 1) := by omega
      refine ⟨?_, fun limit hmem hlimitDvd ↦ ?_⟩
      · rcases min_choice w.range.length (i - 1 + w.step) with heq | heq
        · exact Or.inr (Or.inl heq)
        · refine Or.inr (Or.inr ?_)
          rw [heq, hnext]
          exact (Nat.dvd_add_right hdvd).mpr dvd_rfl
      · have hlt : i < limit := Nat.lt_of_not_le fun hle ↦ hreached ⟨limit, hmem, hle⟩
        have hgap : w.step - 1 ∣ (limit - 1) - (i - 1) := Nat.dvd_sub hlimitDvd hdvd
        have hfits := Nat.le_of_dvd (by omega) hgap
        omega

theorem iteratesRange_iff_of_step_two (h : w.GetsColumn) (hstep : 2 ≤ w.step)
    (hlimit : ∀ limit ∈ w.limit, w.step ≤ limit) :
    w.IteratesRange ↔ ∀ limit ∈ w.limit, w.step - 1 ∣ limit - 1 ∨ w.range.length ≤ limit := by
  have hpos : ∀ limit ∈ w.limit, 1 ≤ limit := fun limit hmem ↦
    (Nat.le_of_succ_le hstep).trans (hlimit limit hmem)
  have hinvariant : ∀ i, w.Placed i → w.reached i = false → w.Placed (w.advance i) := by
    intro i hi hreached
    refine placed_advance hstep hlimit hi fun hexists ↦ ?_
    rw [(reached_iff hpos i).mpr hexists] at hreached
    exact Bool.false_ne_true hreached.symm
  obtain ⟨stop, ⟨hplace, hwithin⟩, hle, hend, hiff⟩ := exists_stop h (Nat.le_of_succ_le hstep)
    hinvariant ⟨Or.inl rfl, fun limit _ _ ↦ Nat.zero_le limit⟩
  have hend : stop = w.range.length ∨ ∃ limit ∈ w.limit, limit ≤ stop := by
    rw [reached_iff hpos] at hend
    refine hend.symm.imp_left fun hstay ↦ ?_
    unfold advance at hstay
    split_ifs at hstay <;> omega
  rw [hiff]
  cases hcases : w.limit with
  | none =>
    rw [hcases] at hend
    refine iff_of_true (hend.resolve_right ?_) fun limit hmem ↦ absurd hmem (Option.not_mem_none _)
    rintro ⟨limit, hmem, -⟩
    exact Option.not_mem_none limit hmem
  | some limit =>
    rw [hcases] at hend hpos hwithin
    have hpos := hpos limit rfl
    have hend : stop = w.range.length ∨ limit ≤ stop := by
      refine hend.imp_right ?_
      rintro ⟨other, hmem, hreached⟩
      exact Option.some.inj hmem ▸ hreached
    simp only [Option.elim_some, Option.mem_def, Option.some.injEq, forall_eq']
    constructor
    · intro hstop
      by_cases hmore : w.range.length ≤ limit
      · exact Or.inr hmore
      · refine Or.inl ?_
        have hlimitStop : stop = limit := by omega
        rcases hplace with hzero | hall | hdvd
        · omega
        · omega
        · rwa [hlimitStop] at hdvd
    · rintro (hdvd | hshort)
      · have hstop := hwithin limit rfl hdvd
        omega
      · omega

end Batches

/-! ### Wrappers as they are made -/

section Create

variable {queryset : Queryset Row} {step : ℤ} {limit : Option ℕ} {minId : Option ℤ}
  {resultValueGetter : Option (Row → ℤ)} {overrideUniqueSafetyCheck : Bool}
  {w : RangeQuerySetWrapper Row}

theorem create_spec (h : create queryset step limit minId resultValueGetter
    overrideUniqueSafetyCheck = .ok w) :
    w.limit = limit.or queryset.highMark ∧
      w.step = if truthy w.limit then min (w.limit.getD 0) step.natAbs else step.natAbs := by
  have hlimit : (if limit.isNone then queryset.highMark else limit) =
      limit.or queryset.highMark := by
    cases limit <;> rfl
  rw [create, hlimit] at h
  split at h
  · split at h
    · cases h
    · rw [← Except.ok.inj h]
      exact ⟨rfl, rfl⟩
  · cases h

/-- Iterating yields the rows of the range in order, up to the limit, if and only if the batches end
at the limit or no rows are behind it, and unless a step of one row hides more than one row. -/
theorem iteratesRange_iff (hstep : step ≠ 0)
    (hlimit : ∀ rows ∈ limit.or queryset.highMark, 1 ≤ rows)
    (hcreate : create queryset step limit minId resultValueGetter overrideUniqueSafetyCheck =
      .ok w) (hgetter : w.GetsColumn) :
    w.IteratesRange ↔ Exact step.natAbs (limit.or queryset.highMark) w.range.length := by
  obtain ⟨hlimitEq, hstepEq⟩ := create_spec hcreate
  rw [← hlimitEq] at hlimit ⊢
  have hpos : 1 ≤ step.natAbs := Int.natAbs_pos.mpr hstep
  unfold Exact
  cases hcases : w.limit with
  | none =>
    rw [hcases] at hstepEq hlimit
    have hsame : w.step = step.natAbs := hstepEq
    rcases Nat.lt_or_ge 1 step.natAbs with htwo | hone
    · refine iff_of_true ?_ (Or.inl htwo)
      refine (iteratesRange_iff_of_step_two hgetter (hsame ▸ htwo) ?_).mpr ?_ <;> rw [hcases] <;>
        exact fun rows hrows ↦ absurd hrows (Option.not_mem_none rows)
    · have hshort : ¬ 2 ≤ step.natAbs := Nat.not_le.mpr (Nat.lt_succ_of_le hone)
      rw [iteratesRange_iff_of_step_one hgetter (by omega) (hcases ▸ hlimit), hcases,
        or_iff_right hshort, or_iff_right (Option.some_ne_none 1).symm]
  | some rows =>
    rw [hcases] at hstepEq hlimit
    have hrows := hlimit rows rfl
    have htruthy : truthy (some rows) = true := decide_eq_true (by omega)
    have hsame : w.step = min rows step.natAbs := hstepEq.trans (if_pos htruthy)
    dsimp only
    rw [← hsame]
    have hpositive : 1 ≤ w.step := by omega
    rcases Nat.lt_or_ge 1 w.step with htwo | hone
    · rw [iteratesRange_iff_of_step_two hgetter htwo ?_, hcases]
      · simp only [Option.mem_def, Option.some.injEq, forall_eq']
        omega
      · rw [hcases]
        intro other hother
        rw [← Option.some.inj hother, hsame]
        exact min_le_left _ _
    · have hstepOne : w.step = 1 := Nat.le_antisymm hone hpositive
      rw [iteratesRange_iff_of_step_one hgetter hstepOne (hcases ▸ hlimit), hcases, hstepOne,
        Nat.sub_self, Nat.zero_dvd]
      simp only [Option.some.injEq]
      omega

end Create

/-! ### A limit within a batch -/

/-- Five rows. -/
def fiveRows : Queryset ℤ where
  rows := [1, 2, 3, 4, 5]
  pk := id
  column := id
  columnUnique := true
  lowMark := 0
  highMark := none
  ordered := false
  sorted := by decide
  nodup := by decide

/-- Four of them, in batches of three. -/
def fourInThrees : RangeQuerySetWrapper ℤ where
  queryset := fiveRows
  limit := some 4
  step := 3
  desc := false
  minValue := none
  resultValueGetter := none

theorem iteratesRange_iff_fourInThrees :
    fourInThrees.IteratesRange ↔ Exact 3 (some 4) fourInThrees.range.length := by
  have hcreate : create fiveRows 3 (some 4) none none false = .ok fourInThrees := rfl
  exact iteratesRange_iff (by decide) (by decide) hcreate nofun

/-- The second batch brings the fifth row. -/
theorem fourInThrees_not_iteratesRange :
    create fiveRows 3 (some 4) none none false = .ok fourInThrees ∧
      ¬ fourInThrees.IteratesRange := by
  refine ⟨rfl, ?_⟩
  rintro ⟨fuel, hiter⟩
  have hfive : fourInThrees.iter 3 = some [1, 2, 3, 4, 5] := by decide
  have hrows := fourInThrees.iterFrom_unique hfive hiter
  exact absurd hrows (by decide)

end RangeQuerySetWrapper

end Sentry.Utils
