import Sentry.Library.SortedSublist

/-!
# Pages of a sequence

`SequencePaginator` of `api/paginator.py`, in descending order as issue search uses it, with
`reverse_bisect_left` and the cursors. A cursor is a score and a number of groups to skip; with the
groups at or below its score only, as a query with that cursor finds them, the page starts right
behind those skipped.
-/

namespace Sentry.Search

open Library List

variable {α : Type*} [LinearOrder α] [Zero α]

/-- A group with its score. -/
structure ScoredGroup (α : Type*) where
  groupId : ℕ
  score : α
  deriving DecidableEq

structure Cursor (α : Type*) where
  value : α
  offset : ℕ
  isPrev : Bool
  hasResults : Bool

/-- `CursorResult`, with the ids of the groups and without hits. -/
structure CursorResult (α : Type*) where
  results : List ℕ
  prev : Cursor α
  next : Cursor α

/-- The loop of `reverse_bisect_left`, with at most so many rounds. -/
def reverseBisectLoop (a : List α) (x : α) : ℕ → ℕ → ℕ → ℕ
  | 0, lo, _ => lo
  | rounds + 1, lo, hi =>
    if lo < hi then
      let mid := (lo + hi) / 2
      match a[mid]? with
      | some y =>
        if x < y then reverseBisectLoop a x rounds (mid + 1) hi
        else reverseBisectLoop a x rounds lo mid
      | none => lo
    else lo

/-- `reverse_bisect_left`, from position 0. -/
def reverseBisectLeft (a : List α) (x : α) (hi : ℕ) : ℕ :=
  reverseBisectLoop a x (min hi a.length) 0 (min hi a.length)

omit [Zero α] in
theorem reverseBisectLoop_eq {a : List α} {x : α} {n top : ℕ} (htop : top ≤ a.length)
    (hn : ∀ i (hi : i < top), x < a[i] ↔ i < n) {rounds lo hi : ℕ} (hrounds : hi - lo ≤ rounds)
    (hlo : lo ≤ n) (hhi : n ≤ hi) (hle : hi ≤ top) : reverseBisectLoop a x rounds lo hi = n := by
  induction rounds generalizing lo hi with
  | zero =>
    rw [reverseBisectLoop]
    omega
  | succ rounds ih =>
    rw [reverseBisectLoop]
    by_cases hlt : lo < hi
    · have hmid : (lo + hi) / 2 < top := by omega
      rw [if_pos hlt]
      simp only [getElem?_eq_getElem (hmid.trans_le htop)]
      by_cases hx : x < a[(lo + hi) / 2]
      · rw [if_pos hx]
        have hbelow : (lo + hi) / 2 < n := (hn _ hmid).mp hx
        exact ih (by omega) hbelow hhi hle
      · rw [if_neg hx]
        have habove : n ≤ (lo + hi) / 2 := not_lt.mp fun h ↦ hx ((hn _ hmid).mpr h)
        exact ih (by omega) hlo habove (by omega)
    · rw [if_neg hlt]
      omega

omit [Zero α] in
theorem reverseBisectLeft_eq {a : List α} (ha : a.Pairwise fun y z ↦ z ≤ y) (x : α) (hi : ℕ) :
    reverseBisectLeft a x hi = (a.take hi).countP fun y ↦ x < y := by
  have hlarger : (a.take hi).Pairwise fun y z ↦ decide (x < z) = true → decide (x < y) = true := by
    refine (ha.sublist (take_sublist hi a)).imp fun hzy hz ↦ ?_
    exact decide_eq_true (lt_of_lt_of_le (of_decide_eq_true hz) hzy)
  have hlength : (a.take hi).length = min hi a.length := length_take
  apply reverseBisectLoop_eq (min_le_right hi a.length)
  · intro i hi'
    have hi'' : i < (a.take hi).length := hlength ▸ hi'
    rw [← getElem_iff_lt_countP hlarger hi'', getElem_take, decide_eq_true_eq]
  · exact le_rfl
  · exact Nat.zero_le _
  · exact hlength ▸ countP_le_length
  · exact le_rfl

def ScoredGroup.Precedes (a b : ScoredGroup α) : Prop :=
  b.score < a.score ∨ (b.score = a.score ∧ b.groupId ≤ a.groupId)

instance (a b : ScoredGroup α) : Decidable (a.Precedes b) :=
  inferInstanceAs (Decidable (_ ∨ _))

/-- `sorted(data, reverse=True)`. -/
def descending (data : List (ScoredGroup α)) : List (ScoredGroup α) :=
  data.insertionSort ScoredGroup.Precedes

/-- `position` of `get_result`. -/
def startPosition (scores : List α) (cursor : Cursor α) : ℕ :=
  (if cursor.value = 0 then (if cursor.isPrev then scores.length else 0)
    else reverseBisectLeft scores cursor.value scores.length) + cursor.offset

/-- `SequencePaginator(data, reverse=True, max_limit=max_limit).get_result(limit, cursor)`. -/
def getResult (maxLimit limit : ℕ) (cursor : Option (Cursor α)) (data : List (ScoredGroup α)) :
    CursorResult α :=
  let sorted := descending data
  let scores := sorted.map ScoredGroup.score
  let values := sorted.map ScoredGroup.groupId
  let limit := min limit maxLimit
  let cursor := cursor.getD ⟨0, 0, false, false⟩
  let position := startPosition scores cursor
  let lo := if cursor.isPrev then min position scores.length - limit else position
  let hi := if cursor.isPrev then min position scores.length else min (lo + limit) scores.length
  let prevScore := scores.getD (min lo (scores.length - 1)) 0
  let nextScore := scores.getD (min hi (scores.length - 1)) 0
  { results := (values.take hi).drop lo
    prev :=
      if scores = [] then ⟨cursor.value, cursor.offset, true, false⟩
      else ⟨prevScore, lo - reverseBisectLeft scores prevScore lo, true, 0 < lo⟩
    next :=
      if scores = [] then ⟨cursor.value, cursor.offset, false, false⟩
      else ⟨nextScore, hi - reverseBisectLeft scores nextScore hi, false, hi < scores.length⟩ }

omit [Zero α] in
theorem ScoredGroup.Precedes.score_le {a b : ScoredGroup α} (h : a.Precedes b) :
    b.score ≤ a.score := by
  rcases h with hlt | ⟨heq, _⟩
  · exact hlt.le
  · exact heq.le

instance : Std.Total (ScoredGroup.Precedes (α := α)) := by
  refine ⟨fun a b ↦ ?_⟩
  rcases lt_trichotomy a.score b.score with hlt | heq | hgt
  · exact Or.inr (Or.inl hlt)
  · rcases le_total a.groupId b.groupId with hle | hle
    · exact Or.inr (Or.inr ⟨heq, hle⟩)
    · exact Or.inl (Or.inr ⟨heq.symm, hle⟩)
  · exact Or.inl (Or.inl hgt)

instance : IsTrans (ScoredGroup α) ScoredGroup.Precedes := by
  refine ⟨fun a b c hab hbc ↦ ?_⟩
  rcases hab with hab | ⟨hab, hab'⟩
  · exact Or.inl (lt_of_le_of_lt hbc.score_le hab)
  · rcases hbc with hbc | ⟨hbc, hbc'⟩
    · exact Or.inl (hab ▸ hbc)
    · exact Or.inr ⟨hbc.trans hab, hbc'.trans hab'⟩

instance : Std.Antisymm (ScoredGroup.Precedes (α := α)) := by
  refine ⟨fun a b hab hba ↦ ?_⟩
  have hscore : a.score = b.score := le_antisymm hba.score_le hab.score_le
  have hid : a.groupId = b.groupId := by
    apply le_antisymm
    · exact (hba.resolve_left hscore.not_lt).2
    · exact (hab.resolve_left hscore.symm.not_lt).2
  cases a
  cases b
  exact congrArg₂ ScoredGroup.mk hid hscore

def skipped (cursor : Option (Cursor α)) : ℕ := (cursor.map Cursor.offset).getD 0

section

variable (maxLimit limit : ℕ) {cursor : Option (Cursor α)} {data : List (ScoredGroup α)}

omit [Zero α] in
theorem pairwise_descending (data : List (ScoredGroup α)) :
    (descending data).Pairwise ScoredGroup.Precedes := pairwise_insertionSort _ data

omit [Zero α] in
theorem descending_perm (data : List (ScoredGroup α)) : (descending data).Perm data :=
  perm_insertionSort _ data

omit [Zero α] in
theorem reverseBisectLeft_descending (data : List (ScoredGroup α)) (x : α) (hi : ℕ) :
    reverseBisectLeft ((descending data).map ScoredGroup.score) x hi =
      ((descending data).take hi).countP fun g ↦ x < g.score := by
  have hscores : ((descending data).map ScoredGroup.score).Pairwise fun y z ↦ z ≤ y :=
    pairwise_map.mpr ((pairwise_descending data).imp fun h ↦ h.score_le)
  rw [reverseBisectLeft_eq hscores, ← map_take, countP_map]
  rfl

def Below (cursor : Option (Cursor α)) (data : List (ScoredGroup α)) : Prop :=
  ∀ c, cursor = some c → c.isPrev = false ∧ ∀ g ∈ data, g.score ≤ c.value

theorem startPosition_eq (h : Below cursor data) :
    startPosition ((descending data).map ScoredGroup.score) (cursor.getD ⟨0, 0, false, false⟩) =
      skipped cursor := by
  cases cursor with
  | none => simp [startPosition, skipped]
  | some c =>
    obtain ⟨hnext, hscores⟩ := h c rfl
    have hnone : ((descending data).take (descending data).length).countP
        (fun g ↦ decide (c.value < g.score)) = 0 := by
      rw [countP_eq_zero]
      intro g hg hlt
      have hmem : g ∈ data := (descending_perm data).mem_iff.mp (mem_of_mem_take hg)
      exact absurd (of_decide_eq_true hlt) (not_lt.mpr (hscores g hmem))
    rw [Option.getD_some, startPosition, length_map, reverseBisectLeft_descending, hnone, hnext]
    simp [skipped]

theorem getResult_eq (h : Below cursor data) :
    let found := descending data
    let hi := min (skipped cursor + min limit maxLimit) found.length
    let nextScore := (found.map ScoredGroup.score).getD (min hi (found.length - 1)) 0
    (getResult maxLimit limit cursor data).results =
        ((found.take hi).drop (skipped cursor)).map ScoredGroup.groupId ∧
      (getResult maxLimit limit cursor data).next =
        if found = [] then
          ⟨(cursor.getD ⟨0, 0, false, false⟩).value, skipped cursor, false, false⟩
        else ⟨nextScore, hi - (found.take hi).countP (fun g ↦ nextScore < g.score), false,
          hi < found.length⟩ := by
  have hprev : (cursor.getD ⟨0, 0, false, false⟩).isPrev = false := by
    cases cursor with
    | none => rfl
    | some c => exact (h c rfl).1
  have hoffset : (cursor.getD ⟨0, 0, false, false⟩).offset = skipped cursor := by
    cases cursor <;> rfl
  simp only [getResult, hprev, hoffset, startPosition_eq h, length_map, Bool.false_eq_true,
    if_false, reverseBisectLeft_descending, map_eq_nil_iff, map_drop, map_take, and_self]

end

end Sentry.Search
