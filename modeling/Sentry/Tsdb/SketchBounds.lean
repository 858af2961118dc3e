import Sentry.Tsdb.CountMinSketch
import Mathlib.Algebra.BigOperators.Group.List.Lemmas
import Mathlib.Tactic.Linarith

/-!
# Bounds of a sketch

A sketch bounds what was added to it (`Bounded`): the scores of the index do, and so do all
observations of an item once there is a matrix; before, an item that is not in the index was not
added. `increment` and `importPayload` keep the bounds, the first for more to be bounded by the
increments, the second by what the payload bounds.
-/

namespace Sentry.Tsdb.CountMin

open Library List

variable {Item : Type*}

/-! ### Observations -/

theorem observations_setItem (estimates : Estimates) (c c' : Coordinate) (value : ℚ) :
    observations (setItem c value estimates) c' =
      if c = c' then value else observations estimates c' := by
  rw [observations, getItem_setItem]
  by_cases hc : c = c'
  · rw [if_pos hc, if_pos hc, Option.getD_some]
  · rw [if_neg hc, if_neg hc, observations]

@[simp] theorem observations_nil (c : Coordinate) : observations [] c = 0 := rfl

variable {estimates : Estimates}

theorem le_observations_setItem {c : Coordinate} {value : ℚ}
    (hle : observations estimates c ≤ value) (c' : Coordinate) :
    observations estimates c' ≤ observations (setItem c value estimates) c' := by
  rw [observations_setItem]
  by_cases hc : c = c'
  · rw [if_pos hc, ← hc]
    exact hle
  · rw [if_neg hc]

/-- An update of the matrix lowers no observation, and afterwards those of the item are at least its
score. -/
structure Raised (before after : Estimates) (cs : List Coordinate) (score : ℚ) : Prop where
  le : ∀ c, observations before c ≤ observations after c
  score_le : ∀ c ∈ cs, score ≤ observations after c
  nodup : (before.map Prod.fst).Nodup → (after.map Prod.fst).Nodup
  ne_nil : before ≠ [] → after ≠ []

theorem raised_updateEstimates (estimates : Estimates) (cs : List Coordinate) (score : ℚ) :
    Raised estimates (updateEstimates estimates cs score) cs score := by
  have hfold : ∀ (l : List Coordinate) (current : Estimates),
      (∀ c, observations estimates c ≤ observations current c) →
      ((estimates.map Prod.fst).Nodup → (current.map Prod.fst).Nodup) →
      (estimates ≠ [] → current ≠ []) →
      ∀ done : List Coordinate, (∀ c ∈ done, score ≤ observations current c) →
        Raised estimates ((l.map fun c ↦ (c, observations estimates c)).foldl
          (fun current item ↦ if item.2 ≠ max score item.2 then
            setItem item.1 (max score item.2) current else current) current) (done ++ l) score := by
    intro l
    induction l with
    | nil =>
      intro current hle hnodup hne done hdone
      exact ⟨hle, fun c hc ↦ hdone c (by simpa using hc), hnodup, hne⟩
    | cons c rest ih =>
      intro current hle hnodup hne done hdone
      rw [map_cons, foldl_cons, append_cons]
      by_cases hmax : observations estimates c = max score (observations estimates c)
      · rw [if_neg (not_not.mpr hmax)]
        refine ih current hle hnodup hne _ fun c' hc' ↦ ?_
        rcases mem_append.mp hc' with hold | hnew
        · exact hdone c' hold
        · rw [mem_singleton.mp hnew]
          exact (le_max_left _ _).trans (hmax.ge.trans (hle c))
      · rw [if_pos hmax]
        refine ih _ (fun c' ↦ ?_) (fun h ↦ nodup_keys_setItem (hnodup h) _ _)
          (fun _ ↦ setItem_ne_nil _ _ _) _ fun c' hc' ↦ ?_
        · rw [observations_setItem]
          by_cases hc : c = c'
          · rw [if_pos hc, ← hc]
            exact le_max_right _ _
          · rw [if_neg hc]
            exact hle c'
        · rw [observations_setItem]
          by_cases hc : c = c'
          · rw [if_pos hc]
            exact le_max_left _ _
          · rw [if_neg hc]
            rcases mem_append.mp hc' with hold | hnew
            · exact hdone c' hold
            · exact absurd (mem_singleton.mp hnew).symm hc
  exact hfold cs estimates (fun _ ↦ le_refl _) id id [] (by simp)

/-- The loop of `derive` over the coordinates of a member. -/
theorem raised_derive_member (estimates : Estimates) (cs : List Coordinate) (score : ℚ) :
    Raised estimates (cs.foldl (fun current c ↦
      if observations current c < score then setItem c score current else current) estimates) cs
      score := by
  induction cs generalizing estimates with
  | nil => exact ⟨fun _ ↦ le_refl _, by simp, id, id⟩
  | cons c rest ih =>
    rw [foldl_cons]
    by_cases hlt : observations estimates c < score
    · rw [if_pos hlt]
      have hrest := ih (setItem c score estimates)
      refine ⟨fun c' ↦ (le_observations_setItem hlt.le c').trans (hrest.le c'), fun c' hc' ↦ ?_,
        fun h ↦ hrest.nodup (nodup_keys_setItem h _ _), fun _ ↦ hrest.ne_nil (setItem_ne_nil _ _ _)⟩
      rcases mem_cons.mp hc' with rfl | hmem
      · refine le_trans ?_ (hrest.le c')
        rw [observations_setItem, if_pos rfl]
      · exact hrest.score_le c' hmem
    · rw [if_neg hlt]
      have hrest := ih estimates
      refine ⟨hrest.le, fun c' hc' ↦ ?_, hrest.nodup, hrest.ne_nil⟩
      rcases mem_cons.mp hc' with rfl | hmem
      · exact (not_lt.mp hlt).trans (hrest.le c')
      · exact hrest.score_le c' hmem

theorem raised_foldl {cs : Item → List Coordinate} {f : Estimates → Item × ℚ → Estimates}
    (hf : ∀ estimates member, Raised estimates (f estimates member) (cs member.1) member.2)
    (members : List (Item × ℚ)) (estimates : Estimates) :
    (∀ c, observations estimates c ≤ observations (members.foldl f estimates) c) ∧
    (∀ member ∈ members, ∀ c ∈ cs member.1, member.2 ≤ observations (members.foldl f estimates) c) ∧
    ((estimates.map Prod.fst).Nodup → ((members.foldl f estimates).map Prod.fst).Nodup) := by
  induction members generalizing estimates with
  | nil => exact ⟨fun _ ↦ le_refl _, by simp, id⟩
  | cons first rest ih =>
    have hfirst := hf estimates first
    obtain ⟨hle, hscores, hnodup⟩ := ih (f estimates first)
    refine ⟨fun c ↦ (hfirst.le c).trans (hle c), fun member hmember c hc ↦ ?_,
      fun h ↦ hnodup (hfirst.nodup h)⟩
    rcases mem_cons.mp hmember with rfl | hrest
    · exact (hfirst.score_le c hc).trans (hle c)
    · exact hscores member hrest c hc

variable [LinearOrder Item]

theorem minObservation_le {cs : List Coordinate} {score bound : ℚ}
    (hscore : minObservation estimates cs = some score)
    (hbound : ∀ c ∈ cs, bound ≤ observations estimates c) : bound ≤ score := by
  have hmem : score ∈ cs.map (observations estimates) := min?_mem hscore
  obtain ⟨c, hc, rfl⟩ := mem_map.mp hmem
  exact hbound c hc

theorem exists_minObservation (estimates : Estimates) {cs : List Coordinate} (hne : cs ≠ []) :
    ∃ score, minObservation estimates cs = some score := by
  refine Option.isSome_iff_exists.mp ?_
  rw [minObservation, isSome_min?_iff]
  simpa using hne

/-! ### Totals -/

theorem itemsTotal_cons (first : Item × ℚ) (rest : List (Item × ℚ)) (value : Item) :
    itemsTotal (first :: rest) value =
      (if first.1 = value then first.2 else 0) + itemsTotal rest value := by
  unfold itemsTotal
  by_cases h : first.1 = value
  · simp [h]
  · simp [h]

variable {items : List (Item × ℚ)} {value : Item}

theorem itemsTotal_of_notMem (h : value ∉ items.map Prod.fst) : itemsTotal items value = 0 := by
  induction items with
  | nil => rfl
  | cons first rest ih =>
    rw [map_cons, mem_cons, not_or] at h
    rw [itemsTotal_cons, if_neg (Ne.symm h.1), ih h.2, add_zero]

theorem itemsTotal_of_mem (hnodup : (items.map Prod.fst).Nodup)
    {item : Item × ℚ} (h : item ∈ items) : itemsTotal items item.1 = item.2 := by
  induction items with
  | nil => simp at h
  | cons first rest ih =>
    obtain ⟨hfresh, hrest⟩ := nodup_cons.mp hnodup
    rw [itemsTotal_cons]
    rcases mem_cons.mp h with rfl | hmem
    · rw [if_pos rfl, itemsTotal_of_notMem hfresh, add_zero]
    · have hne : first.1 ≠ item.1 := fun heq ↦ hfresh (heq ▸ mem_map_of_mem hmem)
      rw [if_neg hne, zero_add]
      exact ih hrest hmem

/-! ### Bounded sketches -/

/-- What a sketch bounds. -/
structure Bounded (cs : Item → List Coordinate) (capacity : ℕ) (sketch : Sketch Item)
    (total : Item → ℚ) : Prop where
  index : ∀ value score, sketch.index.score value = some score → total value ≤ score
  nonneg : ∀ c, 0 ≤ observations sketch.estimates c
  nodup : (sketch.estimates.map Prod.fst).Nodup
  exact : sketch.estimates = [] →
    (∀ value score, sketch.index.score value = some score → 0 < score) ∧
    (∀ value, value ∉ sketch.index → total value ≤ 0) ∧
    (sketch.index.card < capacity ∨ sketch.index.card = 0)
  matrix : sketch.estimates ≠ [] →
    (∀ value, ∀ c ∈ cs value, total value ≤ observations sketch.estimates c) ∧
    sketch.index.card = capacity

variable {cs : Item → List Coordinate} {capacity : ℕ} {sketch : Sketch Item} {total : Item → ℚ}

theorem Bounded.mono (h : Bounded cs capacity sketch total) {total' : Item → ℚ}
    (hle : ∀ value, total' value ≤ total value) : Bounded cs capacity sketch total' where
  index value score hscore := (hle value).trans (h.index value score hscore)
  nonneg := h.nonneg
  nodup := h.nodup
  exact hnil := by
    obtain ⟨hpos, hout, hcard⟩ := h.exact hnil
    exact ⟨hpos, fun value hvalue ↦ (hle value).trans (hout value hvalue), hcard⟩
  matrix hne := by
    obtain ⟨hbound, hcard⟩ := h.matrix hne
    exact ⟨fun value c hc ↦ (hle value).trans (hbound value c hc), hcard⟩

theorem Bounded.le_estimate (h : Bounded cs capacity sketch total) (hcs : ∀ value, cs value ≠ [])
    (value : Item) : ∃ score, estimate cs sketch value = some score ∧ total value ≤ score := by
  show ∃ score, (sketch.index.score value).or (minObservation sketch.estimates (cs value)) =
    some score ∧ total value ≤ score
  cases hscore : sketch.index.score value with
  | some score => exact ⟨score, rfl, h.index value score hscore⟩
  | none =>
    obtain ⟨score, hmin⟩ := exists_minObservation sketch.estimates (hcs value)
    refine ⟨score, hmin, minObservation_le hmin fun c hc ↦ ?_⟩
    by_cases hnil : sketch.estimates = []
    · have hout := (h.exact hnil).2.1 value ((sketch.index.score_eq_none_iff value).mp hscore)
      exact hout.trans (h.nonneg c)
    · exact (h.matrix hnil).1 value c hc

theorem Bounded.matrix_of_le (h : Bounded cs capacity sketch total)
    (hfull : capacity ≤ sketch.index.card) :
    (∀ value, ∀ c ∈ cs value, total value ≤ observations sketch.estimates c) ∧
      sketch.index.card = capacity := by
  by_cases hnil : sketch.estimates = []
  · obtain ⟨-, hout, hcard⟩ := h.exact hnil
    have hzero : sketch.index.card = 0 := hcard.resolve_left (Nat.not_lt.mpr hfull)
    refine ⟨fun value c _ ↦ ?_, by omega⟩
    exact (hout value ((sketch.index.card_eq_zero_iff).mp hzero value)).trans (h.nonneg c)
  · exact h.matrix hnil

/-! ### The exact index -/

/-- An index that has every item that was added. -/
structure ExactIndex (index : SortedSet Item ℚ) (total : Item → ℚ) : Prop where
  pos : ∀ value score, index.score value = some score → 0 < score
  le : ∀ value score, index.score value = some score → total value ≤ score
  out : ∀ value, value ∉ index → total value ≤ 0

variable {index : SortedSet Item ℚ}

theorem getD_score_eq_zero_iff (h : ExactIndex index total)
    (value : Item) : (index.score value).getD 0 = 0 ↔ value ∉ index := by
  cases hscore : index.score value with
  | none => simp [(index.score_eq_none_iff value).mp hscore]
  | some score =>
    have hmem : value ∈ index := (index.mem_iff_exists_score value).mpr ⟨score, hscore⟩
    simp [hmem, (h.pos value score hscore).ne']

/-- `ZINCRBY` adds to the score of an item, and finds whether it was there. -/
theorem exactIndex_zincrBy (h : ExactIndex index total) (n : ℕ)
    {item : Item × ℚ} (hpos : 0 < item.2) :
    ExactIndex (zincrBy (index, n) item).1
        (fun value ↦ total value + if item.1 = value then item.2 else 0) ∧
      (zincrBy (index, n) item).2 + index.card = n + (zincrBy (index, n) item).1.card := by
  have hold : 0 ≤ (index.score item.1).getD 0 ∧ total item.1 ≤ (index.score item.1).getD 0 := by
    cases hscore : index.score item.1 with
    | none => exact ⟨le_refl _, h.out item.1 ((index.score_eq_none_iff item.1).mp hscore)⟩
    | some score => exact ⟨(h.pos item.1 score hscore).le, h.le item.1 score hscore⟩
  refine ⟨⟨fun value score hscore ↦ ?_, fun value score hscore ↦ ?_, fun value hvalue ↦ ?_⟩, ?_⟩
  · rw [zincrBy, SortedSet.score_add] at hscore
    by_cases hv : value = item.1
    · rw [if_pos hv, Option.some.injEq] at hscore
      rw [← hscore]
      exact add_pos_of_nonneg_of_pos hold.1 hpos
    · rw [if_neg hv] at hscore
      exact h.pos value score hscore
  · rw [zincrBy, SortedSet.score_add] at hscore
    by_cases hv : value = item.1
    · rw [if_pos hv, Option.some.injEq] at hscore
      rw [← hscore, if_pos hv.symm, hv]
      exact add_le_add_left hold.2 _
    · rw [if_neg hv] at hscore
      rw [if_neg (Ne.symm hv), add_zero]
      exact h.le value score hscore
  · rw [zincrBy, SortedSet.mem_add, not_or] at hvalue
    rw [if_neg (Ne.symm hvalue.1), add_zero]
    exact h.out value hvalue.2
  · have hzero := getD_score_eq_zero_iff h item.1
    simp only [zincrBy, SortedSet.card_add]
    by_cases hmem : item.1 ∈ index
    · have hne : (index.score item.1).getD 0 + item.2 ≠ item.2 := fun heq ↦
        hzero.mp (add_eq_right.mp heq) hmem
      rw [if_pos hmem, if_neg hne]
    · have heq : (index.score item.1).getD 0 + item.2 = item.2 := by
        rw [hzero.mpr hmem, zero_add]
      rw [if_neg hmem, if_pos heq]
      omega

theorem exactIndex_foldl (hpos : ∀ item ∈ items, 0 < item.2) (h : ExactIndex index total) (n : ℕ) :
    ExactIndex (items.foldl zincrBy (index, n)).1
        (fun value ↦ total value + itemsTotal items value) ∧
      (items.foldl zincrBy (index, n)).2 + index.card =
        n + (items.foldl zincrBy (index, n)).1.card := by
  induction items generalizing index total n with
  | nil => simpa [itemsTotal] using h
  | cons first rest ih =>
    obtain ⟨hfirst, hcard⟩ := exactIndex_zincrBy h n (hpos first mem_cons_self)
    obtain ⟨hrest, hcard'⟩ := ih (fun item hitem ↦ hpos item (mem_cons_of_mem _ hitem)) hfirst
      (zincrBy (index, n) first).2
    refine ⟨?_, ?_⟩
    · have htotal : (fun value ↦ total value + itemsTotal (first :: rest) value) =
          fun value ↦ (total value + if first.1 = value then first.2 else 0) +
            itemsTotal rest value := by
        ext value
        rw [itemsTotal_cons, add_assoc]
      rw [htotal]
      exact hrest
    · simp only [Prod.mk.eta] at hcard'
      rw [foldl_cons]
      omega

theorem bounded_increment_of_lt (hcs : ∀ value, cs value ≠ [])
    (h : Bounded cs capacity sketch total) (hpos : ∀ item ∈ items, 0 < item.2)
    (hroom : sketch.index.card < capacity) : (increment cs capacity sketch items).2.isSome ∧
      Bounded cs capacity (increment cs capacity sketch items).1
        (fun value ↦ total value + itemsTotal items value) := by
  have hnil : sketch.estimates = [] := by
    by_contra hne
    exact absurd (h.matrix hne).2 hroom.ne
  obtain ⟨hscores, hout, -⟩ := h.exact hnil
  obtain ⟨hexact, hcard⟩ := exactIndex_foldl hpos ⟨hscores, h.index, hout⟩ 0
  set added := items.foldl zincrBy (sketch.index, 0) with hadded
  rw [increment, if_pos hroom]
  by_cases hfull : capacity ≤ added.2 + sketch.index.card
  · simp only [← hadded, if_pos hfull, Option.isSome_some, true_and]
    obtain ⟨hmono, hmembers, hnodup⟩ := raised_foldl
      (fun estimates member ↦ raised_updateEstimates estimates (cs member.1) member.2)
      added.1.entries sketch.estimates
    have hbound : ∀ value score, added.1.score value = some score → ∀ c ∈ cs value,
        score ≤ observations (initializeMatrix cs sketch.estimates added.1.entries) c :=
      fun value score hscore c hc ↦
        hmembers (value, score) ((added.1.mem_entries_iff value score).mpr hscore) c hc
    have hnonneg : ∀ c, 0 ≤ observations (initializeMatrix cs sketch.estimates added.1.entries) c :=
      fun c ↦ (h.nonneg c).trans (hmono c)
    refine ⟨fun value score hscore ↦ hexact.le value score (SortedSet.score_of_score_trim hscore),
      hnonneg, hnodup h.nodup, fun hempty ↦ ?_, fun _ ↦ ⟨fun value c hc ↦ ?_, ?_⟩⟩
    · -- a member of the full index has observations
      obtain ⟨value, hvalue⟩ := added.1.card_pos_iff.mp (by omega)
      obtain ⟨score, hscore⟩ := (added.1.mem_iff_exists_score value).mp hvalue
      obtain ⟨c, hc⟩ := exists_mem_of_ne_nil _ (hcs value)
      have hle := hbound value score hscore c hc
      rw [show initializeMatrix cs sketch.estimates added.1.entries = [] from hempty,
        observations_nil] at hle
      exact absurd (hexact.pos value score hscore) (not_lt.mpr hle)
    · cases hscore : added.1.score value with
      | none =>
        exact (hexact.out value ((added.1.score_eq_none_iff value).mp hscore)).trans (hnonneg c)
      | some score => exact (hexact.le value score hscore).trans (hbound value score hscore c hc)
    · rw [SortedSet.card_trim]
      omega
  · simp only [← hadded, if_neg hfull, Option.isSome_some, true_and]
    have hlt : added.1.card < capacity := by omega
    exact ⟨hexact.le, h.nonneg, h.nodup, fun _ ↦ ⟨hexact.pos, hexact.out, Or.inl hlt⟩,
      fun hne ↦ absurd hnil hne⟩

/-! ### The matrix -/

def MatrixBound (cs : Item → List Coordinate) (estimates : Estimates) (total : Item → ℚ) : Prop :=
  ∀ value, ∀ c ∈ cs value, total value ≤ observations estimates c

/-- What the updates of the matrix return for an item: a score above what was added, which is that
of the index with the increment if the item is in the index. -/
def Scored (index : SortedSet Item ℚ) (total : Item → ℚ) (item : Item × ℚ) (score : ℚ) : Prop :=
  total item.1 + item.2 ≤ score ∧ ∀ old, index.score item.1 = some old → score = old + item.2

theorem exists_score (hcs : ∀ value, cs value ≠ [])
    (hindex : ∀ old, index.score value = some old → total value ≤ old)
    (hmatrix : MatrixBound cs estimates total) :
    ∃ score, (index.score value).or (minObservation estimates (cs value)) = some score ∧
      total value ≤ score := by
  cases hold : index.score value with
  | some old => exact ⟨old, rfl, hindex old hold⟩
  | none =>
    obtain ⟨score, hmin⟩ := exists_minObservation estimates (hcs value)
    exact ⟨score, hmin, minObservation_le hmin (hmatrix value)⟩

theorem matrixBound_updateEstimates (hmatrix : MatrixBound cs estimates total) {score : ℚ}
    (hle : total value ≤ score) (delta : ℚ) :
    MatrixBound cs (updateEstimates estimates (cs value) (score + delta))
      (fun v ↦ total v + if value = v then delta else 0) := by
  have hraised := raised_updateEstimates estimates (cs value) (score + delta)
  intro v c hc
  by_cases hv : value = v
  · subst hv
    have hscored := hraised.score_le c hc
    show total value + (if value = value then delta else 0) ≤ _
    rw [if_pos rfl]
    linarith
  · show total v + (if value = v then delta else 0) ≤ _
    rw [if_neg hv, add_zero]
    exact (hmatrix v c hc).trans (hraised.le c)

theorem updateAll_spec (hcs : ∀ value, cs value ≠ []) (index : SortedSet Item ℚ)
    (hnodup : (items.map Prod.fst).Nodup)
    (hindex : ∀ item ∈ items, ∀ old, index.score item.1 = some old → total item.1 ≤ old)
    (hmatrix : MatrixBound cs estimates total) :
    ∃ results, (updateAll cs index estimates items).2 = some results ∧
      results.length = items.length ∧
      (∀ pair ∈ items.zip results, Scored index total pair.1 pair.2) ∧
      (∀ c, observations estimates c ≤ observations (updateAll cs index estimates items).1 c) ∧
      MatrixBound cs (updateAll cs index estimates items).1
        (fun value ↦ total value + itemsTotal items value) ∧
      ((estimates.map Prod.fst).Nodup →
        ((updateAll cs index estimates items).1.map Prod.fst).Nodup) ∧
      (estimates ≠ [] → (updateAll cs index estimates items).1 ≠ []) := by
  induction items generalizing estimates total with
  | nil =>
    refine ⟨[], rfl, rfl, by simp, fun _ ↦ le_refl _, fun value c hc ↦ ?_, id, id⟩
    show total value + itemsTotal [] value ≤ observations estimates c
    simpa [itemsTotal] using hmatrix value c hc
  | cons first rest ih =>
    obtain ⟨value, delta⟩ := first
    obtain ⟨hfresh, hrest⟩ := nodup_cons.mp hnodup
    obtain ⟨score, hscore, hle⟩ :=
      exists_score hcs (hindex (value, delta) mem_cons_self) hmatrix
    have hmatrix' := matrixBound_updateEstimates hmatrix hle delta
    have hraised := raised_updateEstimates estimates (cs value) (score + delta)
    set next := updateEstimates estimates (cs value) (score + delta) with hnext
    set total' : Item → ℚ := fun v ↦ total v + if value = v then delta else 0 with htotal'
    have hsame : ∀ item ∈ rest, total' item.1 = total item.1 := fun item hitem ↦ by
      have hne : value ≠ item.1 := fun heq ↦ hfresh <| by
        show value ∈ rest.map Prod.fst
        rw [heq]
        exact mem_map_of_mem hitem
      simp [htotal', hne]
    obtain ⟨results, hresults, hlength, hscored, hmono, hbound, hkeys, hne⟩ := ih hrest
      (fun item hitem old hold ↦ by
        rw [hsame item hitem]
        exact hindex item (mem_cons_of_mem _ hitem) old hold) hmatrix'
    have heq : updateAll cs index estimates ((value, delta) :: rest) =
        ((updateAll cs index next rest).1,
          (updateAll cs index next rest).2.map ((score + delta) :: ·)) := by
      rw [updateAll, hscore]
    rw [heq]
    refine ⟨(score + delta) :: results, by rw [hresults]; rfl, by simp [hlength], ?_, fun c ↦
      (hraised.le c).trans (hmono c), fun v c hc ↦ ?_, fun h ↦ hkeys (hraised.nodup h),
      fun h ↦ hne (hraised.ne_nil h)⟩
    · intro pair hpair
      rcases mem_cons.mp hpair with rfl | hmem
      · refine ⟨by simpa using hle, fun old hold ↦ ?_⟩
        rw [hold] at hscore
        simpa using hscore.symm
      · have hitem : pair.1 ∈ rest := (of_mem_zip hmem).1
        have htail := hscored pair hmem
        exact ⟨hsame pair.1 hitem ▸ htail.1, htail.2⟩
    · show total v + itemsTotal ((value, delta) :: rest) v ≤ _
      rw [itemsTotal_cons, ← add_assoc]
      exact hbound v c hc

/-- The index after the `ZADD`s: its members have the new scores, or still have the old one because
no new one is above the minimum. -/
theorem zadd_foldl_spec (minimum : ℚ) (entries : List (Item × ℚ)) (index : SortedSet Item ℚ)
    (n : ℕ) :
    (∀ value score, (entries.foldl (zadd minimum) (index, n)).1.score value = some score →
      (value, score) ∈ entries ∨ index.score value = some score ∧
        ∀ score', (value, score') ∈ entries → score' ≤ minimum) ∧
    (entries.foldl (zadd minimum) (index, n)).1.card + n =
      index.card + (entries.foldl (zadd minimum) (index, n)).2 := by
  induction entries generalizing index n with
  | nil => exact ⟨fun value score h ↦ Or.inr ⟨h, by simp⟩, rfl⟩
  | cons first rest ih =>
    rw [foldl_cons]
    by_cases hlt : minimum < first.2
    · rw [zadd, if_pos hlt]
      obtain ⟨hscores, hcard⟩ := ih (index.add first.1 first.2)
        (if first.1 ∈ index then n else n + 1)
      refine ⟨fun value score h ↦ ?_, ?_⟩
      · rcases hscores value score h with hmem | ⟨hold, hrest⟩
        · exact Or.inl (mem_cons_of_mem _ hmem)
        · rw [SortedSet.score_add] at hold
          by_cases hv : value = first.1
          · rw [if_pos hv, Option.some.injEq] at hold
            subst hv hold
            exact Or.inl mem_cons_self
          · rw [if_neg hv] at hold
            refine Or.inr ⟨hold, fun score' hmem ↦ ?_⟩
            rcases mem_cons.mp hmem with heq | hmem
            · exact absurd (congrArg Prod.fst heq) hv
            · exact hrest score' hmem
      · rw [SortedSet.card_add] at hcard
        by_cases hmem : first.1 ∈ index
        · simp only [if_pos hmem] at hcard ⊢
          exact hcard
        · simp only [if_neg hmem] at hcard ⊢
          omega
    · rw [zadd, if_neg hlt]
      obtain ⟨hscores, hcard⟩ := ih index n
      refine ⟨fun value score h ↦ ?_, hcard⟩
      refine (hscores value score h).imp (mem_cons_of_mem _) fun ⟨hold, hrest⟩ ↦
        ⟨hold, fun score' hmem ↦ ?_⟩
      rcases mem_cons.mp hmem with heq | hmem
      · rw [← heq] at hlt
        exact not_lt.mp hlt
      · exact hrest score' hmem

theorem head_le_score {minimum : Item × ℚ} (hhead : index.entries.head? = some minimum) {score : ℚ}
    (hscore : index.score value = some score) : minimum.2 ≤ score := by
  obtain ⟨rest, hentries⟩ := head?_eq_some_iff.mp hhead
  have hmem := (index.mem_entries_iff value score).mpr hscore
  have hsorted := index.sorted
  rw [hentries] at hmem hsorted
  rcases mem_cons.mp hmem with heq | hrest
  · rw [← heq]
  · rcases (pairwise_cons.mp hsorted).1 _ hrest with hlt | ⟨heq, -⟩
    · exact hlt.le
    · exact heq.le

theorem le_score_zadd_foldl {results : List ℚ}
    {minimum : Item × ℚ} (hhead : index.entries.head? = some minimum)
    (hindex : ∀ value score, index.score value = some score → total value ≤ score)
    (hpos : ∀ item ∈ items, 0 < item.2) (hnodup : (items.map Prod.fst).Nodup)
    (hlength : results.length = items.length)
    (hscored : ∀ pair ∈ items.zip results, Scored index total pair.1 pair.2)
    {score : ℚ} (hscore : (((items.map Prod.fst).zip results).foldl (zadd minimum.2)
      (index, 0)).1.score value = some score) : total value + itemsTotal items value ≤ score := by
  have hpair : ∀ score', (value, score') ∈ (items.map Prod.fst).zip results →
      ∃ delta, (value, delta) ∈ items ∧ Scored index total (value, delta) score' := by
    intro score' hmem
    rw [zip_map_left, mem_map] at hmem
    obtain ⟨⟨item, new⟩, hzip, heq⟩ := hmem
    obtain ⟨rfl, rfl⟩ := Prod.mk.inj heq
    exact ⟨item.2, (of_mem_zip hzip).1, hscored _ hzip⟩
  rcases (zadd_foldl_spec minimum.2 _ index 0).1 value score hscore with hmem | ⟨hold, hothers⟩
  · obtain ⟨delta, hitem, hle, -⟩ := hpair score hmem
    rw [itemsTotal_of_mem hnodup hitem]
    exact hle
  · by_cases hvalue : value ∈ items.map Prod.fst
    · -- the new score is above the minimum, so that it would have been added
      obtain ⟨i, hi, hget⟩ := getElem_of_mem hvalue
      rw [length_map] at hi
      have hnew : (value, results[i]) ∈ (items.map Prod.fst).zip results := by
        rw [← hget]
        have hbound : i < ((items.map Prod.fst).zip results).length := by simp [hi, hlength]
        have helem := getElem_mem hbound
        rwa [getElem_zip] at helem
      obtain ⟨delta, hitem, -, hsum⟩ := hpair _ hnew
      have hle := hothers _ hnew
      rw [hsum score hold] at hle
      have hmin := head_le_score hhead hold
      have hdelta := hpos _ hitem
      linarith
    · rw [itemsTotal_of_notMem hvalue, add_zero]
      exact hindex value score hold

/-- Assumes: the matrix of a sketch with a full index was updated for all items, and the scores of
the new index are bounds. The new sketch is bounded. -/
theorem bounded_of_matrix (hcs : ∀ value, cs value ≠ []) {new : Sketch Item} {added : Item → ℚ}
    (hindex : ∀ value score, new.index.score value = some score → total value + added value ≤ score)
    (hnonneg : ∀ c, 0 ≤ observations new.estimates c) (hnodup : (new.estimates.map Prod.fst).Nodup)
    (hmatrix : MatrixBound cs new.estimates fun value ↦ total value + added value)
    (hcard : new.index.card = capacity) (hempty : new.estimates = [] → capacity = 0) :
    Bounded cs capacity new (fun value ↦ total value + added value) where
  index := hindex
  nonneg := hnonneg
  nodup := hnodup
  exact hnil := by
    have hzero : new.index.card = 0 := hcard.trans (hempty hnil)
    have hout := new.index.card_eq_zero_iff.mp hzero
    refine ⟨fun value score hscore ↦ ?_, fun value _ ↦ ?_, Or.inr hzero⟩
    · exact absurd ((new.index.mem_iff_exists_score value).mpr ⟨score, hscore⟩) (hout value)
    · obtain ⟨c, hc⟩ := exists_mem_of_ne_nil _ (hcs value)
      have hle := hmatrix value c hc
      rwa [hnil, observations_nil] at hle
  matrix _ := ⟨hmatrix, hcard⟩

section

variable (hcs : ∀ value, cs value ≠ []) (h : Bounded cs capacity sketch total)
  (hpos : ∀ item ∈ items, 0 < item.2) (hnodup : (items.map Prod.fst).Nodup)

include hcs h hpos hnodup

theorem bounded_increment_of_le (hfull : capacity ≤ sketch.index.card) :
    (increment cs capacity sketch items).2.isSome ∧
      Bounded cs capacity (increment cs capacity sketch items).1
        (fun value ↦ total value + itemsTotal items value) := by
  obtain ⟨hmatrix, hcard⟩ := h.matrix_of_le hfull
  obtain ⟨results, hresults, hlength, hscored, hmono, hbound, hkeys, hne⟩ :=
    updateAll_spec hcs sketch.index hnodup
      (fun item _ old hold ↦ h.index item.1 old hold) hmatrix
  have hnonneg := fun c ↦ (h.nonneg c).trans (hmono c)
  have hempty : (updateAll cs sketch.index sketch.estimates items).1 = [] → capacity = 0 := by
    intro hnil
    have hold : sketch.estimates = [] := by
      by_contra hsome
      exact hne hsome hnil
    rcases (h.exact hold).2.2 with hlt | hzero
    · exact absurd hlt (Nat.not_lt.mpr hfull)
    · exact hcard.symm.trans hzero
  rw [increment, if_neg (Nat.not_lt.mpr hfull)]
  rcases hall : updateAll cs sketch.index sketch.estimates items with ⟨estimates, _ | results'⟩
  · rw [hall] at hresults
    exact absurd hresults (by simp)
  · rw [hall] at hresults hbound hkeys hnonneg hempty
    obtain rfl : results' = results := Option.some.inj hresults
    by_cases hcapacity : 0 < capacity
    · obtain ⟨minimum, hhead⟩ : ∃ minimum, sketch.index.entries.head? = some minimum := by
        rw [← Option.isSome_iff_exists, isSome_head?]
        exact ne_nil_of_length_pos (hcapacity.trans_le hfull)
      have hscores : ∀ value score, (((items.map Prod.fst).zip results').foldl (zadd minimum.2)
          (sketch.index, 0)).1.score value = some score →
          total value + itemsTotal items value ≤ score := fun value score hscore ↦
        le_score_zadd_foldl hhead h.index hpos hnodup hlength hscored hscore
      have hcount := (zadd_foldl_spec minimum.2 ((items.map Prod.fst).zip results') sketch.index
        0).2
      simp only [if_pos hcapacity, hhead, Option.isSome_some, true_and]
      set added := ((items.map Prod.fst).zip results').foldl (zadd minimum.2) (sketch.index, 0)
        with hadded
      by_cases hmore : 0 < added.2
      · rw [if_pos hmore]
        refine bounded_of_matrix hcs (fun value score hscore ↦ ?_) hnonneg (hkeys h.nodup) hbound
          ?_ hempty
        · exact hscores value score (SortedSet.score_of_score_trim hscore)
        · rw [SortedSet.card_trim]
          omega
      · rw [if_neg hmore]
        have hsame : added.1.card = capacity := by omega
        exact bounded_of_matrix hcs hscores hnonneg (hkeys h.nodup) hbound hsame hempty
    · simp only [if_neg hcapacity, Option.isSome_some, true_and]
      have hout := sketch.index.card_eq_zero_iff.mp (by omega)
      refine bounded_of_matrix hcs (fun value score hscore ↦ ?_) hnonneg (hkeys h.nodup) hbound
        hcard hempty
      exact absurd ((sketch.index.mem_iff_exists_score value).mpr ⟨score, hscore⟩) (hout value)

theorem bounded_increment : (increment cs capacity sketch items).2.isSome ∧
      Bounded cs capacity (increment cs capacity sketch items).1
        (fun value ↦ total value + itemsTotal items value) := by
  by_cases hroom : sketch.index.card < capacity
  · exact bounded_increment_of_lt hcs h hpos hroom
  · exact bounded_increment_of_le hcs h hpos hnodup (Nat.not_lt.mp hroom)

end

end Sentry.Tsdb.CountMin
