import Sentry.Tsdb.SketchBounds

/-!
# Runs of sketches

A payload bounds what had been added when it was exported (`PayloadBounded`), and its import keeps
the bounds of the sketch (`bounded_importPayload`). It fails when an estimate is not an integer, and
a failed import into a sketch without a matrix leaves one that the later increments do not update.
In a run without such an import no sketch under-counts (`neverUnder_of_everyStep`).
-/

namespace Sentry.Tsdb.CountMin

open Library List Function Option

variable {Item : Type*} [LinearOrder Item] {cs : Item → List Coordinate} {capacity : ℕ}
  {sketch : Sketch Item} {total : Item → ℚ} {payload : Payload Item} {added : Item → ℚ}

/-! ### Payloads -/

/-- What a payload bounds. -/
structure PayloadBounded (cs : Item → List Coordinate) (capacity : ℕ) (payload : Payload Item)
    (total : Item → ℚ) : Prop where
  nodupIndex : (payload.index.map Prod.fst).Nodup
  index : ∀ value score, (value, score) ∈ payload.index → total value ≤ score
  nonneg : ∀ c, 0 ≤ observations payload.estimates c
  nodup : (payload.estimates.map Prod.fst).Nodup
  exact : payload.estimates = [] →
    (∀ item ∈ payload.index, 0 < item.2) ∧
    ∀ value, value ∉ payload.index.map Prod.fst → total value ≤ 0
  matrix : payload.estimates ≠ [] →
    MatrixBound cs payload.estimates total ∧ payload.index.length = capacity

theorem Bounded.payloadBounded (h : Bounded cs capacity sketch total) :
    PayloadBounded cs capacity ⟨sketch.index.entries, sketch.estimates⟩ total where
  nodupIndex := sketch.index.nodup
  index value score hmem := h.index value score ((sketch.index.mem_entries_iff value score).mp hmem)
  nonneg := h.nonneg
  nodup := h.nodup
  exact hnil := by
    obtain ⟨hpos, hout, -⟩ := h.exact hnil
    refine ⟨fun item hitem ↦ ?_, fun value hvalue ↦ hout value fun hmem ↦ hvalue ?_⟩
    · exact hpos item.1 item.2 ((sketch.index.mem_entries_iff item.1 item.2).mp hitem)
    · exact (sketch.index.mem_iff_mem_members value).mp hmem
  matrix := h.matrix

theorem observations_of_perm {estimates estimates' : Estimates} (hperm : estimates.Perm estimates')
    (hnodup : (estimates'.map Prod.fst).Nodup) (c : Coordinate) :
    observations estimates c = observations estimates' c := by
  have hget : getItem estimates c = getItem estimates' c := by
    ext value
    rw [getItem_eq_some_iff ((hperm.map Prod.fst).nodup_iff.mpr hnodup), getItem_eq_some_iff hnodup,
      hperm.mem_iff]
  rw [observations, hget, observations]

omit [LinearOrder Item] in
theorem PayloadBounded.of_perm {source : Payload Item}
    (h : PayloadBounded cs capacity source total) (hindex : payload.index.Perm source.index)
    (hestimates : payload.estimates.Perm source.estimates) :
    PayloadBounded cs capacity payload total where
  nodupIndex := (hindex.map Prod.fst).nodup_iff.mpr h.nodupIndex
  index value score hmem := h.index value score (hindex.mem_iff.mp hmem)
  nonneg c := by
    rw [observations_of_perm hestimates h.nodup]
    exact h.nonneg c
  nodup := (hestimates.map Prod.fst).nodup_iff.mpr h.nodup
  exact hnil := by
    rw [hnil] at hestimates
    obtain ⟨hpos, hout⟩ := h.exact hestimates.nil_eq.symm
    refine ⟨fun item hitem ↦ hpos item (hindex.mem_iff.mp hitem), fun value hvalue ↦ hout value ?_⟩
    rwa [← (hindex.map Prod.fst).mem_iff]
  matrix hne := by
    have hsource : source.estimates ≠ [] := fun hnil ↦ hne (by simpa [hnil] using hestimates)
    obtain ⟨hmatrix, hlength⟩ := h.matrix hsource
    refine ⟨fun value c hc ↦ ?_, hindex.length_eq.trans hlength⟩
    rw [observations_of_perm hestimates h.nodup]
    exact hmatrix value c hc

omit [LinearOrder Item] in
theorem PayloadBounded.estimates_nonneg (h : PayloadBounded cs capacity payload added) :
    ∀ item ∈ payload.estimates, 0 ≤ item.2 := by
  intro item hitem
  have hnonneg := h.nonneg item.1
  rwa [observations, (getItem_eq_some_iff h.nodup).mpr hitem] at hnonneg

/-! ### Merged estimates -/

theorem observations_cons (c c' : Coordinate) (value : ℚ) (rest : Estimates) :
    observations ((c, value) :: rest) c' = if c = c' then value else observations rest c' := by
  rw [observations, getItem_cons]
  by_cases hc : c = c'
  · rw [if_pos hc, if_pos hc, getD_some]
  · rw [if_neg hc, if_neg hc, observations]

variable {estimates : Estimates}

theorem observations_of_notMem {c : Coordinate}
    (h : c ∉ estimates.map Prod.fst) : observations estimates c = 0 := by
  rw [observations, getItem_of_notMem h, getD_none]

/-- Whether it goes well or not, `HINCRBY` lowers no observation. -/
theorem le_observations_hincrBy (source : Estimates) (estimates : Estimates)
    (hsource : ∀ item ∈ source, 0 ≤ item.2) :
    (∀ c, observations estimates c ≤ observations (hincrBy estimates source).1 c) ∧
    ((estimates.map Prod.fst).Nodup → ((hincrBy estimates source).1.map Prod.fst).Nodup) ∧
    (estimates ≠ [] → (hincrBy estimates source).1 ≠ []) := by
  induction source generalizing estimates with
  | nil => exact ⟨fun _ ↦ le_refl _, id, id⟩
  | cons first rest ih =>
    obtain ⟨c, value⟩ := first
    rw [hincrBy]
    by_cases hint : IsInteger value ∧ IsInteger (observations estimates c)
    · rw [if_pos hint]
      obtain ⟨hle, hnodup, hne⟩ := ih (setItem c (observations estimates c + value) estimates)
        fun item hitem ↦ hsource item (mem_cons_of_mem _ hitem)
      have hvalue : 0 ≤ value := hsource (c, value) mem_cons_self
      refine ⟨fun c' ↦ (le_observations_setItem (c := c) ?_ c').trans (hle c'),
        fun h ↦ hnodup (nodup_keys_setItem h _ _), fun _ ↦ hne (setItem_ne_nil _ _ _)⟩
      linarith
    · rw [if_neg hint]
      exact ⟨fun _ ↦ le_refl _, id, id⟩

variable {source : Estimates}

theorem hincrBy_ne_nil (hne : source ≠ []) (hsource : ∀ item ∈ source, 0 ≤ item.2)
    (hok : (hincrBy estimates source).2 = true) : (hincrBy estimates source).1 ≠ [] := by
  rcases source with _ | ⟨⟨c, value⟩, rest⟩
  · exact absurd rfl hne
  · rw [hincrBy] at hok ⊢
    by_cases hint : IsInteger value ∧ IsInteger (observations estimates c)
    · rw [if_pos hint]
      have hrest := le_observations_hincrBy rest
        (setItem c (observations estimates c + value) estimates)
        fun item hitem ↦ hsource item (mem_cons_of_mem _ hitem)
      exact hrest.2.2 (setItem_ne_nil _ _ _)
    · rw [if_neg hint] at hok
      exact absurd hok (by simp)

theorem observations_hincrBy (hnodup : (source.map Prod.fst).Nodup)
    (hok : (hincrBy estimates source).2 = true) (c : Coordinate) :
    observations (hincrBy estimates source).1 c =
      observations estimates c + observations source c := by
  induction source generalizing estimates with
  | nil => simp [hincrBy]
  | cons first rest ih =>
    obtain ⟨c', value⟩ := first
    obtain ⟨hfresh, hrest⟩ := nodup_cons.mp hnodup
    rw [hincrBy] at hok ⊢
    by_cases hint : IsInteger value ∧ IsInteger (observations estimates c')
    · rw [if_pos hint] at hok ⊢
      rw [ih hrest hok, observations_setItem, observations_cons]
      by_cases hc : c' = c
      · subst hc
        rw [if_pos rfl, if_pos rfl, observations_of_notMem hfresh, add_zero]
      · rw [if_neg hc, if_neg hc]
    · rw [if_neg hint] at hok
      exact absurd hok (by simp)

theorem hincrBy_isOk (hnodup : (source.map Prod.fst).Nodup)
    (hint : ∀ item ∈ source, IsInteger item.2 ∧ IsInteger (observations estimates item.1)) :
    (hincrBy estimates source).2 = true := by
  induction source generalizing estimates with
  | nil => rfl
  | cons first rest ih =>
    obtain ⟨c, value⟩ := first
    obtain ⟨hfresh, hrest⟩ := nodup_cons.mp hnodup
    rw [hincrBy, if_pos (hint (c, value) mem_cons_self)]
    refine ih hrest fun item hitem ↦ ?_
    have hne : c ≠ item.1 := fun heq ↦ hfresh <| by
      show c ∈ rest.map Prod.fst
      rw [heq]
      exact mem_map_of_mem hitem
    rw [observations_setItem, if_neg hne]
    exact hint item (mem_cons_of_mem _ hitem)

theorem Bounded.estimators (h : Bounded cs capacity sketch total) :
    MatrixBound cs (estimators cs sketch) total ∧
      (∀ c, 0 ≤ observations (estimators cs sketch) c) ∧
      ((estimators cs sketch).map Prod.fst).Nodup := by
  unfold CountMin.estimators
  by_cases hnil : sketch.estimates = []
  · obtain ⟨-, hout, -⟩ := h.exact hnil
    obtain ⟨hmono, hmembers, hnodup⟩ := raised_foldl
      (fun estimates member ↦ raised_derive_member estimates (cs member.1) member.2)
      sketch.index.entries sketch.estimates
    have hnonneg := fun c ↦ (h.nonneg c).trans (hmono c)
    rw [if_pos hnil]
    refine ⟨fun value c hc ↦ ?_, hnonneg, hnodup h.nodup⟩
    cases hscore : sketch.index.score value with
    | none =>
      exact (hout value ((sketch.index.score_eq_none_iff value).mp hscore)).trans (hnonneg c)
    | some score =>
      exact (h.index value score hscore).trans
        (hmembers (value, score) ((sketch.index.mem_entries_iff value score).mpr hscore) c hc)
  · rw [if_neg hnil]
    exact ⟨(h.matrix hnil).1, h.nonneg, h.nodup⟩

/-! ### The rebuilt index -/

theorem rebuild_spec (hcs : ∀ value, cs value ≠ []) (estimates : Estimates) (members : List Item)
    (index : SortedSet Item ℚ) : (rebuild cs estimates index members).2 = true ∧
    (∀ value, value ∈ (rebuild cs estimates index members).1 ↔ value ∈ members ∨ value ∈ index) ∧
    ∀ value score, (rebuild cs estimates index members).1.score value = some score →
      minObservation estimates (cs value) = some score ∨ index.score value = some score := by
  induction members generalizing index with
  | nil => exact ⟨rfl, by simp [rebuild], fun value score h ↦ Or.inr h⟩
  | cons first rest ih =>
    obtain ⟨score, hscore⟩ := exists_minObservation estimates (hcs first)
    simp only [rebuild, hscore]
    obtain ⟨hok, hmem, hscores⟩ := ih (index.add first score)
    refine ⟨hok, fun value ↦ ?_, fun value score' h ↦ ?_⟩
    · rw [hmem, SortedSet.mem_add, mem_cons]
      tauto
    · rcases hscores value score' h with hmin | hold
      · exact Or.inl hmin
      · rw [SortedSet.score_add] at hold
        by_cases hv : value = first
        · rw [if_pos hv, Option.some.injEq] at hold
          rw [hv, hscore, hold]
          exact Or.inl rfl
        · rw [if_neg hv] at hold
          exact Or.inr hold

/-! ### Imports -/

theorem bounded_import_estimators (hcs : ∀ value, cs value ≠ [])
    (h : Bounded cs capacity sketch total) (hpayload : PayloadBounded cs capacity payload added)
    (hne : payload.estimates ≠ [])
    (hok : (hincrBy (estimators cs sketch) payload.estimates).2 = true) :
    (sketch.importPayload cs capacity payload).2 = true ∧
      Bounded cs capacity (sketch.importPayload cs capacity payload).1
        (fun value ↦ total value + added value) := by
  obtain ⟨hmatrix, hnonneg, hnodup⟩ := h.estimators
  obtain ⟨hadded, hlength⟩ := hpayload.matrix hne
  have hsource := hpayload.estimates_nonneg
  obtain ⟨hmono, hkeys, -⟩ :=
    le_observations_hincrBy payload.estimates (estimators cs sketch) hsource
  have hsum := observations_hincrBy hpayload.nodup hok
  have hsome := hincrBy_ne_nil hne hsource hok
  rcases hmerged : hincrBy (estimators cs sketch) payload.estimates with ⟨estimates, ok⟩
  rw [hmerged] at hok hmono hkeys hsum hsome
  obtain rfl : ok = true := hok
  have hbound : MatrixBound cs estimates fun value ↦ total value + added value := by
    intro value c hc
    rw [hsum]
    exact add_le_add (hmatrix value c hc) (hadded value c hc)
  set members := (payload.index.map Prod.fst ++ sketch.index.entries.map Prod.fst).dedup
    with hmembers
  obtain ⟨hrebuilt, hmem, hscores⟩ := rebuild_spec hcs estimates members SortedSet.empty
  rcases hindex : rebuild cs estimates SortedSet.empty members with ⟨index, ok⟩
  rw [hindex] at hrebuilt hmem hscores
  obtain rfl : ok = true := hrebuilt
  have hresult : sketch.importPayload cs capacity payload =
      (⟨index.trim capacity, estimates⟩, true) := by
    rw [Sketch.importPayload, if_neg hne, hmerged]
    simp only [← hmembers, hindex]
  have hcard : capacity ≤ index.card := by
    have hkeys : (payload.index.map Prod.fst).length = capacity := by
      rw [length_map, hlength]
    rw [← hkeys]
    refine SortedSet.length_le_card hpayload.nodupIndex fun value hvalue ↦ (hmem value).mpr ?_
    exact Or.inl (mem_dedup.mpr (mem_append_left _ hvalue))
  rw [hresult]
  refine ⟨rfl, bounded_of_matrix hcs (fun value score hscore ↦ ?_)
    (fun c ↦ (hnonneg c).trans (hmono c)) (hkeys hnodup) hbound ?_ fun hnil ↦ ?_⟩
  · rcases hscores value score (SortedSet.score_of_score_trim hscore) with hmin | hnone
    · exact minObservation_le hmin (hbound value)
    · simp at hnone
  · rw [SortedSet.card_trim]
    exact min_eq_right hcard
  · exact absurd hnil hsome

theorem bounded_import_failed (h : Bounded cs capacity sketch total)
    (hpayload : PayloadBounded cs capacity payload added) (hne : payload.estimates ≠ [])
    (hsketch : sketch.estimates ≠ [])
    (hfailed : (hincrBy (estimators cs sketch) payload.estimates).2 = false) :
    (sketch.importPayload cs capacity payload).2 = false ∧
      Bounded cs capacity (sketch.importPayload cs capacity payload).1 total := by
  obtain ⟨hmono, hkeys, hsome⟩ := le_observations_hincrBy payload.estimates (estimators cs sketch)
    hpayload.estimates_nonneg
  obtain ⟨hmatrix, hcard⟩ := h.matrix hsketch
  rcases hmerged : hincrBy (estimators cs sketch) payload.estimates with ⟨estimates, ok⟩
  have hestimators : estimators cs sketch = sketch.estimates := if_neg hsketch
  rw [hmerged] at hfailed hmono hkeys hsome
  rw [hestimators] at hmono hkeys hsome
  obtain rfl : ok = false := hfailed
  rw [Sketch.importPayload, if_neg hne, hmerged]
  exact ⟨rfl, h.index, fun c ↦ (h.nonneg c).trans (hmono c), hkeys h.nodup,
    fun hnil ↦ absurd hnil (hsome hsketch),
    fun _ ↦ ⟨fun value c hc ↦ (hmatrix value c hc).trans (hmono c), hcard⟩⟩

/-- A field of the payload can be merged into a sketch without a matrix: its estimate is an integer,
and the highest score of the items of the index with that coordinate is one. -/
def Mergeable (cs : Item → List Coordinate) (sketch : Sketch Item) (field : Coordinate × ℚ) :
    Prop :=
  IsInteger field.2 ∧ ∀ member ∈ sketch.index.entries, field.1 ∈ cs member.1 →
    (∀ other ∈ sketch.index.entries, field.1 ∈ cs other.1 → other.2 ≤ member.2) →
    IsInteger member.2

instance (field : Coordinate × ℚ) : Decidable (Mergeable cs sketch field) :=
  inferInstanceAs (Decidable (IsInteger field.2 ∧ ∀ member ∈ sketch.index.entries,
    field.1 ∈ cs member.1 →
      (∀ other ∈ sketch.index.entries, field.1 ∈ cs other.1 → other.2 ≤ member.2) →
      IsInteger member.2))

theorem observations_derive_member (cs : List Coordinate) (score : ℚ) (estimates : Estimates)
    (c : Coordinate) :
    let derived := cs.foldl (fun current c ↦
      if observations current c < score then setItem c score current else current) estimates
    observations derived c = observations estimates c ∨
      c ∈ cs ∧ observations derived c = score := by
  induction cs generalizing estimates with
  | nil => exact Or.inl rfl
  | cons first rest ih =>
    simp only [foldl_cons]
    by_cases hlt : observations estimates first < score
    · rw [if_pos hlt]
      rcases ih (setItem first score estimates) with hsame | ⟨hmem, hscore⟩
      · rw [hsame, observations_setItem]
        by_cases hc : first = c
        · rw [if_pos hc]
          exact Or.inr ⟨hc ▸ mem_cons_self, rfl⟩
        · rw [if_neg hc]
          exact Or.inl rfl
      · exact Or.inr ⟨mem_cons_of_mem _ hmem, hscore⟩
    · rw [if_neg hlt]
      exact (ih estimates).imp id fun ⟨hmem, hscore⟩ ↦ ⟨mem_cons_of_mem _ hmem, hscore⟩

omit [LinearOrder Item] in
theorem observations_derive (cs : Item → List Coordinate) (members : List (Item × ℚ))
    (estimates : Estimates) (c : Coordinate) :
    observations (derive cs estimates members) c = observations estimates c ∨
      ∃ member ∈ members, c ∈ cs member.1 ∧
        observations (derive cs estimates members) c = member.2 := by
  induction members generalizing estimates with
  | nil => exact Or.inl rfl
  | cons first rest ih =>
    have hfirst := observations_derive_member (cs first.1) first.2 estimates c
    rcases ih ((cs first.1).foldl (fun current c ↦
        if observations current c < first.2 then setItem c first.2 current else current)
        estimates) with hsame | ⟨member, hmember, hc, hscore⟩
    · rcases hfirst with hold | ⟨hc, hscore⟩
      · exact Or.inl (hsame.trans hold)
      · exact Or.inr ⟨first, mem_cons_self, hc, hsame.trans hscore⟩
    · exact Or.inr ⟨member, mem_cons_of_mem _ hmember, hc, hscore⟩

theorem Mergeable.isInteger {field : Coordinate × ℚ} (h : Mergeable cs sketch field) :
    IsInteger (observations (derive cs [] sketch.index.entries) field.1) := by
  rcases observations_derive cs sketch.index.entries [] field.1 with hzero | hmember
  · rw [hzero]
    rfl
  · obtain ⟨member, hmember, hc, hscore⟩ := hmember
    rw [hscore]
    refine h.2 member hmember hc fun other hother hfield ↦ ?_
    rw [← hscore]
    exact (raised_foldl (fun estimates member ↦
      raised_derive_member estimates (cs member.1) member.2) sketch.index.entries []).2.1
        other hother field.1 hfield

theorem bounded_importPayload (hcs : ∀ value, cs value ≠ [])
    (h : Bounded cs capacity sketch total) (hpayload : PayloadBounded cs capacity payload added)
    (hmergeable : sketch.estimates = [] → ∀ field ∈ payload.estimates, Mergeable cs sketch field) :
    Bounded cs capacity (sketch.importPayload cs capacity payload).1
      (fun value ↦ total value +
        if (sketch.importPayload cs capacity payload).2 then added value else 0) := by
  by_cases hne : payload.estimates = []
  · obtain ⟨hpos, hout⟩ := hpayload.exact hne
    obtain ⟨hsome, hbounded⟩ := bounded_increment hcs h hpos hpayload.nodupIndex
    rw [Sketch.importPayload, if_pos hne]
    refine hbounded.mono fun value ↦ ?_
    rw [if_pos hsome]
    by_cases hvalue : value ∈ payload.index.map Prod.fst
    · obtain ⟨item, hitem, rfl⟩ := List.mem_map.mp hvalue
      rw [itemsTotal_of_mem hpayload.nodupIndex hitem]
      exact add_le_add_right (hpayload.index item.1 item.2 hitem) _
    · rw [itemsTotal_of_notMem hvalue]
      exact add_le_add_right (hout value hvalue) _
  · cases hok : (hincrBy (estimators cs sketch) payload.estimates).2 with
    | true =>
      obtain ⟨hresult, hbounded⟩ := bounded_import_estimators hcs h hpayload hne hok
      simpa only [hresult, if_true] using hbounded
    | false =>
      have hsketch : sketch.estimates ≠ [] := by
        intro hnil
        have hestimators : estimators cs sketch = derive cs [] sketch.index.entries := by
          rw [estimators, if_pos hnil, hnil]
        rw [hestimators, hincrBy_isOk hpayload.nodup fun field hfield ↦
          ⟨(hmergeable hnil field hfield).1, (hmergeable hnil field hfield).isInteger⟩] at hok
        simp at hok
      obtain ⟨hresult, hbounded⟩ := bounded_import_failed h hpayload hne hsketch hok
      simpa only [hresult, Bool.false_eq_true, if_false, add_zero] using hbounded

/-! ### Whole runs -/

namespace State

variable (s : State Item)

def Invariant (cs : Item → List Coordinate) (capacity : ℕ) : Prop :=
  (∀ key, Bounded cs capacity (s.sketches key) (s.totals key)) ∧
    ∀ source ∈ s.exported, PayloadBounded cs capacity source.1 source.2

/-- `ESTIMATE` returns at least what was added, and an index next to a matrix has at most `capacity`
items. -/
def NeverUnder (cs : Item → List Coordinate) (capacity : ℕ) : Prop :=
  ∀ key, (∀ value, ∃ score, estimate cs (s.sketches key) value = some score ∧
      s.totals key value ≤ score) ∧
    ((s.sketches key).estimates ≠ [] → (s.sketches key).index.card ≤ capacity)

/-- The items of an increment are distinct. -/
def Distinct : State Item → Command Item → Prop
  | _, .incr _ items => (items.map Prod.fst).Nodup
  | _, _ => True

/-- Into a sketch without a matrix only integers are merged. -/
def MergesIntegers (cs : Item → List Coordinate) : State Item → Command Item → Prop
  | s, .importPayload key _ payload =>
    (s.sketches key).estimates = [] →
      ∀ field ∈ payload.estimates, Mergeable cs (s.sketches key) field
  | _, _ => True

instance : (s : State Item) → (command : Command Item) → Decidable (Distinct s command)
  | _, .incr _ items => inferInstanceAs (Decidable (items.map Prod.fst).Nodup)
  | _, .exportPayload _ => isTrue trivial
  | _, .importPayload _ _ _ => isTrue trivial

instance : (s : State Item) → (command : Command Item) → Decidable (MergesIntegers cs s command)
  | s, .importPayload key _ payload =>
    inferInstanceAs (Decidable ((s.sketches key).estimates = [] →
      ∀ field ∈ payload.estimates, Mergeable cs (s.sketches key) field))
  | _, .incr _ _ => isTrue trivial
  | _, .exportPayload _ => isTrue trivial

variable {s}

section

variable (h : s.Invariant cs capacity)

include h

theorem Invariant.neverUnder (hcs : ∀ value, cs value ≠ []) : s.NeverUnder cs capacity := by
  intro key
  exact ⟨(h.1 key).le_estimate hcs, fun hne ↦ ((h.1 key).matrix hne).2.le⟩

theorem Invariant.update {key : ℕ} {sketch : Sketch Item}
    {total : Item → ℚ} (hsketch : Bounded cs capacity sketch total) {s' : State Item}
    (hsketches : s'.sketches = Function.update s.sketches key sketch)
    (htotals : s'.totals = Function.update s.totals key total)
    (hexported : s'.exported = s.exported) : s'.Invariant cs capacity := by
  refine ⟨fun k ↦ ?_, hexported ▸ h.2⟩
  rw [hsketches, htotals]
  by_cases hk : k = key
  · subst hk
    rw [update_self, update_self]
    exact hsketch
  · rw [update_of_ne hk, update_of_ne hk]
    exact h.1 k

theorem Invariant.incr (hcs : ∀ value, cs value ≠ []) (key : ℕ)
    {items : List (Item × ℚ)} (hnodup : (items.map Prod.fst).Nodup) :
    (s.incr cs capacity key items).Invariant cs capacity := by
  by_cases hpos : ∀ item ∈ items, 0 < item.2
  · obtain ⟨hsome, hbounded⟩ := bounded_increment hcs (h.1 key) hpos hnodup
    obtain ⟨results, hresults⟩ := isSome_iff_exists.mp hsome
    rw [State.incr, if_pos hpos]
    simp only [hresults]
    exact h.update hbounded rfl rfl rfl
  · rw [State.incr, if_neg hpos]
    exact h

theorem Invariant.exportPayload (key : ℕ) : (s.exportPayload key).Invariant cs capacity := by
  refine ⟨h.1, fun source hsource ↦ ?_⟩
  rcases mem_append.mp hsource with hold | hnew
  · exact h.2 source hold
  · rw [mem_singleton.mp hnew]
    exact (h.1 key).payloadBounded

theorem Invariant.importPayload (hcs : ∀ value, cs value ≠ [])
    {key : ℕ} (number : ℕ) {payload : Payload Item}
    (hmergeable : (s.sketches key).estimates = [] →
      ∀ field ∈ payload.estimates, Mergeable cs (s.sketches key) field) :
    (s.importPayload cs capacity key number payload).Invariant cs capacity := by
  unfold State.importPayload
  rcases hsource : s.exported[number]? with _ | ⟨source, added⟩
  · exact h
  · by_cases hperm : payload.index.Perm source.index ∧ payload.estimates.Perm source.estimates
    · have hpayload := (h.2 _ (mem_of_getElem? hsource)).of_perm hperm.1 hperm.2
      have hbounded := bounded_importPayload hcs (h.1 key) hpayload hmergeable
      simp only [if_pos hperm]
      rcases himport : (s.sketches key).importPayload cs capacity payload with ⟨sketch, ok⟩
      rw [himport] at hbounded
      cases ok with
      | true =>
        exact h.update hbounded rfl rfl rfl
      | false =>
        simp only [Bool.false_eq_true, if_false, add_zero] at hbounded
        exact h.update hbounded rfl (update_eq_self key s.totals).symm rfl
    · simp only [if_neg hperm]
      exact h

theorem Invariant.step (hcs : ∀ value, cs value ≠ []) {command : Command Item}
    (hdistinct : Distinct s command) (hmerges : MergesIntegers cs s command) :
    (s.step cs capacity command).Invariant cs capacity := by
  cases command with
  | incr key items => exact h.incr hcs key hdistinct
  | exportPayload key => exact h.exportPayload key
  | importPayload key number payload => exact h.importPayload hcs number hmerges

end

end State

omit [LinearOrder Item] in
theorem coordinates_ne_nil (hash : Item → ℕ → ℤ) {configuration : Configuration}
    (hdepth : 0 < configuration.depth) (value : Item) :
    coordinates hash configuration value ≠ [] := by
  intro h
  rw [coordinates, map_eq_nil_iff, range_eq_nil] at h
  exact hdepth.ne' h

/-- Assumes: the items of every increment are distinct. With a matrix of at least one row, and if
the imports into sketches without a matrix merge integers only, no sketch under-counts at any point
of a run, for every hash function. -/
theorem neverUnder_of_everyStep (hash : Item → ℕ → ℤ) {configuration : Configuration}
    (hdepth : 0 < configuration.depth) {commands : List (Command Item)}
    (hdistinct : (sketches hash configuration).EveryStep State.Distinct
      (sketches hash configuration).init commands)
    (hmerges : (sketches hash configuration).EveryStep
      (State.MergesIntegers (coordinates hash configuration))
      (sketches hash configuration).init commands) :
    ∀ first, first <+: commands →
      ((sketches hash configuration).run first).NeverUnder (coordinates hash configuration)
        configuration.index := by
  have hcs := coordinates_ne_nil hash hdepth
  have hinit : (sketches hash configuration).init.Invariant (coordinates hash configuration)
      configuration.index := by
    refine ⟨fun key ↦ ⟨fun value score h ↦ ?_, fun c ↦ le_refl _, nodup_nil, fun _ ↦
      ⟨fun value score h ↦ ?_, fun value _ ↦ le_refl _, Or.inr rfl⟩, fun h ↦ absurd rfl h⟩,
      fun source h ↦ ?_⟩
    all_goals simp [sketches] at h
  have hstep : ∀ (s : State Item) (command : Command Item),
      s.Invariant (coordinates hash configuration) configuration.index → s.Distinct command →
      s.MergesIntegers (coordinates hash configuration) command →
      ((sketches hash configuration).step s command).Invariant (coordinates hash configuration)
        configuration.index :=
    fun s command h hassumed hcondition ↦ h.step hcs hassumed hcondition
  intro first hfirst
  exact ((sketches hash configuration).forall_prefix_of_everyStep hstep hinit hdistinct hmerges
    first hfirst).neverUnder hcs

/-- All items have the same coordinate. -/
def oneField : ℕ → ℕ → ℤ := fun _ _ ↦ 0

/-- A sketch with a matrix is imported into one without. -/
def oneImport : List (Command ℕ) :=
  [.incr 0 [(5, 1)], .incr 1 [(0, 1), (1, 2)], .exportPayload 1,
    .importPayload 0 0 ⟨[(0, 1), (1, 2)], [((1, 1), 2)]⟩]

theorem neverUnder_oneImport : ((sketches oneField ⟨1, 1, 2⟩).run oneImport).NeverUnder
    (coordinates oneField ⟨1, 1, 2⟩) 2 :=
  neverUnder_of_everyStep oneField (by decide) (by decide +kernel) (by decide +kernel) oneImport
    (prefix_refl _)

/-- The import of a fraction fails, after which item `5` is incremented, and a payload imported. -/
def failedImport : List (Command ℕ) :=
  [.incr 0 [(5, 1)], .incr 1 [(0, 1 / 2), (1, 1 / 2)], .exportPayload 1,
    .importPayload 0 0 ⟨[(0, 1 / 2), (1, 1 / 2)], [((1, 1), 1 / 2)]⟩,
    .incr 0 [(5, 10)], .incr 2 [(0, 1), (1, 1)], .exportPayload 2,
    .importPayload 0 1 ⟨[(0, 1), (1, 1)], [((1, 1), 1)]⟩]

theorem run_failedImport :
    let s := (sketches oneField ⟨1, 1, 2⟩).run failedImport
    estimate (coordinates oneField ⟨1, 1, 2⟩) (s.sketches 0) 5 = some 2 ∧ s.totals 0 5 = 11 := by
  decide +kernel

theorem not_neverUnder :
    ¬ ∀ (hash : ℕ → ℕ → ℤ) (configuration : Configuration) (commands : List (Command ℕ)),
      (sketches hash configuration).EveryStep State.Distinct (sketches hash configuration).init
        commands →
      ((sketches hash configuration).run commands).NeverUnder (coordinates hash configuration)
        configuration.index := by
  intro h
  have hdistinct : (sketches oneField ⟨1, 1, 2⟩).EveryStep State.Distinct
      (sketches oneField ⟨1, 1, 2⟩).init failedImport := by decide +kernel
  obtain ⟨score, hscore, hle⟩ := (h oneField ⟨1, 1, 2⟩ failedImport hdistinct 0).1 5
  obtain ⟨hestimate, htotal⟩ := run_failedImport
  rw [hestimate] at hscore
  rw [htotal, ← Option.some.inj hscore] at hle
  norm_num at hle

end Sentry.Tsdb.CountMin
