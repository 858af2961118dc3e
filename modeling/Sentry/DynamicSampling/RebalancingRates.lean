import Sentry.DynamicSampling.RebalancingBudget

/-!
# The rates of the rebalancing model for transactions

The explicit rates are between 0 and 1, and the implicit rate is at most 1. With an intensity below
1 the explicit classes can use more than the whole budget. Of `n` explicit classes this is at most
`(1 - intensity) * (n - growth intensity (n - 1))` times the budget of a class, so the rates are
valid when there are that many implicit classes (`validRates_of_enoughImplicit`), and that is exact
(`validRates_iff`).
-/

namespace Sentry.DynamicSampling

open Library List

namespace TransactionsRebalancingInput

/-- The model returns rates between 0 and 1. -/
def ValidRates (modelInput : TransactionsRebalancingInput) : Prop :=
  ∃ rates implicitRate, modelInput.run = .ok (rates, implicitRate) ∧
    (∀ item ∈ rates, 0 ≤ item.newSampleRate ∧ item.newSampleRate ≤ 1) ∧
      0 ≤ implicitRate ∧ implicitRate ≤ 1

/-- Assumes: enough implicit classes for what small explicit classes leave to large ones. -/
theorem validRates_of_enoughImplicit {modelInput : TransactionsRebalancingInput}
    (h : modelInput.Admissible) (henough : modelInput.EnoughImplicit) : modelInput.ValidRates := by
  obtain ⟨rates, implicitRate, hrun, hrates⟩ := exists_run h
  exact ⟨rates, implicitRate, hrun, hrates.rate_mem, hrates.implicitRate_nonneg henough,
    hrates.implicitRate_le⟩

/-- A large class and `k` small ones, with `m` implicit classes of volume 1, at a budget of 1 for
each class. -/
def oneLarge (k m : ℕ) (intensity spread : ℚ) : TransactionsRebalancingInput where
  classes := ⟨"large", (k + 1) * (spread - k), 0⟩ :: List.replicate k ⟨"small", k + 1, 0⟩
  sampleRate := (k + 1 + m) / ((k + 1) * spread + m)
  totalNumClasses := some (k + 1 + m)
  total := some ((k + 1) * spread + m)
  intensity := intensity

section OneLarge

variable {k m : ℕ} {intensity spread : ℚ}

theorem sumClassesCounts_oneLarge :
    sumClassesCounts (oneLarge k m intensity spread).classes = (k + 1) * spread := by
  simp only [sumClassesCounts, oneLarge, map_cons, map_replicate, sum_cons,
    sum_replicate, nsmul_eq_mul]
  ring

theorem oneLarge_admissible (hintensity : 0 ≤ intensity ∧ intensity ≤ 1) (hspread : k + 1 < spread)
    : (oneLarge k m intensity spread).Admissible := by
  have hk : (0 : ℚ) < k + 1 := by positivity
  have htotal : 0 < (k + 1) * spread + m := by
    have := mul_pos hk (hk.trans hspread)
    linarith
  have hrate : 0 ≤ (k + 1 + m) / ((k + 1) * spread + m) ∧
      (k + 1 + m) / ((k + 1) * spread + m) ≤ 1 := by
    refine ⟨div_nonneg (by linarith) htotal.le, (div_le_one htotal).mpr ?_⟩
    have hmul : (k + 1) * 1 ≤ (k + 1) * spread := mul_le_mul_of_nonneg_left (by linarith) hk.le
    linarith
  refine
    { validate := (validate_iff _).mpr ⟨hrate, hintensity, Nat.succ_pos _⟩
      count_pos := ?_
      le_total := ?_
      le_numClasses := ?_
      implicit_pos := ?_ }
  · intro element helement
    rcases mem_cons.mp helement with rfl | helement
    · exact mul_pos hk (by linarith)
    · rw [eq_of_mem_replicate helement]
      exact hk
  · rw [sumClassesCounts_oneLarge]
    simp [totalVolume, oneLarge]
  · simp [numClasses, oneLarge]
  · intro hsome
    rw [sumClassesCounts_oneLarge]
    simp [numClasses, oneLarge, totalVolume] at hsome ⊢
    exact hsome

theorem sortClasses_oneLarge (hspread : k + 1 < spread) :
    sortClasses (oneLarge k m intensity spread).classes =
      (oneLarge k m intensity spread).classes := by
  have hk : (0 : ℚ) < k + 1 := by positivity
  refine List.Pairwise.insertionSort_eq (pairwise_cons.mpr ⟨?_, ?_⟩)
  · intro element helement
    rw [eq_of_mem_replicate helement]
    exact Or.inl (lt_mul_of_one_lt_right hk (by linarith))
  · exact pairwise_replicate.mpr (Or.inr (Or.inr ⟨rfl, le_rfl⟩))

theorem totalExplicit_oneLarge :
    (oneLarge k m intensity spread).totalExplicit = (k + 1) * spread := by
  rw [totalExplicit_eq, sumClassesCounts_oneLarge]

theorem totalImplicit_oneLarge : (oneLarge k m intensity spread).totalImplicit = m := by
  rw [totalImplicit, totalExplicit_oneLarge]
  exact add_sub_cancel_left _ _

theorem numExplicitClasses_oneLarge :
    (oneLarge k m intensity spread).numExplicitClasses = k + 1 := by
  rw [numExplicitClasses_eq]
  simp [oneLarge]

theorem numClasses_oneLarge : (oneLarge k m intensity spread).numClasses = k + 1 + m := rfl

theorem numImplicitClasses_oneLarge : (oneLarge k m intensity spread).numImplicitClasses = m := by
  rw [numImplicitClasses, numClasses_oneLarge, numExplicitClasses_oneLarge, add_sub_cancel_left]

theorem totalBudget_oneLarge (hspread : k + 1 < spread) :
    (oneLarge k m intensity spread).totalBudget = k + 1 + m := by
  have hpos : 0 < (k + 1) * spread + m := by
    have := mul_pos (by positivity : (0 : ℚ) < k + 1) (lt_trans (by positivity) hspread)
    positivity
  exact mul_div_cancel₀ _ hpos.ne'

theorem budgetPerClass_oneLarge (hspread : k + 1 < spread) :
    (oneLarge k m intensity spread).budgetPerClass = 1 := by
  have hpos : (0 : ℚ) < k + 1 + m := by positivity
  rw [budgetPerClass, totalBudget_oneLarge hspread, numClasses_oneLarge]
  push_cast
  exact div_self hpos.ne'

theorem map_shareOf_oneLarge :
    (oneLarge k m intensity spread).classes.reverse.map (shareOf (1 / spread)) =
      List.replicate k ⟨k + 1, (k + 1) * (1 / spread)⟩ ++
        [⟨(k + 1) * (spread - k), (k + 1) * (spread - k) * (1 / spread)⟩] := by
  simp [oneLarge, shareOf]

theorem sum_allocate_oneLarge (hintensity : 0 ≤ intensity ∧ intensity ≤ 1)
    (hspread : k + 1 < spread) :
    (allocate intensity 1 (1 * (k + 1)) ((oneLarge k m intensity spread).classes.reverse.map
      (shareOf (1 / spread)))).sum =
        k + 1 + (1 - intensity) * ((1 - (k + 1) / spread) * (k + 1 - growth intensity k)) := by
  have hk : (0 : ℚ) < k + 1 := by positivity
  have hpos : 0 < spread := hk.trans hspread
  have hgrowth : growth intensity k ≤ k + 1 := growth_le hintensity.1 hintensity.2 k
  have hgrowth0 : 0 ≤ growth intensity k := growth_nonneg hintensity.2 k
  set share := (k + 1) * (1 / spread) with hshare
  have hshare0 : 0 ≤ share := by positivity
  have hshare1 : share ≤ 1 := by
    rw [hshare, mul_one_div]
    exact (div_le_one hpos).mpr hspread.le
  have hlarge : (k + 1) * (spread - k) * (1 / spread) = k + 1 - k * share := by
    rw [hshare]
    field_simp
  -- the level reached at the large class
  set top := share + (1 - share) * growth intensity k with htop
  have htopLe : top ≤ k + 1 := by
    have hgrown : (1 - share) * growth intensity k ≤ (1 - share) * (k + 1) :=
      mul_le_mul_of_nonneg_left hgrowth (sub_nonneg.mpr hshare1)
    have hmany : 0 ≤ share * k := mul_nonneg hshare0 (Nat.cast_nonneg k)
    linarith
  have hcapacity : (k + 1 : ℚ) ≤ (k + 1) * (spread - k) :=
    le_mul_of_one_le_right hk.le (by linarith)
  have hfitsSmall : share + (1 - share) * growth intensity k * intensity ≤ k + 1 := by
    have hpart : (1 - share) * growth intensity k * intensity ≤ (1 - share) * growth intensity k :=
      mul_le_of_le_one_right (mul_nonneg (sub_nonneg.mpr hshare1) hgrowth0) hintensity.2
    linarith
  have hfitsLarge : (k + 1) * (spread - k) * (1 / spread) +
      (top - (k + 1) * (spread - k) * (1 / spread)) * intensity ≤ (k + 1) * (spread - k) := by
    have hmany : 0 ≤ k * share := mul_nonneg (Nat.cast_nonneg k) hshare0
    have hbelow : (1 - intensity) * (k + 1 - k * share) ≤ (1 - intensity) * (k + 1) :=
      mul_le_mul_of_nonneg_left (by linarith) (sub_nonneg.mpr hintensity.2)
    have htopPart : intensity * top ≤ intensity * (k + 1) :=
      mul_le_mul_of_nonneg_left htopLe hintensity.1
    rw [hlarge]
    linarith
  rw [map_shareOf_oneLarge, sum_allocate_replicate k hintensity.1 hintensity.2 hshare1 hfitsSmall
    hfitsLarge, hlarge, ← htop]
  have hfraction : (k + 1) / spread = share := by rw [hshare, mul_one_div]
  ring

theorem fullRebalancing_oneLarge (hintensity : 0 ≤ intensity ∧ intensity ≤ 1)
    (hspread : k + 1 < spread) :
    ∃ rates, FullRebalancingInput.run
      ⟨(oneLarge k m intensity spread).classes, 1 / spread, intensity, some (k + 1)⟩ =
        .ok (rates, k + 1 +
          (1 - intensity) * ((1 - (k + 1) / spread) * (k + 1 - growth intensity k))) := by
  have h := oneLarge_admissible (m := m) hintensity hspread
  have hk : (0 : ℚ) < k + 1 := by positivity
  have hpos : 0 < spread := hk.trans hspread
  have hrate : 0 ≤ 1 / spread ∧ 1 / spread ≤ 1 :=
    ⟨by positivity, (div_le_one hpos).mpr (by linarith)⟩
  have hminimum : (some (k + 1 : ℚ)).getD (sumClassesCounts
      (oneLarge k m intensity spread).classes * (1 / spread)) ≤
        sumClassesCounts (oneLarge k m intensity spread).classes := by
    rw [Option.getD_some, sumClassesCounts_oneLarge]
    exact le_mul_of_one_le_right hk.le (by linarith)
  have hrun := fullRebalancing_run
    ⟨(oneLarge k m intensity spread).classes, 1 / spread, intensity, some (k + 1)⟩
    ((FullRebalancingInput.validate_iff _).mpr ⟨hrate, hintensity, Nat.succ_pos _⟩)
    h.count_pos hminimum
  have hlength : ((oneLarge k m intensity spread).classes.length : ℚ) = k + 1 := by simp [oneLarge]
  have hlevel : sumClassesCounts (oneLarge k m intensity spread).classes * (1 / spread) /
      (oneLarge k m intensity spread).classes.length = 1 := by
    rw [sumClassesCounts_oneLarge, hlength]
    field_simp
  have hused := sum_allocate_oneLarge (m := m) hintensity hspread
  rw [one_mul] at hused
  dsimp only at hrun
  rw [Option.getD_some, hlevel, hused] at hrun
  exact ⟨_, hrun⟩

theorem run_oneLarge (hm : 0 < m) (hintensity : 0 ≤ intensity ∧ intensity ≤ 1)
    (hspread : k + 1 < spread) :
    ∃ rates, (oneLarge k m intensity spread).run = .ok (rates,
      (m - (1 - intensity) * ((1 - (k + 1) / spread) * (k + 1 - growth intensity k))) / m) := by
  have h := oneLarge_admissible (m := m) hintensity hspread
  have hk : (0 : ℚ) < k + 1 := by positivity
  have hrate : 1 * ((k + 1 : ℤ) : ℚ) / ((k + 1) * spread) = 1 / spread := by
    push_cast
    field_simp
  have hminimum : (k + 1 + m - m : ℚ) = k + 1 := add_sub_cancel_right _ _
  have hsome : ¬(k + 1 : ℤ) = k + 1 + m := by omega
  have himplicit : ¬(m : ℚ) < 1 * ((m : ℤ) : ℚ) := by simp
  have hexplicit : ¬(k + 1) * spread < 1 * ((k + 1 : ℤ) : ℚ) := by
    rw [not_lt, one_mul]
    push_cast
    exact le_mul_of_one_le_right hk.le (by linarith)
  obtain ⟨rates, hrun⟩ := fullRebalancing_oneLarge (m := m) hintensity hspread
  have hintensityEq : (oneLarge k m intensity spread).intensity = intensity := rfl
  rw [run_eq h, budgetPerClass_oneLarge hspread, totalBudget_oneLarge hspread,
    totalExplicit_oneLarge, totalImplicit_oneLarge, numExplicitClasses_oneLarge,
    numImplicitClasses_oneLarge, numClasses_oneLarge, sortClasses_oneLarge hspread, hrate,
    hminimum, if_neg hsome, if_neg himplicit, if_neg hexplicit, hintensityEq, hrun]
  refine ⟨rates, congrArg (fun rate ↦ Except.ok (rates, rate)) ?_⟩
  ring

/-- Assumes: implicit classes, but not enough of them. Then a spread of the large class is not
valid. -/
theorem exists_not_validRates_oneLarge (hm : 0 < m) (hintensity : 0 ≤ intensity ∧ intensity ≤ 1)
    (hmany : m < (1 - intensity) * (k + 1 - growth intensity k)) :
    ∃ spread : ℚ, (k + 1 : ℚ) < spread ∧ ¬(oneLarge k m intensity spread).ValidRates := by
  set excess := (1 - intensity) * (k + 1 - growth intensity k) with hexcess
  have hmPos : (0 : ℚ) < m := Nat.cast_pos.mpr hm
  have hexcessPos : 0 < excess := hmPos.trans hmany
  have hgap : 0 < excess - m := sub_pos.mpr hmany
  -- a spread at which less than the gap is lost of the excess
  set spread := (k + 1) * (2 * excess / (excess - m)) with hspread
  have hspreadLt : k + 1 < spread := by
    refine lt_mul_of_one_lt_right (by positivity) ((one_lt_div hgap).mpr ?_)
    linarith
  have hlost : (k + 1) / spread = (excess - m) / (2 * excess) := by
    rw [hspread]
    field_simp
  have hused : (1 - intensity) * ((1 - (k + 1) / spread) * (k + 1 - growth intensity k)) =
      (excess + m) / 2 :=
    calc (1 - intensity) * ((1 - (k + 1) / spread) * (k + 1 - growth intensity k))
        = (1 - (excess - m) / (2 * excess)) * excess := by rw [hlost, hexcess]; ring
      _ = (excess + m) / 2 := by field_simp; ring
  obtain ⟨rates, hrun⟩ := run_oneLarge hm hintensity hspreadLt
  have hnegative : (m - (excess + m) / 2) / m < 0 := div_neg_of_neg_of_pos (by linarith) hmPos
  refine ⟨spread, hspreadLt, ?_⟩
  intro hvalid
  obtain ⟨rates', implicitRate, hrun', -, hnonneg, -⟩ := hvalid
  rw [hrun, hused] at hrun'
  have himplicit : (m - (excess + m) / 2) / m = implicitRate :=
    congrArg Prod.snd (Except.ok.inj hrun')
  rw [himplicit] at hnegative
  exact absurd hnonneg (not_le.mpr hnegative)

end OneLarge

/-- Two inputs with as many explicit classes, as many classes and the same intensity. -/
structure SameKind (modelInput other : TransactionsRebalancingInput) : Prop where
  length_eq : other.classes.length = modelInput.classes.length
  numClasses_eq : other.numClasses = modelInput.numClasses
  intensity_eq : other.intensity = modelInput.intensity

/-- There are no implicit classes, or enough for the explicit ones. This depends on the kind of an
input only. -/
def EnoughForKind (modelInput : TransactionsRebalancingInput) : Prop :=
  modelInput.numImplicitClasses = 0 ∨
    (1 - modelInput.intensity) * (modelInput.classes.length -
      growth modelInput.intensity (modelInput.classes.length - 1)) ≤ modelInput.numImplicitClasses

theorem EnoughForKind.of_sameKind {modelInput other : TransactionsRebalancingInput}
    (h : modelInput.EnoughForKind) (hkind : SameKind modelInput other) :
    other.EnoughImplicit := by
  have himplicit : other.numImplicitClasses = modelInput.numImplicitClasses := by
    rw [numImplicitClasses, numImplicitClasses, numExplicitClasses_eq, numExplicitClasses_eq,
      hkind.numClasses_eq, hkind.length_eq]
  rw [EnoughImplicit, himplicit, hkind.length_eq, hkind.intensity_eq]
  rcases h with hnone | hmany
  · exact Or.inl hnone
  · exact Or.inr (Or.inr (Or.inr hmany))

/-- The returned rates are valid for an admissible input with enough implicit classes. All inputs of
its kind give valid rates exactly when there are no implicit classes, or enough for the explicit
ones. -/
theorem validRates_iff {modelInput : TransactionsRebalancingInput} (h : modelInput.Admissible) :
    (modelInput.EnoughImplicit → modelInput.ValidRates) ∧
      ((∀ other : TransactionsRebalancingInput, other.Admissible → SameKind modelInput other →
        other.ValidRates) ↔ modelInput.EnoughForKind) := by
  refine ⟨validRates_of_enoughImplicit h, ?_⟩
  constructor
  · intro hvalid
    by_contra hmany
    obtain ⟨hm, hmany⟩ := not_or.mp hmany
    obtain ⟨k, hk⟩ := Nat.exists_eq_succ_of_ne_zero h.length_pos.ne'
    obtain ⟨m, hnat⟩ := Int.eq_ofNat_of_zero_le
      (by exact_mod_cast h.numImplicitClasses_nonneg)
    rw [hk, hnat, Nat.succ_sub_one, Nat.cast_succ, not_le] at hmany
    rw [hnat] at hm
    obtain ⟨spread, hspread, hnot⟩ := exists_not_validRates_oneLarge
      (Nat.pos_of_ne_zero (by exact_mod_cast hm)) h.intensity_mem (by exact_mod_cast hmany)
    have hclasses : modelInput.numClasses = k + 1 + m := by
      rw [numImplicitClasses, numExplicitClasses_eq, hk] at hnat
      push_cast at hnat
      linarith
    apply hnot
    apply hvalid _ (oneLarge_admissible h.intensity_mem hspread)
    refine ⟨?_, ?_, rfl⟩
    · simp [oneLarge, hk]
    · rw [numClasses_oneLarge, hclasses]
  · intro hkind other hother hsame
    exact validRates_of_enoughImplicit hother (hkind.of_sameKind hsame)

/-- Six explicit classes of eight, one of them large. -/
def sixOfEight : TransactionsRebalancingInput where
  classes := [⟨"a", 100, 0⟩, ⟨"b", 100, 0⟩, ⟨"c", 100, 0⟩, ⟨"d", 100, 0⟩, ⟨"e", 100, 0⟩,
    ⟨"f", 59500, 0⟩]
  sampleRate := 800 / 60200
  totalNumClasses := some 8
  total := some 60200
  intensity := 1 / 2

theorem sixOfEight_validRates : sixOfEight.ValidRates := by
  have hadmissible : sixOfEight.Admissible :=
    { validate := by decide +kernel
      count_pos := by decide +kernel
      le_total := by decide +kernel
      le_numClasses := by decide +kernel
      implicit_pos := by decide +kernel }
  have hkind : sixOfEight.EnoughForKind := by
    right
    show (1 - 1 / 2 : ℚ) * ((6 : ℕ) - growth (1 / 2) (6 - 1)) ≤ ((2 : ℤ) : ℚ)
    norm_num [growth, Finset.prod_range_succ]
  exact (validRates_iff hadmissible).2.mpr hkind sixOfEight hadmissible ⟨rfl, rfl, rfl⟩

/-- Six explicit classes of seven, one of them large. -/
def sixOfSeven : TransactionsRebalancingInput where
  classes := [⟨"a", 100, 0⟩, ⟨"b", 100, 0⟩, ⟨"c", 100, 0⟩, ⟨"d", 100, 0⟩, ⟨"e", 100, 0⟩,
    ⟨"f", 59500, 0⟩]
  sampleRate := 700 / 60100
  totalNumClasses := some 7
  total := some 60100
  intensity := 1 / 2

/-- An admissible input with a negative implicit rate. -/
theorem sixOfSeven_run : sixOfSeven.Admissible ∧
    sixOfSeven.run.map Prod.snd = .ok (-32257 / 51200) ∧ ¬sixOfSeven.ValidRates := by
  have hadmissible : sixOfSeven.Admissible :=
    { validate := by decide +kernel
      count_pos := by decide +kernel
      le_total := by decide +kernel
      le_numClasses := by decide +kernel
      implicit_pos := by decide +kernel }
  have hrun : sixOfSeven.run.map Prod.snd = .ok (-32257 / 51200) := by decide +kernel
  refine ⟨hadmissible, hrun, ?_⟩
  intro hvalid
  obtain ⟨rates, implicitRate, hok, -, hnonneg, -⟩ := hvalid
  rw [hok] at hrun
  have himplicit : implicitRate = -32257 / 51200 := Except.ok.inj hrun
  rw [himplicit] at hnonneg
  norm_num at hnonneg

end TransactionsRebalancingInput

end Sentry.DynamicSampling
