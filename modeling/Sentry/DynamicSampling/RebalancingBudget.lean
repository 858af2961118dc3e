import Sentry.DynamicSampling.Rebalancing
import Mathlib.Tactic.LinearCombination

/-!
# The budget of the rebalancing models

A full rebalancing of sorted classes gives rates between 0 and 1 and keeps at least the minimum
budget (`rebalanced_sorted`), with intensity 1 just that. In each of the four branches of the model
for transactions (`TransactionsRebalancingInput.run_eq`) the volume kept is at least the total at
the sample rate, and the same with intensity 1, and so it is for projects (`keeps_budget`).
-/

namespace Sentry.DynamicSampling

open Library List

variable {ι : Type}

/-! ### Sorted classes -/

instance keyGE_total [LinearOrder ι] : Std.Total (KeyGE (ι := ι)) := ⟨fun first second ↦ by
  rcases lt_trichotomy first.count second.count with h | h | h
  · exact Or.inr (Or.inl h)
  · rcases le_total first.id second.id with hid | hid
    · exact Or.inr (Or.inr ⟨h, hid⟩)
    · exact Or.inl (Or.inr ⟨h.symm, hid⟩)
  · exact Or.inl (Or.inl h)⟩

instance keyGE_trans [LinearOrder ι] : IsTrans (RebalancedItem ι) KeyGE := ⟨fun a b c hab hbc ↦ by
  rcases hab with hab | ⟨hab, hid⟩ <;> rcases hbc with hbc | ⟨hbc, hid'⟩
  · exact Or.inl (hbc.trans hab)
  · exact Or.inl (hbc ▸ hab)
  · exact Or.inl (hab ▸ hbc)
  · exact Or.inr ⟨hbc.trans hab, hid'.trans hid⟩⟩

section

variable [LinearOrder ι] (classes : List (RebalancedItem ι))

include classes

theorem perm_sortClasses : (sortClasses classes).Perm classes := perm_insertionSort _ classes

@[simp] theorem sumClassesCounts_sortClasses :
    sumClassesCounts (sortClasses classes) = sumClassesCounts classes :=
  ((perm_sortClasses classes).map _).sum_eq

@[simp] theorem length_sortClasses :
    (sortClasses classes).length = classes.length := (perm_sortClasses classes).length_eq

theorem pairwise_reverse_sortClasses :
    (sortClasses classes).reverse.Pairwise fun first second ↦ first.count ≤ second.count := by
  refine pairwise_reverse.mpr
    ((pairwise_insertionSort KeyGE classes).imp fun {first second} h ↦ ?_)
  exact h.elim le_of_lt fun h ↦ h.1.le

end

variable {classes : List (RebalancedItem ι)}

theorem sumClassesCounts_pos
    (hcounts : ∀ element ∈ classes, 0 < element.count) (hlength : 0 < classes.length) :
    0 < sumClassesCounts classes := by
  refine sum_pos _ ?_ ?_
  · simpa using hcounts
  · rwa [Ne, map_eq_nil_iff, ← length_eq_zero_iff, ← Ne, ← Nat.pos_iff_ne_zero]

/-! ### Rates of a full rebalancing -/

/-- The volume kept of classes with their rates. -/
def keptVolume (rates : List (RebalancedItem ι)) : ℚ :=
  (rates.map fun item ↦ item.count * item.newSampleRate).sum

/-- The rates are those of the classes, in some order. -/
def RatesOf (rates classes : List (RebalancedItem ι)) : Prop :=
  (rates.map fun item ↦ (item.id, item.count)).Perm
    (classes.map fun element ↦ (element.id, element.count))

/-- Every class keeps the smaller of its count and one common level. -/
def WaterFilled (rates : List (RebalancedItem ι)) : Prop :=
  ∃ level, ∀ item ∈ rates, item.count * item.newSampleRate = min item.count level

section

variable {elements : List (RebalancedItem ι)} {kept : List ℚ}

theorem map_zipWith_withAmount (hlength : kept.length = elements.length) :
    (List.zipWith withAmount elements kept).map (fun item ↦ (item.id, item.count)) =
      elements.map fun element ↦ (element.id, element.count) := by
  induction elements generalizing kept with
  | nil => rfl
  | cons element rest ih =>
    cases kept with
    | nil => cases hlength
    | cons amount kept =>
      rw [zipWith_cons_cons, map_cons, map_cons, ih (Nat.succ.inj hlength)]
      rfl

theorem keptVolume_zipWith_withAmount (hcounts : ∀ element ∈ elements, 0 < element.count)
    (hlength : kept.length = elements.length) :
    keptVolume (List.zipWith withAmount elements kept) = kept.sum := by
  induction elements generalizing kept with
  | nil =>
    rw [length_eq_zero_iff.mp hlength]
    rfl
  | cons element rest ih =>
    cases kept with
    | nil => cases hlength
    | cons amount kept =>
      have hrest := ih (fun other hother ↦ hcounts other (mem_cons_of_mem element hother))
        (Nat.succ.inj hlength)
      have hne : element.count ≠ 0 := (hcounts element mem_cons_self).ne'
      rw [keptVolume] at hrest ⊢
      rw [zipWith_cons_cons, map_cons, sum_cons, sum_cons, hrest]
      rw [withAmount, mul_div_cancel₀ _ hne]

theorem rate_mem_Icc_of_forall₂ (hcounts : ∀ element ∈ elements, 0 < element.count)
    (h : List.Forall₂ (fun element amount ↦ 0 ≤ amount ∧ amount ≤ element.count) elements kept) :
    ∀ item ∈ List.zipWith withAmount elements kept,
      0 ≤ item.newSampleRate ∧ item.newSampleRate ≤ 1 := by
  induction h with
  | nil => simp
  | @cons element amount elements kept hamount _ ih =>
    intro item hitem
    rcases mem_cons.mp hitem with rfl | hitem
    · have hpos := hcounts element mem_cons_self
      exact ⟨div_nonneg hamount.1 hpos.le, (div_le_one hpos).mpr hamount.2⟩
    · exact ih (fun other hother ↦ hcounts other (mem_cons_of_mem element hother)) item hitem

end

/-- What a full rebalancing gives for classes at a rate and with a minimum budget. It uses at least
the minimum budget, and above the volume at the rate at most what small classes leave to large
ones. -/
structure Rebalanced (classes : List (RebalancedItem ι)) (sampleRate intensity minBudget : ℚ)
    (rates : List (RebalancedItem ι)) (used : ℚ) : Prop where
  ratesOf : RatesOf rates classes
  rate_mem : ∀ item ∈ rates, 0 ≤ item.newSampleRate ∧ item.newSampleRate ≤ 1
  keptVolume_eq : keptVolume rates = used
  le_used : minBudget ≤ used
  used_le : used ≤ sumClassesCounts classes * sampleRate +
    (1 - intensity) * (sumClassesCounts classes * sampleRate / classes.length *
      (classes.length - growth intensity (classes.length - 1)))
  waterFilled : intensity = 1 → WaterFilled rates

theorem Rebalanced.of_perm {elements classes : List (RebalancedItem ι)}
    {sampleRate intensity minBudget : ℚ} {rates : List (RebalancedItem ι)} {used : ℚ}
    (h : Rebalanced elements sampleRate intensity minBudget rates used)
    (hperm : elements.Perm classes) :
    Rebalanced classes sampleRate intensity minBudget rates used where
  ratesOf := h.ratesOf.trans (hperm.map _)
  rate_mem := h.rate_mem
  keptVolume_eq := h.keptVolume_eq
  le_used := h.le_used
  used_le := by
    have hsum : sumClassesCounts elements = sumClassesCounts classes := (hperm.map _).sum_eq
    rw [← hsum, ← hperm.length_eq]
    exact h.used_le
  waterFilled := h.waterFilled

theorem Rebalanced.used_le_of_intensity_one
    {sampleRate intensity minBudget : ℚ} {rates : List (RebalancedItem ι)} {used : ℚ}
    (h : Rebalanced classes sampleRate intensity minBudget rates used) (hone : intensity = 1) :
    used ≤ sumClassesCounts classes * sampleRate := by
  have hused := h.used_le
  rwa [hone, sub_self, zero_mul, add_zero] at hused

theorem sumShares_shareOf (sampleRate : ℚ) (elements : List (RebalancedItem ι)) :
    sumShares (elements.map (shareOf sampleRate)) = sumClassesCounts elements * sampleRate := by
  rw [sumShares, map_map, sumClassesCounts, ← sum_map_mul_right]
  rfl

theorem shareOf_mem_Icc {sampleRate : ℚ} (hrate : 0 ≤ sampleRate ∧ sampleRate ≤ 1)
    {elements : List (RebalancedItem ι)} (hcounts : ∀ element ∈ elements, 0 < element.count) :
    ∀ item ∈ elements.map (shareOf sampleRate), 0 ≤ item.share ∧ item.share ≤ item.capacity := by
  intro item hitem
  obtain ⟨element, helement, rfl⟩ := mem_map.mp hitem
  have hpos := hcounts element helement
  exact ⟨mul_nonneg hpos.le hrate.1, mul_le_of_le_one_right hpos.le hrate.2⟩

theorem pairwise_shareOf {sampleRate : ℚ} (hrate : 0 ≤ sampleRate)
    {elements : List (RebalancedItem ι)}
    (hsorted : elements.Pairwise fun first second ↦ first.count ≤ second.count) :
    (elements.map (shareOf sampleRate)).Pairwise fun item other ↦ item.share ≤ other.share :=
  pairwise_map.mpr (hsorted.imp fun h ↦ mul_le_mul_of_nonneg_right h hrate)

section Allocation

variable {elements : List (RebalancedItem ι)} (hcounts : ∀ element ∈ elements, 0 < element.count)
  (hlength : 0 < elements.length) {sampleRate intensity minBudget : ℚ}
  (hrate : 0 ≤ sampleRate ∧ sampleRate ≤ 1)
  (hminimum : minBudget ≤ sumClassesCounts elements * sampleRate)

include hlength in
theorem level_mul_length (volume : ℚ) : volume / elements.length * elements.length = volume :=
  div_mul_cancel₀ _ (Nat.cast_pos.mpr hlength).ne'

include hcounts hlength hrate in
theorem level_nonneg : 0 ≤ sumClassesCounts elements * sampleRate / elements.length :=
  div_nonneg (mul_nonneg (sumClassesCounts_pos hcounts hlength).le hrate.1) (Nat.cast_nonneg _)

include hcounts hlength hrate hminimum in
theorem sum_allocate_shareOf_le (hintensity : 0 ≤ intensity ∧ intensity ≤ 1) :
    (allocate intensity (sumClassesCounts elements * sampleRate / elements.length) minBudget
      (elements.map (shareOf sampleRate))).sum ≤ sumClassesCounts elements * sampleRate +
        (1 - intensity) * (sumClassesCounts elements * sampleRate / elements.length *
          (elements.length - growth intensity (elements.length - 1))) := by
  have hlevel := level_nonneg hcounts hlength hrate
  have hshares := shareOf_mem_Icc hrate hcounts
  set volume := sumClassesCounts elements * sampleRate with hvolume
  have hsplit := level_mul_length hlength volume
  obtain ⟨element, rest, helements⟩ := exists_cons_of_length_pos hlength
  have hn : ((rest.length : ℚ) + 1) = elements.length := by simp [helements]
  have hcut : elements.length - 1 = rest.length := by simp [helements]
  have hmap : elements.map (shareOf sampleRate) =
      shareOf sampleRate element :: rest.map (shareOf sampleRate) := by
    rw [helements, map_cons]
  have hreach : minBudget ≤ volume / elements.length *
      ((rest.map (shareOf sampleRate)).length + 1) := by
    rw [length_map, hn, hsplit]
    exact hminimum
  have hbound := sum_allocate_le hintensity.1 hintensity.2 hlevel
    (hmap ▸ fun item hitem ↦ (hshares item hitem).1) hreach
  rw [← hmap, sumShares_shareOf, length_map, hn] at hbound
  rw [hcut]
  calc (allocate intensity (volume / elements.length) minBudget
        (elements.map (shareOf sampleRate))).sum
      ≤ (1 - intensity) * volume + volume / elements.length *
        (elements.length - (1 - intensity) * growth intensity rest.length) := hbound
    _ = volume + (1 - intensity) * (volume / elements.length *
        (elements.length - growth intensity rest.length)) := by
      linear_combination intensity * hsplit

include hcounts hlength hminimum in
theorem waterFilled_allocate_one
    (hsorted : elements.Pairwise fun first second ↦ first.count ≤ second.count) :
    WaterFilled (List.zipWith withAmount elements
      (allocate 1 (sumClassesCounts elements * sampleRate / elements.length) minBudget
        (elements.map (shareOf sampleRate)))) := by
  have hreach : minBudget ≤ sumClassesCounts elements * sampleRate / elements.length *
      (elements.map (shareOf sampleRate)).length := by
    rwa [length_map, level_mul_length hlength]
  obtain ⟨common, -, hcommon⟩ :=
    exists_allocate_one_eq_map_min (pairwise_map.mpr hsorted) hreach
  refine ⟨common, fun item hitem ↦ ?_⟩
  rw [hcommon, map_map, zipWith_map_right, zipWith_self] at hitem
  obtain ⟨element, helement, rfl⟩ := mem_map.mp hitem
  exact mul_div_cancel₀ _ (hcounts element helement).ne'

include hcounts hlength hrate hminimum in
/-- Assumes: classes of ascending count, with counts, an equal split of their volume at the rate,
and a minimum budget that is at most that volume. The amounts of an allocation give their rates. -/
theorem rebalanced_zipWith
    (hsorted : elements.Pairwise fun first second ↦ first.count ≤ second.count)
    (hintensity : 0 ≤ intensity ∧ intensity ≤ 1) :
    let kept := allocate intensity (sumClassesCounts elements * sampleRate / elements.length)
      minBudget (elements.map (shareOf sampleRate))
    Rebalanced elements sampleRate intensity minBudget
      (List.zipWith withAmount elements kept) kept.sum := by
  intro kept
  have hkept : kept.length = elements.length := by simp [kept]
  have hshares := shareOf_mem_Icc hrate hcounts
  refine
    { ratesOf := by rw [RatesOf, map_zipWith_withAmount hkept]
      rate_mem := ?_
      keptVolume_eq := keptVolume_zipWith_withAmount hcounts hkept
      le_used := ?_
      used_le := sum_allocate_shareOf_le hcounts hlength hrate hminimum hintensity
      waterFilled := ?_ }
  · apply rate_mem_Icc_of_forall₂ hcounts
    have hamounts : List.Forall₂ (fun item taken ↦ 0 ≤ taken ∧ taken ≤ item.capacity)
        (elements.map (shareOf sampleRate)) kept :=
      allocate_mem_Icc hintensity.1 hintensity.2 (level_nonneg hcounts hlength hrate) hshares
    rwa [forall₂_map_left_iff] at hamounts
  · apply le_sum_allocate hintensity.1 hintensity.2 (pairwise_shareOf hrate.1 hsorted)
      (fun item hitem ↦ (hshares item hitem).2)
    rwa [sumShares_shareOf]
  · rintro rfl
    exact waterFilled_allocate_one hcounts hlength hminimum hsorted

end Allocation

section

variable [LinearOrder ι] (hcounts : ∀ element ∈ classes, 0 < element.count)
  (hlength : 0 < classes.length) {sampleRate intensity : ℚ}
  (hrate : 0 ≤ sampleRate ∧ sampleRate ≤ 1) (hintensity : 0 ≤ intensity ∧ intensity ≤ 1)

include hcounts hlength hrate hintensity

/-- Assumes: classes with counts, a rate and an intensity between 0 and 1, and a minimum budget
that is at most the volume at the rate. -/
theorem rebalanced_sorted {minBudget : Option ℚ}
    (hminimum : minBudget.getD (sumClassesCounts classes * sampleRate) ≤
      sumClassesCounts classes * sampleRate) :
    ∃ rates used,
      FullRebalancingInput.run ⟨sortClasses classes, sampleRate, intensity, minBudget⟩ =
        .ok (rates, used) ∧
      Rebalanced classes sampleRate intensity
        (minBudget.getD (sumClassesCounts classes * sampleRate)) rates used := by
  have hperm : (sortClasses classes).reverse.Perm classes :=
    (reverse_perm _).trans (perm_sortClasses classes)
  have hsum : sumClassesCounts (sortClasses classes).reverse = sumClassesCounts classes :=
    (hperm.map _).sum_eq
  have htotal : sumClassesCounts classes * sampleRate ≤ sumClassesCounts classes :=
    mul_le_of_le_one_right (sumClassesCounts_pos hcounts hlength).le hrate.2
  have hrun := fullRebalancing_run ⟨sortClasses classes, sampleRate, intensity, minBudget⟩
    ((FullRebalancingInput.validate_iff _).mpr ⟨hrate, hintensity, by simpa using hlength⟩)
    (fun element helement ↦ hcounts element ((perm_sortClasses classes).mem_iff.mp helement))
    (by simpa using hminimum.trans htotal)
  have hrebalanced := rebalanced_zipWith
    (fun element helement ↦ hcounts element (hperm.mem_iff.mp helement))
    (by simpa using hlength) hrate (hsum.symm ▸ hminimum) (pairwise_reverse_sortClasses classes)
    hintensity
  simp only [sumClassesCounts_sortClasses, length_sortClasses] at hrun
  simp only [hsum, length_reverse, length_sortClasses] at hrebalanced
  exact ⟨_, _, hrun, hrebalanced.of_perm hperm⟩

theorem exists_rebalanced :
    ∃ rates used,
      FullRebalancingInput.run ⟨sortClasses classes, sampleRate, intensity, none⟩ =
        .ok (rates, used) ∧
      Rebalanced classes sampleRate intensity (sumClassesCounts classes * sampleRate) rates
        used := by
  have hminimum : (none : Option ℚ).getD (sumClassesCounts classes * sampleRate) ≤
      sumClassesCounts classes * sampleRate := le_rfl
  exact rebalanced_sorted hcounts hlength hrate hintensity hminimum

end

/-! ### Transactions -/

namespace TransactionsRebalancingInput

variable {modelInput : TransactionsRebalancingInput}

def budgetPerClass (modelInput : TransactionsRebalancingInput) : ℚ :=
  modelInput.totalBudget / modelInput.numClasses

theorem totalExplicit_eq (modelInput : TransactionsRebalancingInput) :
    modelInput.totalExplicit = sumClassesCounts modelInput.classes := by
  rw [totalExplicit, sumClassesCounts_sortClasses]

theorem numExplicitClasses_eq (modelInput : TransactionsRebalancingInput) :
    modelInput.numExplicitClasses = modelInput.classes.length := by
  rw [numExplicitClasses, length_sortClasses]

namespace Admissible

variable (h : modelInput.Admissible)

include h

theorem sampleRate_mem : 0 ≤ modelInput.sampleRate ∧ modelInput.sampleRate ≤ 1 :=
  ((validate_iff modelInput).mp h.validate).1

theorem intensity_mem : 0 ≤ modelInput.intensity ∧ modelInput.intensity ≤ 1 :=
  ((validate_iff modelInput).mp h.validate).2.1

theorem length_pos : 0 < modelInput.classes.length :=
  ((validate_iff modelInput).mp h.validate).2.2

theorem totalExplicit_pos : 0 < modelInput.totalExplicit := by
  rw [totalExplicit_eq]
  exact sumClassesCounts_pos h.count_pos h.length_pos

theorem totalImplicit_nonneg : 0 ≤ modelInput.totalImplicit := by
  rw [totalImplicit, totalExplicit_eq]
  exact sub_nonneg.mpr h.le_total

theorem numClasses_pos : (0 : ℚ) < modelInput.numClasses := by
  have hpos : 0 < modelInput.numClasses :=
    (Int.natCast_pos.mpr h.length_pos).trans_le h.le_numClasses
  exact_mod_cast hpos

theorem numImplicitClasses_nonneg : (0 : ℚ) ≤ modelInput.numImplicitClasses := by
  have hle : 0 ≤ modelInput.numImplicitClasses := by
    rw [numImplicitClasses, numExplicitClasses_eq]
    exact sub_nonneg.mpr h.le_numClasses
  exact_mod_cast hle

theorem totalImplicit_pos (hsome : modelInput.numExplicitClasses ≠ modelInput.numClasses) :
    0 < modelInput.totalImplicit := by
  rw [numExplicitClasses_eq] at hsome
  rw [totalImplicit, totalExplicit_eq]
  exact sub_pos.mpr (h.implicit_pos (lt_of_le_of_ne h.le_numClasses hsome))

theorem totalVolume_nonneg : 0 ≤ modelInput.totalVolume := by
  have hexplicit := h.totalExplicit_pos
  have himplicit := h.totalImplicit_nonneg
  rw [totalImplicit] at himplicit
  linarith

theorem totalBudget_nonneg : 0 ≤ modelInput.totalBudget :=
  mul_nonneg h.totalVolume_nonneg h.sampleRate_mem.1

theorem totalBudget_le : modelInput.totalBudget ≤ modelInput.totalVolume :=
  mul_le_of_le_one_right h.totalVolume_nonneg h.sampleRate_mem.2

theorem budgetPerClass_nonneg : 0 ≤ modelInput.budgetPerClass :=
  div_nonneg h.totalBudget_nonneg h.numClasses_pos.le

theorem budget_split :
    modelInput.budgetPerClass * modelInput.numExplicitClasses +
      modelInput.budgetPerClass * modelInput.numImplicitClasses = modelInput.totalBudget := by
  have hne := h.numClasses_pos.ne'
  rw [← mul_add, numImplicitClasses, Int.cast_sub, add_sub_cancel, budgetPerClass,
    div_mul_cancel₀ _ hne]

end Admissible

theorem run_eq (h : modelInput.Admissible) :
    modelInput.run =
      if modelInput.numExplicitClasses = modelInput.numClasses then
        (FullRebalancingInput.run ⟨sortClasses modelInput.classes, modelInput.sampleRate,
          modelInput.intensity, none⟩).map fun result ↦ (result.1, modelInput.sampleRate)
      else if modelInput.totalImplicit <
          modelInput.budgetPerClass * modelInput.numImplicitClasses then
        (FullRebalancingInput.run ⟨sortClasses modelInput.classes,
          (modelInput.totalBudget - modelInput.totalImplicit) / modelInput.totalExplicit,
          modelInput.intensity, none⟩).map fun result ↦ (result.1, 1)
      else if modelInput.totalExplicit <
          modelInput.budgetPerClass * modelInput.numExplicitClasses then
        .ok ((sortClasses modelInput.classes).map fun element ↦ ⟨element.id, element.count, 1⟩,
          (modelInput.totalBudget - modelInput.totalExplicit) / modelInput.totalImplicit)
      else
        (FullRebalancingInput.run ⟨sortClasses modelInput.classes,
          modelInput.budgetPerClass * modelInput.numExplicitClasses / modelInput.totalExplicit,
          modelInput.intensity,
          some (modelInput.totalBudget - modelInput.totalImplicit)⟩).map fun result ↦
            (result.1, (modelInput.totalBudget - result.2) / modelInput.totalImplicit) := by
  rw [run, runModel, if_pos h.validate, rebalance, divide_of_ne_zero h.numClasses_pos.ne', ok_bind]
  dsimp only
  rw [divide_of_ne_zero h.totalExplicit_pos.ne', divide_of_ne_zero h.totalExplicit_pos.ne', ok_bind,
    ok_bind]
  have hbudget : modelInput.totalBudget / modelInput.numClasses = modelInput.budgetPerClass := rfl
  rw [hbudget]
  split_ifs with hall himplicit hexplicit
  · rfl
  · rfl
  · rw [divide_of_ne_zero (h.totalImplicit_pos hall).ne']
    rfl
  · simp only [divide_of_ne_zero (h.totalImplicit_pos hall).ne']
    rfl

/-- What small explicit classes leave to large ones fits into the budget of the implicit classes:
there are no implicit classes, one of the two kinds cannot spend its budget, or there are enough
implicit classes. -/
def EnoughImplicit (modelInput : TransactionsRebalancingInput) : Prop :=
  modelInput.numImplicitClasses = 0 ∨
    modelInput.totalImplicit < modelInput.budgetPerClass * modelInput.numImplicitClasses ∨
      modelInput.totalExplicit < modelInput.budgetPerClass * modelInput.numExplicitClasses ∨
        (1 - modelInput.intensity) * (modelInput.classes.length -
          growth modelInput.intensity (modelInput.classes.length - 1)) ≤
            modelInput.numImplicitClasses

/-- What the model gives: rates of the explicit classes that are between 0 and 1, and one for the
implicit classes, that keep at least the budget, and no more with intensity 1. -/
structure Rebalances (modelInput : TransactionsRebalancingInput)
    (rates : List (RebalancedItem String)) (implicitRate : ℚ) : Prop where
  ratesOf : RatesOf rates modelInput.classes
  rate_mem : ∀ item ∈ rates, 0 ≤ item.newSampleRate ∧ item.newSampleRate ≤ 1
  implicitRate_le : implicitRate ≤ 1
  implicitRate_nonneg : modelInput.EnoughImplicit → 0 ≤ implicitRate
  budget_le : modelInput.totalBudget ≤ keptVolume rates + modelInput.totalImplicit * implicitRate
  budget_eq : modelInput.intensity = 1 →
    keptVolume rates + modelInput.totalImplicit * implicitRate = modelInput.totalBudget
  waterFilled : modelInput.intensity = 1 → WaterFilled rates

variable {rates : List (RebalancedItem String)}

section

variable (h : modelInput.Admissible)

include h

/-- Assumes: all classes are explicit. -/
theorem rebalances_of_all_explicit {used : ℚ}
    (hrebalanced : Rebalanced modelInput.classes modelInput.sampleRate modelInput.intensity
      (sumClassesCounts modelInput.classes * modelInput.sampleRate) rates used) :
    modelInput.Rebalances rates modelInput.sampleRate := by
  have hbudget : sumClassesCounts modelInput.classes * modelInput.sampleRate +
      modelInput.totalImplicit * modelInput.sampleRate = modelInput.totalBudget := by
    rw [totalImplicit, totalExplicit_eq, totalBudget]
    ring
  have hle := hrebalanced.le_used
  refine
    { ratesOf := hrebalanced.ratesOf
      rate_mem := hrebalanced.rate_mem
      implicitRate_le := h.sampleRate_mem.2
      implicitRate_nonneg := fun _ ↦ h.sampleRate_mem.1
      budget_le := ?_
      budget_eq := ?_
      waterFilled := hrebalanced.waterFilled }
  · rw [hrebalanced.keptVolume_eq]
    linarith
  · intro hone
    have hused := hrebalanced.used_le_of_intensity_one hone
    rw [hrebalanced.keptVolume_eq]
    linarith

/-- Assumes: the budget of the implicit classes is more than they have. -/
theorem rebalances_of_implicit_lt {used : ℚ}
    (hrebalanced : Rebalanced modelInput.classes
      ((modelInput.totalBudget - modelInput.totalImplicit) / modelInput.totalExplicit)
      modelInput.intensity (modelInput.totalBudget - modelInput.totalImplicit) rates used) :
    modelInput.Rebalances rates 1 := by
  have hvolume : sumClassesCounts modelInput.classes *
      ((modelInput.totalBudget - modelInput.totalImplicit) / modelInput.totalExplicit) =
        modelInput.totalBudget - modelInput.totalImplicit := by
    rw [← totalExplicit_eq, mul_div_cancel₀ _ h.totalExplicit_pos.ne']
  have hle := hrebalanced.le_used
  refine
    { ratesOf := hrebalanced.ratesOf
      rate_mem := hrebalanced.rate_mem
      implicitRate_le := le_rfl
      implicitRate_nonneg := fun _ ↦ zero_le_one
      budget_le := ?_
      budget_eq := ?_
      waterFilled := hrebalanced.waterFilled }
  · rw [hrebalanced.keptVolume_eq]
    linarith
  · intro hone
    have hused := hrebalanced.used_le_of_intensity_one hone
    rw [hrebalanced.keptVolume_eq]
    linarith

/-- Assumes: the budget of the explicit classes is more than they have. All of them is kept. -/
theorem rebalances_of_explicit_lt (hsome : modelInput.numExplicitClasses ≠ modelInput.numClasses)
    (hexplicit : modelInput.totalExplicit ≤ modelInput.totalBudget) :
    modelInput.Rebalances
      ((sortClasses modelInput.classes).map fun element ↦ ⟨element.id, element.count, 1⟩)
      ((modelInput.totalBudget - modelInput.totalExplicit) / modelInput.totalImplicit) := by
  have himplicit := h.totalImplicit_pos hsome
  have hkept : keptVolume ((sortClasses modelInput.classes).map fun element ↦
      (⟨element.id, element.count, 1⟩ : RebalancedItem String)) = modelInput.totalExplicit := by
    simp [keptVolume, totalExplicit, sumClassesCounts, Function.comp_def]
  have hall : keptVolume ((sortClasses modelInput.classes).map fun element ↦
      (⟨element.id, element.count, 1⟩ : RebalancedItem String)) + modelInput.totalImplicit *
        ((modelInput.totalBudget - modelInput.totalExplicit) / modelInput.totalImplicit) =
          modelInput.totalBudget := by
    rw [hkept, mul_div_cancel₀ _ himplicit.ne', add_sub_cancel]
  have hbudget := h.totalBudget_le
  refine
    { ratesOf := ?_
      rate_mem := ?_
      implicitRate_le := ?_
      implicitRate_nonneg := fun _ ↦ div_nonneg (sub_nonneg.mpr hexplicit) himplicit.le
      budget_le := hall.ge
      budget_eq := fun _ ↦ hall
      waterFilled := fun _ ↦ ⟨modelInput.totalExplicit, ?_⟩ }
  · rw [RatesOf, map_map]
    exact (perm_sortClasses modelInput.classes).map _
  · intro item hitem
    obtain ⟨element, -, rfl⟩ := mem_map.mp hitem
    exact ⟨zero_le_one, le_rfl⟩
  · rw [div_le_one himplicit, totalImplicit]
    linarith
  · intro item hitem
    obtain ⟨element, helement, rfl⟩ := mem_map.mp hitem
    have hle : element.count ≤ modelInput.totalExplicit := by
      refine single_le_sum ?_ _ (mem_map_of_mem helement)
      intro count hcount
      obtain ⟨other, hother, rfl⟩ := mem_map.mp hcount
      exact (h.count_pos other ((perm_sortClasses modelInput.classes).mem_iff.mp hother)).le
    rw [mul_one, min_eq_left hle]

/-- Assumes: the explicit and the implicit classes can both spend their budget. -/
theorem rebalances_of_shared (hsome : modelInput.numExplicitClasses ≠ modelInput.numClasses)
    (himplicitBudget : modelInput.budgetPerClass * modelInput.numImplicitClasses ≤
      modelInput.totalImplicit)
    (hexplicitBudget : modelInput.budgetPerClass * modelInput.numExplicitClasses ≤
      modelInput.totalExplicit)
    {used : ℚ}
    (hrebalanced : Rebalanced modelInput.classes
      (modelInput.budgetPerClass * modelInput.numExplicitClasses / modelInput.totalExplicit)
      modelInput.intensity (modelInput.totalBudget - modelInput.totalImplicit) rates used) :
    modelInput.Rebalances rates
      ((modelInput.totalBudget - used) / modelInput.totalImplicit) := by
  have himplicit := h.totalImplicit_pos hsome
  have hall : keptVolume rates + modelInput.totalImplicit *
      ((modelInput.totalBudget - used) / modelInput.totalImplicit) = modelInput.totalBudget := by
    rw [hrebalanced.keptVolume_eq, mul_div_cancel₀ _ himplicit.ne', add_sub_cancel]
  have hle := hrebalanced.le_used
  refine
    { ratesOf := hrebalanced.ratesOf
      rate_mem := hrebalanced.rate_mem
      implicitRate_le := (div_le_one himplicit).mpr (by linarith)
      implicitRate_nonneg := ?_
      budget_le := hall.ge
      budget_eq := fun _ ↦ hall
      waterFilled := hrebalanced.waterFilled }
  intro hkind
  refine div_nonneg (sub_nonneg.mpr ?_) himplicit.le
  have hlength : (0 : ℚ) < modelInput.classes.length := Nat.cast_pos.mpr h.length_pos
  have hvolume : sumClassesCounts modelInput.classes *
      (modelInput.budgetPerClass * modelInput.numExplicitClasses / modelInput.totalExplicit) =
        modelInput.budgetPerClass * modelInput.classes.length := by
    rw [← totalExplicit_eq, mul_div_cancel₀ _ h.totalExplicit_pos.ne', numExplicitClasses_eq,
      Int.cast_natCast]
  have hused := hrebalanced.used_le
  rw [hvolume, mul_div_cancel_right₀ _ hlength.ne'] at hused
  have hsplit := h.budget_split
  rw [numExplicitClasses_eq, Int.cast_natCast] at hsplit
  rcases hkind with hnone | hsmall | hsmall | hkind
  · exact absurd (sub_eq_zero.mp hnone).symm hsome
  · exact absurd hsmall (not_lt.mpr himplicitBudget)
  · exact absurd hsmall (not_lt.mpr hexplicitBudget)
  · have hmore := mul_le_mul_of_nonneg_left hkind h.budgetPerClass_nonneg
    linarith

theorem exists_run :
    ∃ rates implicitRate, modelInput.run = .ok (rates, implicitRate) ∧
      modelInput.Rebalances rates implicitRate := by
  have hlength := h.length_pos
  have hintensity := h.intensity_mem
  have hexplicitPos := h.totalExplicit_pos
  have hbudgetLe := h.totalBudget_le
  have hvolume : modelInput.totalVolume = modelInput.totalExplicit + modelInput.totalImplicit := by
    rw [totalImplicit, add_sub_cancel]
  have hsplit := h.budget_split
  have hexplicitBudget : 0 ≤ modelInput.budgetPerClass * modelInput.numExplicitClasses :=
    mul_nonneg h.budgetPerClass_nonneg (by rw [numExplicitClasses_eq]; positivity)
  have himplicitBudget := mul_nonneg h.budgetPerClass_nonneg h.numImplicitClasses_nonneg
  rw [run_eq h]
  split_ifs with hall himplicit hexplicit
  · obtain ⟨rates, used, hrun, hrebalanced⟩ :=
      exists_rebalanced h.count_pos hlength h.sampleRate_mem hintensity
    rw [hrun]
    exact ⟨rates, _, rfl, rebalances_of_all_explicit h hrebalanced⟩
  · have hrate : 0 ≤ (modelInput.totalBudget - modelInput.totalImplicit) /
        modelInput.totalExplicit ∧ (modelInput.totalBudget - modelInput.totalImplicit) /
          modelInput.totalExplicit ≤ 1 :=
      ⟨div_nonneg (by linarith) hexplicitPos.le, (div_le_one hexplicitPos).mpr (by linarith)⟩
    obtain ⟨rates, used, hrun, hrebalanced⟩ :=
      exists_rebalanced h.count_pos hlength hrate hintensity
    rw [hrun]
    rw [← totalExplicit_eq, mul_div_cancel₀ _ hexplicitPos.ne'] at hrebalanced
    exact ⟨rates, _, rfl, rebalances_of_implicit_lt h hrebalanced⟩
  · exact ⟨_, _, rfl, rebalances_of_explicit_lt h hall (by linarith)⟩
  · have hrate : 0 ≤ modelInput.budgetPerClass * modelInput.numExplicitClasses /
        modelInput.totalExplicit ∧ modelInput.budgetPerClass * modelInput.numExplicitClasses /
          modelInput.totalExplicit ≤ 1 :=
      ⟨div_nonneg hexplicitBudget hexplicitPos.le,
        (div_le_one hexplicitPos).mpr (not_lt.mp hexplicit)⟩
    have hminimum : (some (modelInput.totalBudget - modelInput.totalImplicit)).getD
        (sumClassesCounts modelInput.classes * (modelInput.budgetPerClass *
          modelInput.numExplicitClasses / modelInput.totalExplicit)) ≤
        sumClassesCounts modelInput.classes * (modelInput.budgetPerClass *
          modelInput.numExplicitClasses / modelInput.totalExplicit) := by
      rw [Option.getD_some, ← totalExplicit_eq, mul_div_cancel₀ _ hexplicitPos.ne']
      linarith
    obtain ⟨rates, used, hrun, hrebalanced⟩ :=
      rebalanced_sorted h.count_pos hlength hrate hintensity hminimum
    rw [hrun]
    exact ⟨rates, _, rfl, rebalances_of_shared h hall (not_lt.mp himplicit) (not_lt.mp hexplicit)
      hrebalanced⟩

end

end TransactionsRebalancingInput

/-! ### Projects -/

namespace ProjectsRebalancingInput

variable {modelInput : ProjectsRebalancingInput}

theorem rebalance_eq (hsome : modelInput.classes ≠ []) :
    ∃ classes, classes.map (fun element ↦ (element.id, element.count)) =
        modelInput.classes.map (fun element ↦ (element.id, element.count)) ∧
      modelInput.rebalance = (FullRebalancingInput.run
        ⟨sortClasses classes, modelInput.sampleRate, 1, none⟩).map Prod.fst := by
  obtain ⟨classes, sampleRate⟩ := modelInput
  match classes with
  | [] => exact absurd rfl hsome
  | [element] => exact ⟨[{ element with newSampleRate := sampleRate }], rfl, rfl⟩
  | first :: second :: rest => exact ⟨first :: second :: rest, rfl, rfl⟩

theorem exists_run (hvalid : modelInput.validate = true)
    (hcounts : ∀ element ∈ modelInput.classes, 0 < element.count) :
    ∃ rates, modelInput.run = .ok rates ∧ RatesOf rates modelInput.classes ∧
      keptVolume rates = sumClassesCounts modelInput.classes * modelInput.sampleRate ∧
        WaterFilled rates := by
  rw [run, runModel, if_pos hvalid]
  by_cases hsome : modelInput.classes = []
  · refine ⟨[], ?_, ?_, ?_, ⟨0, ?_⟩⟩
    · rw [rebalance, hsome]
    · rw [hsome, RatesOf]
    · rw [hsome, sumClassesCounts, map_nil, sum_nil, zero_mul]
      rfl
    · simp
  · obtain ⟨classes, hsame, hrun⟩ := rebalance_eq hsome
    have hcountsEq : classes.map (·.count) = modelInput.classes.map (·.count) := by
      simpa [Function.comp_def] using congrArg (List.map Prod.snd) hsame
    have hlength : classes.length = modelInput.classes.length := by
      simpa using congrArg List.length hsame
    have hpos : 0 < classes.length := hlength ▸ length_pos_of_ne_nil hsome
    have hcounts' : ∀ element ∈ classes, 0 < element.count := by
      intro element helement
      have hmem : element.count ∈ modelInput.classes.map (·.count) :=
        hcountsEq ▸ mem_map_of_mem helement
      obtain ⟨other, hother, hcount⟩ := mem_map.mp hmem
      exact hcount ▸ hcounts other hother
    have hrate : 0 ≤ modelInput.sampleRate ∧ modelInput.sampleRate ≤ 1 := of_decide_eq_true hvalid
    obtain ⟨rates, used, hrebalance, hrebalanced⟩ :=
      exists_rebalanced hcounts' hpos hrate ⟨zero_le_one, le_rfl⟩
    have hkept : used = sumClassesCounts classes * modelInput.sampleRate :=
      le_antisymm (hrebalanced.used_le_of_intensity_one rfl) hrebalanced.le_used
    refine ⟨rates, ?_, ?_, ?_, hrebalanced.waterFilled rfl⟩
    · rw [hrun, hrebalance]
      rfl
    · rw [RatesOf, ← hsame]
      exact hrebalanced.ratesOf
    · rw [hrebalanced.keptVolume_eq, hkept, sumClassesCounts, sumClassesCounts, hcountsEq]

end ProjectsRebalancingInput

/-- The volume kept of transactions is never below the total at the sample rate. With intensity 1 it
is equal to it, and every explicit class keeps the smaller of its count and one common level. So it
is for projects, which are always rebalanced with intensity 1. -/
theorem keeps_budget :
    (∀ modelInput : TransactionsRebalancingInput, modelInput.Admissible →
      ∃ rates implicitRate, modelInput.run = .ok (rates, implicitRate) ∧
        RatesOf rates modelInput.classes ∧
        modelInput.totalVolume * modelInput.sampleRate ≤
          keptVolume rates + modelInput.totalImplicit * implicitRate ∧
        (modelInput.intensity = 1 →
          keptVolume rates + modelInput.totalImplicit * implicitRate =
            modelInput.totalVolume * modelInput.sampleRate ∧ WaterFilled rates)) ∧
    ∀ modelInput : ProjectsRebalancingInput, modelInput.validate = true →
      (∀ element ∈ modelInput.classes, 0 < element.count) →
      ∃ rates, modelInput.run = .ok rates ∧ RatesOf rates modelInput.classes ∧
        keptVolume rates = sumClassesCounts modelInput.classes * modelInput.sampleRate ∧
          WaterFilled rates := by
  constructor
  · intro modelInput h
    obtain ⟨rates, implicitRate, hrun, hrates⟩ := TransactionsRebalancingInput.exists_run h
    exact ⟨rates, implicitRate, hrun, hrates.ratesOf, hrates.budget_le,
      fun hone ↦ ⟨hrates.budget_eq hone, hrates.waterFilled hone⟩⟩
  · intro modelInput hvalid hcounts
    exact ProjectsRebalancingInput.exists_run hvalid hcounts

/-- Three explicit classes of four. -/
def threeClasses : TransactionsRebalancingInput where
  classes := [⟨"a", 10, 0⟩, ⟨"b", 200, 0⟩, ⟨"c", 600, 0⟩]
  sampleRate := 1 / 2
  totalNumClasses := some 4
  total := some 1000
  intensity := 1

theorem threeClasses_admissible : threeClasses.Admissible where
  validate := by decide +kernel
  count_pos := by decide +kernel
  le_total := by decide +kernel
  le_numClasses := by decide +kernel
  implicit_pos := by decide +kernel

theorem threeClasses_run : ∃ rates implicitRate, threeClasses.run = .ok (rates, implicitRate) ∧
    keptVolume rates + threeClasses.totalImplicit * implicitRate =
      threeClasses.totalVolume * threeClasses.sampleRate := by
  obtain ⟨rates, implicitRate, hrun, -, -, hone⟩ :=
    keeps_budget.1 threeClasses threeClasses_admissible
  exact ⟨rates, implicitRate, hrun, (hone rfl).1⟩

end Sentry.DynamicSampling
