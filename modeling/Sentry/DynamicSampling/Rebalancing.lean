import Sentry.Library.LevelAllocation
import Mathlib.Data.String.Basic

/-!
# Rebalancing models

`dynamic_sampling/models`. The full rebalancing model brings the volumes kept of some classes to a
common level. The model for projects applies it to all of them, the model for transactions to the
classes given explicitly. Counts and rates are rational; a division by zero, an input that is not
valid and a failed assertion raise. The loop is an allocation to a common level
(`fullRebalancing_run`).
-/

namespace Sentry.DynamicSampling

open Library List

structure RebalancedItem (ι : Type) where
  id : ι
  count : ℚ
  newSampleRate : ℚ := 0
  deriving DecidableEq

/-- What a model can raise. -/
inductive ModelError
  | invalidModelInputError
  | assertionError
  | zeroDivisionError
  deriving DecidableEq

def divide (numerator denominator : ℚ) : Except ModelError ℚ :=
  if denominator = 0 then .error .zeroDivisionError else .ok (numerator / denominator)

/-- `Model.run`. -/
def runModel {Input Output : Type} (validate : Input → Bool)
    (run : Input → Except ModelError Output) (modelInput : Input) : Except ModelError Output :=
  if validate modelInput then run modelInput else .error .invalidModelInputError

variable {ι : Type}

def sumClassesCounts (classes : List (RebalancedItem ι)) : ℚ := (classes.map (·.count)).sum

structure FullRebalancingInput (ι : Type) where
  classes : List (RebalancedItem ι)
  sampleRate : ℚ
  intensity : ℚ
  minBudget : Option ℚ := none

def FullRebalancingInput.validate (modelInput : FullRebalancingInput ι) : Bool :=
  decide (0 ≤ modelInput.sampleRate ∧ modelInput.sampleRate ≤ 1) &&
    decide (0 ≤ modelInput.intensity ∧ modelInput.intensity ≤ 1) &&
      decide (0 < modelInput.classes.length)

theorem FullRebalancingInput.validate_iff (modelInput : FullRebalancingInput ι) :
    modelInput.validate = true ↔ (0 ≤ modelInput.sampleRate ∧ modelInput.sampleRate ≤ 1) ∧
      (0 ≤ modelInput.intensity ∧ modelInput.intensity ≤ 1) ∧ 0 < modelInput.classes.length := by
  simp [FullRebalancingInput.validate, and_assoc]

/-- The variables of the loop. -/
structure LoopState (ι : Type) where
  ideal : ℚ
  minBudget : ℚ
  usedBudget : ℚ
  numClasses : ℕ
  retVal : List (RebalancedItem ι)

def LoopState.readjustedIdeal (s : LoopState ι) : Except ModelError ℚ :=
  if s.ideal * s.numClasses < s.minBudget then divide s.minBudget s.numClasses else .ok s.ideal

def newSampleRateAndUsed (count desiredCount : ℚ) : Except ModelError (ℚ × ℚ) :=
  if count < desiredCount then .ok (1, count)
  else (divide desiredCount count).map fun newSampleRate ↦ (newSampleRate, desiredCount)

def rebalanceElement (sampleRate intensity : ℚ) (s : LoopState ι) (element : RebalancedItem ι) :
    Except ModelError (LoopState ι) := do
  let ideal ← s.readjustedIdeal
  let sampled := element.count * sampleRate
  let delta := ideal - sampled
  let correction := delta * intensity
  let desiredCount := sampled + correction
  let (newSampleRate, used) ← newSampleRateAndUsed element.count desiredCount
  .ok
    { ideal := ideal
      minBudget := s.minBudget - used
      usedBudget := s.usedBudget + used
      numClasses := s.numClasses - 1
      retVal := s.retVal ++ [⟨element.id, element.count, newSampleRate⟩] }

/-- `FullRebalancingModel._run`. The classes are popped from the end of the list. -/
def FullRebalancingInput.rebalance (modelInput : FullRebalancingInput ι) :
    Except ModelError (List (RebalancedItem ι) × ℚ) := do
  let total := sumClassesCounts modelInput.classes
  let numClasses := modelInput.classes.length
  let minBudget := modelInput.minBudget.getD (total * modelInput.sampleRate)
  if total < minBudget then .error .assertionError
  else
    let ideal ← divide (total * modelInput.sampleRate) numClasses
    let s ← modelInput.classes.reverse.foldlM
      (rebalanceElement modelInput.sampleRate modelInput.intensity)
      ⟨ideal, minBudget, 0, numClasses, []⟩
    .ok (s.retVal, s.usedBudget)

def FullRebalancingInput.run (modelInput : FullRebalancingInput ι) :
    Except ModelError (List (RebalancedItem ι) × ℚ) :=
  runModel FullRebalancingInput.validate FullRebalancingInput.rebalance modelInput

/-- The order of `sorted(classes, key=lambda x: (x.count, x.id), reverse=True)`. -/
def KeyGE [LinearOrder ι] (first second : RebalancedItem ι) : Prop :=
  second.count < first.count ∨ second.count = first.count ∧ second.id ≤ first.id

instance decidableKeyGE [LinearOrder ι] : DecidableRel (KeyGE (ι := ι)) := fun first second ↦
  inferInstanceAs (Decidable
    (second.count < first.count ∨ second.count = first.count ∧ second.id ≤ first.id))

def sortClasses [LinearOrder ι] (classes : List (RebalancedItem ι)) : List (RebalancedItem ι) :=
  classes.insertionSort KeyGE

structure TransactionsRebalancingInput where
  classes : List (RebalancedItem String)
  sampleRate : ℚ
  totalNumClasses : Option ℤ
  total : Option ℚ
  intensity : ℚ

namespace TransactionsRebalancingInput

def validate (modelInput : TransactionsRebalancingInput) : Bool :=
  decide (0 ≤ modelInput.sampleRate ∧ modelInput.sampleRate ≤ 1) &&
    decide (0 ≤ modelInput.intensity ∧ modelInput.intensity ≤ 1) &&
      decide (0 < modelInput.classes.length)

theorem validate_iff (modelInput : TransactionsRebalancingInput) :
    modelInput.validate = true ↔ (0 ≤ modelInput.sampleRate ∧ modelInput.sampleRate ≤ 1) ∧
      (0 ≤ modelInput.intensity ∧ modelInput.intensity ≤ 1) ∧ 0 < modelInput.classes.length := by
  simp [TransactionsRebalancingInput.validate, and_assoc]

variable (modelInput : TransactionsRebalancingInput)

def totalExplicit : ℚ := sumClassesCounts (sortClasses modelInput.classes)

/-- `total`, by default that of the explicit classes. -/
def totalVolume : ℚ := modelInput.total.getD modelInput.totalExplicit

/-- `total_num_classes`, by default that of the explicit classes. -/
def numClasses : ℤ := modelInput.totalNumClasses.getD (sortClasses modelInput.classes).length

def totalImplicit : ℚ := modelInput.totalVolume - modelInput.totalExplicit

def numExplicitClasses : ℤ := (sortClasses modelInput.classes).length

def numImplicitClasses : ℤ := modelInput.numClasses - modelInput.numExplicitClasses

def totalBudget : ℚ := modelInput.totalVolume * modelInput.sampleRate

/-- `TransactionsRebalancingModel._run`. -/
def rebalance : Except ModelError (List (RebalancedItem String) × ℚ) := do
  let classes := sortClasses modelInput.classes
  let budgetPerClass ← divide modelInput.totalBudget modelInput.numClasses
  let implicitBudget := budgetPerClass * modelInput.numImplicitClasses
  let explicitBudget := budgetPerClass * modelInput.numExplicitClasses
  if modelInput.numExplicitClasses = modelInput.numClasses then
    let (explicitRates, _) ← FullRebalancingInput.run
      ⟨classes, modelInput.sampleRate, modelInput.intensity, none⟩
    .ok (explicitRates, modelInput.sampleRate)
  else if modelInput.totalImplicit < implicitBudget then
    let explicitBudget := modelInput.totalBudget - modelInput.totalImplicit
    let explicitRate ← divide explicitBudget modelInput.totalExplicit
    let (explicitRates, _) ← FullRebalancingInput.run
      ⟨classes, explicitRate, modelInput.intensity, none⟩
    .ok (explicitRates, 1)
  else if modelInput.totalExplicit < explicitBudget then
    let explicitRates := classes.map fun element ↦ ⟨element.id, element.count, 1⟩
    let implicitBudget := modelInput.totalBudget - modelInput.totalExplicit
    let implicitRate ← divide implicitBudget modelInput.totalImplicit
    .ok (explicitRates, implicitRate)
  else
    let minimumExplicitBudget := modelInput.totalBudget - modelInput.totalImplicit
    let explicitRate ← divide explicitBudget modelInput.totalExplicit
    let (explicitRates, used) ← FullRebalancingInput.run
      ⟨classes, explicitRate, modelInput.intensity, some minimumExplicitBudget⟩
    let implicitBudget := modelInput.totalBudget - used
    let implicitRate ← divide implicitBudget modelInput.totalImplicit
    .ok (explicitRates, implicitRate)

/-- `TransactionsRebalancingModel.run`: the rates of the explicit classes, and one for the
others. -/
def run : Except ModelError (List (RebalancedItem String) × ℚ) :=
  runModel validate rebalance modelInput

/-- The input is valid; the classes have counts, which do not exceed the total; the explicit classes
are among all classes, and when there are others, they have some volume. -/
structure Admissible : Prop where
  validate : modelInput.validate = true
  count_pos : ∀ element ∈ modelInput.classes, 0 < element.count
  le_total : sumClassesCounts modelInput.classes ≤ modelInput.totalVolume
  le_numClasses : (modelInput.classes.length : ℤ) ≤ modelInput.numClasses
  implicit_pos : (modelInput.classes.length : ℤ) < modelInput.numClasses →
    sumClassesCounts modelInput.classes < modelInput.totalVolume

end TransactionsRebalancingInput

structure ProjectsRebalancingInput where
  classes : List (RebalancedItem ℤ)
  sampleRate : ℚ

namespace ProjectsRebalancingInput

def validate (modelInput : ProjectsRebalancingInput) : Bool :=
  decide (0 ≤ modelInput.sampleRate ∧ modelInput.sampleRate ≤ 1)

/-- `ProjectsRebalancingModel._run`. -/
def rebalance (modelInput : ProjectsRebalancingInput) :
    Except ModelError (List (RebalancedItem ℤ)) :=
  match modelInput.classes with
  | [] => .ok []
  | classes => do
    -- a single class gets the rate, before it is rebalanced like others
    let classes := match classes with
      | [element] => [{ element with newSampleRate := modelInput.sampleRate }]
      | classes => classes
    let (result, _) ← FullRebalancingInput.run ⟨sortClasses classes, modelInput.sampleRate, 1, none⟩
    .ok result

def run (modelInput : ProjectsRebalancingInput) : Except ModelError (List (RebalancedItem ℤ)) :=
  runModel validate rebalance modelInput

end ProjectsRebalancingInput

def shareOf (sampleRate : ℚ) (element : RebalancedItem ι) : Share ℚ :=
  ⟨element.count, element.count * sampleRate⟩

def withAmount (element : RebalancedItem ι) (kept : ℚ) : RebalancedItem ι :=
  ⟨element.id, element.count, kept / element.count⟩

theorem ok_bind {α β : Type} (a : α) (f : α → Except ModelError β) :
    (Except.ok a >>= f) = f a := rfl

theorem divide_of_ne_zero {denominator : ℚ} (h : denominator ≠ 0) (numerator : ℚ) :
    divide numerator denominator = .ok (numerator / denominator) := if_neg h

theorem readjustedIdeal_eq {s : LoopState ι} (hclasses : 0 < s.numClasses) :
    s.readjustedIdeal = .ok (raisedLevel s.ideal s.minBudget s.numClasses) := by
  have hne : (s.numClasses : ℚ) ≠ 0 := by exact_mod_cast hclasses.ne'
  rw [LoopState.readjustedIdeal, raisedLevel, divide_of_ne_zero hne]
  split_ifs <;> rfl

theorem newSampleRateAndUsed_eq {count : ℚ} (hcount : 0 < count) (desiredCount : ℚ) :
    newSampleRateAndUsed count desiredCount =
      .ok (min count desiredCount / count, min count desiredCount) := by
  rw [newSampleRateAndUsed, divide_of_ne_zero hcount.ne']
  split_ifs with hfull
  · rw [min_eq_left hfull.le, div_self hcount.ne']
  · rw [min_eq_right (not_lt.mp hfull)]
    rfl

/-- Assumes: a class with a count, and classes left. A round raises the ideal, and keeps the amount
of the class for it. -/
theorem rebalanceElement_eq (sampleRate intensity : ℚ) {s : LoopState ι}
    {element : RebalancedItem ι} (hcount : 0 < element.count) (hclasses : 0 < s.numClasses) :
    let raised := raisedLevel s.ideal s.minBudget s.numClasses
    let kept := amount intensity raised (shareOf sampleRate element)
    rebalanceElement sampleRate intensity s element =
      .ok ⟨raised, s.minBudget - kept, s.usedBudget + kept, s.numClasses - 1,
        s.retVal ++ [withAmount element kept]⟩ := by
  intro raised kept
  rw [rebalanceElement, readjustedIdeal_eq hclasses, ok_bind]
  dsimp only
  rw [newSampleRateAndUsed_eq hcount, ok_bind]
  rfl

theorem foldlM_rebalanceElement_eq (sampleRate intensity : ℚ) (elements : List (RebalancedItem ι))
    (hcounts : ∀ element ∈ elements, 0 < element.count) {s : LoopState ι}
    (hclasses : s.numClasses = elements.length) :
    let kept := allocate intensity s.ideal s.minBudget (elements.map (shareOf sampleRate))
    ∃ t, elements.foldlM (rebalanceElement sampleRate intensity) s = .ok t ∧
      t.retVal = s.retVal ++ List.zipWith withAmount elements kept ∧
        t.usedBudget = s.usedBudget + kept.sum := by
  induction elements generalizing s with
  | nil => exact ⟨s, rfl, by simp [allocate], by simp [allocate]⟩
  | cons element rest ih =>
    have hpos : 0 < s.numClasses := by rw [hclasses]; exact Nat.succ_pos _
    rw [foldlM_cons, rebalanceElement_eq sampleRate intensity
      (hcounts element mem_cons_self) hpos, ok_bind]
    set raised := raisedLevel s.ideal s.minBudget s.numClasses with hraised
    set kept := amount intensity raised (shareOf sampleRate element) with hkept
    obtain ⟨t, hrun, hretVal, hused⟩ := ih
      (fun other hother ↦ hcounts other (mem_cons_of_mem element hother))
      (s := ⟨raised, s.minBudget - kept, s.usedBudget + kept, s.numClasses - 1,
        s.retVal ++ [withAmount element kept]⟩) (by simp [hclasses])
    have hallocate : allocate intensity s.ideal s.minBudget
        ((element :: rest).map (shareOf sampleRate)) =
          kept :: allocate intensity raised (s.minBudget - kept)
            (rest.map (shareOf sampleRate)) := by
      rw [map_cons, allocate, length_map, ← length_cons, ← hclasses]
    refine ⟨t, hrun, ?_, ?_⟩
    · rw [hretVal, hallocate, zipWith_cons_cons, append_assoc, singleton_append]
    · rw [hused, hallocate, sum_cons, add_assoc]

/-- Assumes: a valid input whose classes have counts, and whose minimum budget is at most their
total. The model keeps the amounts of an allocation, from the last class to the first. -/
theorem fullRebalancing_run (modelInput : FullRebalancingInput ι)
    (hvalid : modelInput.validate = true)
    (hcounts : ∀ element ∈ modelInput.classes, 0 < element.count)
    (hminimum : modelInput.minBudget.getD
      (sumClassesCounts modelInput.classes * modelInput.sampleRate) ≤
        sumClassesCounts modelInput.classes) :
    let kept := allocate modelInput.intensity
      (sumClassesCounts modelInput.classes * modelInput.sampleRate / modelInput.classes.length)
      (modelInput.minBudget.getD (sumClassesCounts modelInput.classes * modelInput.sampleRate))
      (modelInput.classes.reverse.map (shareOf modelInput.sampleRate))
    modelInput.run = .ok (List.zipWith withAmount modelInput.classes.reverse kept, kept.sum) := by
  intro kept
  have hlength : 0 < modelInput.classes.length := (modelInput.validate_iff.mp hvalid).2.2
  have hne : (modelInput.classes.length : ℚ) ≠ 0 := by exact_mod_cast hlength.ne'
  obtain ⟨t, hrun, hretVal, hused⟩ := foldlM_rebalanceElement_eq modelInput.sampleRate
    modelInput.intensity modelInput.classes.reverse
    (s := ⟨sumClassesCounts modelInput.classes * modelInput.sampleRate / modelInput.classes.length,
      modelInput.minBudget.getD (sumClassesCounts modelInput.classes * modelInput.sampleRate), 0,
      modelInput.classes.length, []⟩)
    (fun element helement ↦ hcounts element (mem_reverse.mp helement))
    (length_reverse).symm
  rw [FullRebalancingInput.run, runModel, if_pos hvalid, FullRebalancingInput.rebalance,
    if_neg (not_lt.mpr hminimum), divide_of_ne_zero hne, ok_bind, hrun, ok_bind, hretVal, hused,
    nil_append, zero_add]

end Sentry.DynamicSampling
