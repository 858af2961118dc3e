import Mathlib.Tactic.FieldSimp
import Mathlib.Tactic.Linarith
import Mathlib.Tactic.NormNum

/-!
# Normalising the units of a query

`UnitsNormalizationVisitor` and `NumericScalarsNormalizationVisitor` of
`sentry_metrics/querying/visitors/query_expression.py`, with `units.py`. What comes out should have
the value of the expression times the scaling factor of its unit. Products and quotients of more
than one operand with a unit, quotients by such an operand, scalars beside a formula and products
and quotients of scalar formulas are not scaled so (`scales_iff`).

Numbers are rational, formulas have two operands, and what divides by zero is zero. `parse_mri` is a
parameter.
-/

namespace Sentry.SentryMetrics.UnitsNormalization

open List

/-! ### Units -/

/-- `MeasurementUnit` -/
inductive MeasurementUnit
  | nanosecond | microsecond | millisecond | second | minute | hour | day | week
  | bit | byte | kilobyte | kibibyte | megabyte | mebibyte | gigabyte | gibibyte | terabyte
  | tebibyte | petabyte | pebibyte | exabyte | exbibyte
  | other (name : String)
  deriving DecidableEq

inductive UnitFamily
  | duration
  | information
  deriving DecidableEq

structure Unit where
  name : MeasurementUnit
  scalingFactor : ℚ

structure UnitsSpec where
  referenceUnit : MeasurementUnit
  units : List Unit

/-- `FAMILY_TO_UNITS` -/
def familyToUnits : List (UnitFamily × UnitsSpec) :=
  [(.duration,
    { referenceUnit := .nanosecond
      units := [⟨.nanosecond, 1⟩, ⟨.microsecond, 10 ^ 3⟩, ⟨.millisecond, 10 ^ 6⟩,
        ⟨.second, 10 ^ 9⟩, ⟨.minute, 60 * 10 ^ 9⟩, ⟨.hour, 60 * 60 * 10 ^ 9⟩,
        ⟨.day, 24 * 60 * 60 * 10 ^ 9⟩, ⟨.week, 7 * 24 * 60 * 60 * 10 ^ 9⟩] }),
    (.information,
    { referenceUnit := .bit
      units := [⟨.bit, 1⟩, ⟨.byte, 8⟩, ⟨.kilobyte, 10 ^ 3 * 8⟩, ⟨.kibibyte, 1024 * 8⟩,
        ⟨.megabyte, 10 ^ 6 * 8⟩, ⟨.mebibyte, 1024 ^ 2 * 8⟩, ⟨.gigabyte, 10 ^ 9 * 8⟩,
        ⟨.gibibyte, 1024 ^ 3 * 8⟩, ⟨.terabyte, 10 ^ 12 * 8⟩, ⟨.tebibyte, 1024 ^ 4 * 8⟩,
        ⟨.petabyte, 10 ^ 15 * 8⟩, ⟨.pebibyte, 1024 ^ 5 * 8⟩, ⟨.exabyte, 10 ^ 18 * 8⟩,
        ⟨.exbibyte, 1024 ^ 6 * 8⟩] })]

/-- `get_unit_family_and_unit` -/
def getUnitFamilyAndUnit (unit : MeasurementUnit) : Option (UnitFamily × MeasurementUnit × Unit) :=
  familyToUnits.findSome? fun entry ↦
    (entry.2.units.find? (·.name = unit)).map (entry.1, entry.2.referenceUnit, ·)

/-- `get_reference_unit_for_unit_family` -/
def getReferenceUnitForUnitFamily (family : UnitFamily) : Option Unit :=
  (familyToUnits.find? (·.1 = family)).bind fun entry ↦
    entry.2.units.find? (·.name = entry.2.referenceUnit)

theorem scalingFactor_pos {name reference : MeasurementUnit} {family : UnitFamily} {unit : Unit}
    (h : getUnitFamilyAndUnit name = some (family, reference, unit)) : 0 < unit.scalingFactor := by
  have hall : ∀ entry ∈ familyToUnits, ∀ unit ∈ entry.2.units, 0 < unit.scalingFactor := by
    simp [familyToUnits]
  obtain ⟨entry, hentry, h⟩ := exists_of_findSome?_eq_some h
  obtain ⟨found, hfound, hsame⟩ := Option.map_eq_some_iff.mp h
  obtain rfl : found = unit := congrArg (·.2.2) hsame
  exact hall entry hentry found (mem_of_find?_eq_some hfound)

theorem exists_referenceUnit (family : UnitFamily) :
    ∃ unit, getReferenceUnitForUnitFamily family = some unit ∧ unit.scalingFactor = 1 := by
  cases family with
  | duration => exact ⟨⟨.nanosecond, 1⟩, rfl, rfl⟩
  | information => exact ⟨⟨.bit, 1⟩, rfl, rfl⟩

/-! ### Expressions -/

/-- `ArithmeticOperator` -/
inductive ArithmeticOperator
  | plus
  | minus
  | multiply
  | divide
  deriving DecidableEq

/-- `COEFFICIENT_OPERATORS` -/
def ArithmeticOperator.isCoefficient : ArithmeticOperator → Bool
  | divide | multiply => true
  | plus | minus => false

def ArithmeticOperator.apply : ArithmeticOperator → ℚ → ℚ → ℚ
  | plus, x, y => x + y
  | minus, x, y => x - y
  | multiply, x, y => x * y
  | divide, x, y => x / y

/-- `Timeseries`, with its filters and groups. -/
structure Timeseries (Selection : Type*) where
  aggregate : String
  mri : String
  selection : Selection

/-- `QueryExpression` -/
inductive QueryExpression (Selection : Type*)
  | formula (functionName : ArithmeticOperator) (left right : QueryExpression Selection)
  | timeseries (timeseries : Timeseries Selection)
  | number (value : ℚ)
  | string (value : String)

/-- The result of `parse_mri`. -/
structure ParsedMri where
  entity : String
  unit : MeasurementUnit

variable {Selection : Type*}

/-- `_extract_unit` -/
def extractUnit (parseMri : String → Option ParsedMri) (timeseries : Timeseries Selection) :
    Option MeasurementUnit :=
  if timeseries.aggregate ∈ ["count", "count_unique"] then none
  else (parseMri timeseries.mri).bind fun parsed ↦
    if parsed.entity = "c" then none else some parsed.unit

/-- `apply_on_query_expression` -/
def Unit.applyOnQueryExpression (unit : Unit) (e : QueryExpression Selection) :
    QueryExpression Selection :=
  if unit.scalingFactor = 1 then e
  else
    match e with
    | .number value => .number (value * unit.scalingFactor)
    | e => .formula .multiply e (.number unit.scalingFactor)

namespace QueryExpression

def isTimeseries : QueryExpression Selection → Bool
  | timeseries _ => true
  | _ => false

/-- `_is_numeric_scalar` -/
def isNumericScalar : QueryExpression Selection → Bool
  | number _ => true
  | _ => false

/-- `NumericScalarsNormalizationVisitor` -/
def numericScalars (unit : Unit) : QueryExpression Selection → QueryExpression Selection
  | formula op left right =>
    if op.isCoefficient then
      if left.isNumericScalar && right.isNumericScalar then
        unit.applyOnQueryExpression (formula op left right)
      else formula op left right
    else formula op (left.numericScalars unit) (right.numericScalars unit)
  | number value => unit.applyOnQueryExpression (number value)
  | e => e

end QueryExpression

open QueryExpression

/-! ### The visitor -/

structure WithUnit where
  unitFamily : UnitFamily
  referenceUnit : MeasurementUnit
  unit : Unit
  fromFormula : Bool

inductive UnitMetadata
  | withNoUnit
  | withFutureUnit
  | withUnit (metadata : WithUnit)

/-- The end of `_visit_formula`, after the loop: the metadata seen last, and the parameters with
whether they are future units. -/
def visitParameters (op : ArithmeticOperator) (lastMetadata : WithUnit)
    (hasAllTimeseriesParams : Bool) (formula : QueryExpression Selection)
    (left right : Bool × QueryExpression Selection) : UnitMetadata × QueryExpression Selection :=
  if op.isCoefficient && hasAllTimeseriesParams then (.withNoUnit, formula)
  else
    let normalize (parameter : Bool × QueryExpression Selection) :=
      if !op.isCoefficient && parameter.1 then parameter.2.numericScalars lastMetadata.unit
      else parameter.2
    match getReferenceUnitForUnitFamily lastMetadata.unitFamily with
    | none => (.withNoUnit, formula)
    | some reference =>
      (.withUnit ⟨lastMetadata.unitFamily, reference.name, reference, true⟩,
        .formula op (normalize left) (normalize right))

/-- `UnitsNormalizationVisitor`; the loop over the two parameters of a formula is one match. -/
def visit (parseMri : String → Option ParsedMri) :
    QueryExpression Selection → UnitMetadata × QueryExpression Selection
  | formula op left right =>
    let allTimeseries := left.isTimeseries && right.isTimeseries
    match visit parseMri left, visit parseMri right with
    | (.withNoUnit, _), _ => (.withNoUnit, formula op left right)
    | _, (.withNoUnit, _) => (.withNoUnit, formula op left right)
    | (.withFutureUnit, _), (.withFutureUnit, _) => (.withFutureUnit, formula op left right)
    | (.withUnit metadata, l), (.withUnit metadata', r) =>
      if metadata'.unitFamily ≠ metadata.unitFamily then (.withNoUnit, formula op left right)
      else visitParameters op metadata' allTimeseries (formula op left right) (false, l) (false, r)
    | (.withUnit metadata, l), (.withFutureUnit, r) =>
      visitParameters op metadata allTimeseries (formula op left right) (false, l) (true, r)
    | (.withFutureUnit, l), (.withUnit metadata, r) =>
      visitParameters op metadata allTimeseries (formula op left right) (true, l) (false, r)
  | timeseries series =>
    match (extractUnit parseMri series).bind getUnitFamilyAndUnit with
    | some (family, reference, unit) =>
      (.withUnit ⟨family, reference, unit, false⟩, unit.applyOnQueryExpression (timeseries series))
    | none => (.withNoUnit, timeseries series)
  | number value => (.withFutureUnit, number value)
  | string value => (.withNoUnit, string value)

namespace QueryExpression

/-! ### Values -/

def eval (values : Timeseries Selection → ℚ) : QueryExpression Selection → ℚ
  | formula op left right => op.apply (left.eval values) (right.eval values)
  | timeseries series => values series
  | number value => value
  | string _ => 0

def parts : QueryExpression Selection → List (QueryExpression Selection)
  | formula op left right => formula op left right :: (left.parts ++ right.parts)
  | e => [e]

def allTimeseries : QueryExpression Selection → List (Timeseries Selection)
  | formula _ left right => left.allTimeseries ++ right.allTimeseries
  | timeseries series => [series]
  | _ => []

def isScalar : QueryExpression Selection → Bool
  | formula _ left right => left.isScalar && right.isScalar
  | number _ => true
  | _ => false

def hasUnit : QueryExpression Selection → Bool
  | formula op left right =>
    (left.hasUnit && right.hasUnit &&
        !(op.isCoefficient && (left.isTimeseries && right.isTimeseries))) ||
      left.hasUnit && right.isScalar || left.isScalar && right.hasUnit
  | timeseries _ => true
  | _ => false

/-- The value of the normalised expression is that of the expression times the factor, where it has
a unit and, in a place where scalars are normalised, where it is scalar. -/
def Scales (parseMri : String → Option ParsedMri) (unit : Unit) (values : Timeseries Selection → ℚ)
    (e : QueryExpression Selection) : Prop :=
  (∀ metadata normalized, visit parseMri e = (.withUnit metadata, normalized) →
    normalized.eval values = unit.scalingFactor * e.eval values) ∧
  (e.isScalar → (e.numericScalars unit).eval values = unit.scalingFactor * e.eval values)

/-- A formula that is not scaled as a whole, unless the value concerned is zero: a product or a
quotient of scalars that are not both numbers, a product of operands with units, a quotient by one,
or a sum or a difference of a scalar and a formula with a unit. -/
def Unscaled (values : Timeseries Selection → ℚ) : QueryExpression Selection → Prop
  | formula op left right =>
    if (formula op left right).isScalar then
      op.isCoefficient ∧ ¬ (left.isNumericScalar ∧ right.isNumericScalar) ∧
        (formula op left right).eval values ≠ 0
    else (formula op left right).hasUnit ∧
      match op with
      | .multiply => left.hasUnit ∧ right.hasUnit ∧ (formula op left right).eval values ≠ 0
      | .divide => right.hasUnit ∧ (formula op left right).eval values ≠ 0
      | _ => left.isScalar ∧ ¬ right.isTimeseries ∧ left.eval values ≠ 0 ∨
        right.isScalar ∧ ¬ left.isTimeseries ∧ right.eval values ≠ 0
  | _ => False

end QueryExpression

theorem eval_applyOnQueryExpression (unit : Unit) (values : Timeseries Selection → ℚ)
    (e : QueryExpression Selection) : (unit.applyOnQueryExpression e).eval values =
      unit.scalingFactor * e.eval values := by
  unfold Unit.applyOnQueryExpression
  split_ifs with hone
  · rw [hone, one_mul]
  · cases e <;> exact mul_comm _ _

/-! ### What the visitors do -/

theorem numericScalars_of_one {unit : Unit} (h : unit.scalingFactor = 1)
    (e : QueryExpression Selection) : e.numericScalars unit = e := by
  induction e with
  | formula op left right ihleft ihright =>
    simp [numericScalars, Unit.applyOnQueryExpression, h, ihleft, ihright]
  | number value => exact if_pos h
  | _ => rfl

section OneUnit

variable {parseMri : String → Option ParsedMri} {family : UnitFamily} {unit : Unit}
  {values : Timeseries Selection → ℚ} {op : ArithmeticOperator}
  {left right : QueryExpression Selection}

/-- What the visitor makes of an expression: the unit of a formula is the reference unit. -/
inductive Visited (parseMri : String → Option ParsedMri) (family : UnitFamily) (unit : Unit)
    (e : QueryExpression Selection) : Prop
  | scalar (hscalar : e.isScalar = true) (hunit : e.hasUnit = false)
      (hvisit : visit parseMri e = (.withFutureUnit, e))
  | unit (hscalar : e.isScalar = false) (hunit : e.hasUnit = true) (metadata : WithUnit)
      (normalized : QueryExpression Selection)
      (hvisit : visit parseMri e = (.withUnit metadata, normalized))
      (hfamily : metadata.unitFamily = family)
      (hmetadata : if e.isTimeseries then metadata.unit = unit
        else metadata.unit.scalingFactor = 1)
  | none (hscalar : e.isScalar = false) (hunit : e.hasUnit = false)
      (hvisit : visit parseMri e = (.withNoUnit, e))

theorem scales_iff_of_visit {e normalized : QueryExpression Selection} {metadata : WithUnit}
    (hscalar : e.isScalar = false) (hvisit : visit parseMri e = (.withUnit metadata, normalized)) :
    e.Scales parseMri unit values ↔
      normalized.eval values = unit.scalingFactor * e.eval values := by
  simp [Scales, hvisit, hscalar]

/-- A formula with a unit has the reference unit, and its parameters are those of the loop. -/
theorem visited_of_visitParameters {metadata : WithUnit}
    {first second : Bool × QueryExpression Selection}
    (hfamily : metadata.unitFamily = family) (hscalar : (formula op left right).isScalar = false)
    (hunit : (formula op left right).hasUnit = true)
    (hvisit : visit parseMri (formula op left right) = visitParameters op metadata
      (left.isTimeseries && right.isTimeseries) (formula op left right) first second)
    (hall : (op.isCoefficient && (left.isTimeseries && right.isTimeseries)) = false) :
    Visited parseMri family unit (formula op left right) ∧
      ((formula op left right).Scales parseMri unit values ↔
        op.apply ((if !op.isCoefficient && first.1 then first.2.numericScalars metadata.unit
            else first.2).eval values)
          ((if !op.isCoefficient && second.1 then second.2.numericScalars metadata.unit
            else second.2).eval values) =
          unit.scalingFactor * op.apply (left.eval values) (right.eval values)) := by
  obtain ⟨reference, hreference, hone⟩ := exists_referenceUnit family
  simp only [visitParameters, hfamily, hreference, hall, Bool.false_eq_true, if_false] at hvisit
  exact ⟨.unit hscalar hunit _ _ hvisit rfl (by simpa [isTimeseries]),
    scales_iff_of_visit hscalar hvisit⟩

variable {e : QueryExpression Selection}

theorem eval_numericScalars {metadata : WithUnit} {isTimeseries : Bool}
    (hmetadata : if isTimeseries then metadata.unit = unit else metadata.unit.scalingFactor = 1)
    (hscales : e.Scales parseMri unit values) (hscalar : e.isScalar) :
    (e.numericScalars metadata.unit).eval values =
      if isTimeseries then unit.scalingFactor * e.eval values else e.eval values := by
  split_ifs at hmetadata ⊢
  · rw [hmetadata]
    exact hscales.2 hscalar
  · rw [numericScalars_of_one hmetadata]

theorem isTimeseries_of_isScalar (h : e.isScalar) : e.isTimeseries = false := by
  cases e <;> simp_all [isScalar, isTimeseries]

section Values

variable (f x y : ℚ) (isTimeseries : Bool)

theorem eq_factor_mul_iff : x = f * x ↔ f = 1 ∨ x = 0 := by
  rw [eq_comm, mul_left_eq_self₀]

theorem add_factor_mul_iff : (if isTimeseries then f * x else x) + f * y = f * (x + y) ↔
    f = 1 ∨ (isTimeseries = false → x = 0) := by
  cases isTimeseries with
  | true => simp [mul_add]
  | false => simp [mul_add, ← eq_factor_mul_iff]

theorem sub_factor_mul_iff : (if isTimeseries then f * x else x) - f * y = f * (x - y) ↔
    f = 1 ∨ (isTimeseries = false → x = 0) := by
  simpa [sub_eq_add_neg] using add_factor_mul_iff f x (-y) isTimeseries

theorem factor_mul_add_iff : f * x + (if isTimeseries then f * y else y) = f * (x + y) ↔
    f = 1 ∨ (isTimeseries = false → y = 0) := by
  rw [add_comm, add_comm x, add_factor_mul_iff]

theorem factor_mul_sub_iff : f * x - (if isTimeseries then f * y else y) = f * (x - y) ↔
    f = 1 ∨ (isTimeseries = false → y = 0) := by
  rw [← neg_inj, neg_sub, ← mul_neg, neg_sub, sub_factor_mul_iff]

theorem mul_factor_mul_iff (hf : 0 < f) : f * x * (f * y) = f * (x * y) ↔ f = 1 ∨ x * y = 0 := by
  rw [mul_mul_mul_comm, mul_assoc, mul_right_inj' hf.ne', eq_comm, eq_factor_mul_iff]

theorem factor_mul_div_iff (hf : 0 < f) : f * x / (f * y) = f * (x / y) ↔ f = 1 ∨ x / y = 0 := by
  rw [mul_div_mul_left _ _ hf.ne', eq_factor_mul_iff]

theorem div_factor_mul_iff (hf : 0 < f) : x / (f * y) = f * (x / y) ↔ f = 1 ∨ x / y = 0 := by
  rw [div_mul_eq_div_div_swap, div_eq_iff hf.ne', mul_right_comm, eq_comm, mul_left_eq_self₀,
    mul_self_eq_one_iff]
  exact or_congr_left (or_iff_left (by linarith))

end Values

/-- The numbers of scalar operands are scaled, except in a product or quotient of formulas. -/
theorem scales_of_isScalar (op : ArithmeticOperator) (hleft : left.isScalar)
    (hright : right.isScalar)
    (hvisit : (visit parseMri (formula op left right)).1 = .withFutureUnit)
    (hscaled : left.Scales parseMri unit values ∧ right.Scales parseMri unit values) :
    (formula op left right).Scales parseMri unit values ↔
      unit.scalingFactor = 1 ∨ ¬ (formula op left right).Unscaled values := by
  have hunit : (formula op left right).Scales parseMri unit values ↔
      ((formula op left right).numericScalars unit).eval values =
        unit.scalingFactor * (formula op left right).eval values := by
    refine (and_iff_right fun metadata normalized h ↦ ?_).trans (by simp [isScalar, hleft, hright])
    simp [h] at hvisit
  rw [hunit]
  cases hop : op.isCoefficient with
  | true =>
    by_cases hnumbers : left.isNumericScalar ∧ right.isNumericScalar
    · refine iff_of_true ?_ (.inr (by simp [Unscaled, isScalar, hleft, hright, hnumbers]))
      simp [numericScalars, hop, hnumbers, eval_applyOnQueryExpression]
    · have hunscaled : (formula op left right).numericScalars unit = formula op left right := by
        simpa [numericScalars, hop] using fun h h' ↦ absurd ⟨h, h'⟩ hnumbers
      rw [hunscaled, eq_factor_mul_iff]
      simp [Unscaled, isScalar, hleft, hright, hop, hnumbers]
  | false =>
    refine iff_of_true ?_ (.inr (by simp [Unscaled, isScalar, hleft, hright, hop]))
    simp only [numericScalars, hop, Bool.false_eq_true, if_false, eval, hscaled.1.2 hleft,
      hscaled.2.2 hright]
    cases op with
    | plus => exact (mul_add _ _ _).symm
    | minus => exact (mul_sub _ _ _).symm
    | _ => simp [ArithmeticOperator.isCoefficient] at hop

attribute [local simp] ArithmeticOperator.apply ArithmeticOperator.isCoefficient

variable (values) in
theorem visited_formula (op : ArithmeticOperator) (hf : 0 < unit.scalingFactor)
    (hleft : Visited parseMri family unit left) (hright : Visited parseMri family unit right) :
    Visited parseMri family unit (.formula op left right) ∧
      (left.Scales parseMri unit values ∧ right.Scales parseMri unit values →
        ((formula op left right).Scales parseMri unit values ↔
          unit.scalingFactor = 1 ∨ ¬ (formula op left right).Unscaled values)) := by
  cases hleft with
  | none hscalar hunit hvisit =>
    refine ⟨.none ?_ ?_ ?_, fun _ ↦ iff_of_true ⟨?_, ?_⟩ (.inr ?_)⟩ <;>
      simp [isScalar, hasUnit, visit, Unscaled, *]
  | scalar hscalar hunit hvisit =>
    cases hright with
    | none hscalar' hunit' hvisit' =>
      refine ⟨.none ?_ ?_ ?_, fun _ ↦ iff_of_true ⟨?_, ?_⟩ (.inr ?_)⟩ <;>
        simp [isScalar, hasUnit, visit, Unscaled, *]
    | scalar hscalar' hunit' hvisit' =>
      have hvisit : visit parseMri (formula op left right) =
          (.withFutureUnit, formula op left right) := by
        simp [visit, hvisit, hvisit']
      refine ⟨.scalar ?_ ?_ hvisit, scales_of_isScalar op hscalar hscalar' (by rw [hvisit])⟩ <;>
        simp [isScalar, hasUnit, *]
    | unit hscalar' hunit' metadata normalized hvisit' hfamily hmetadata =>
      have hseries := isTimeseries_of_isScalar hscalar
      have hvisit : visit parseMri (formula op left right) = visitParameters op metadata
          (left.isTimeseries && right.isTimeseries) (formula op left right) (true, left)
          (false, normalized) := by
        rw [visit, hvisit, hvisit']
      obtain ⟨hformula, hiff⟩ := visited_of_visitParameters hfamily (by simp [isScalar, hscalar'])
        (by simp [hasUnit, *]) hvisit (by simp [hseries])
      refine ⟨hformula, fun hscaled ↦ hiff.trans ?_⟩
      have hright := (scales_iff_of_visit hscalar' hvisit').mp hscaled.2
      have hleft := eval_numericScalars hmetadata hscaled.1 hscalar
      cases op with
      | plus => simpa [Unscaled, hasUnit, isScalar, *] using add_factor_mul_iff _ _ _ _
      | minus => simpa [Unscaled, hasUnit, isScalar, *] using sub_factor_mul_iff _ _ _ _
      | multiply => simp [Unscaled, hasUnit, isScalar, *, mul_left_comm]
      | divide => simpa [Unscaled, eval, hasUnit, isScalar, *, ← or_iff_not_imp_left] using
          div_factor_mul_iff _ _ _ hf
  | unit hscalar hunit metadata normalized hvisit hfamily hmetadata =>
    have hscalar'' : (formula op left right).isScalar = false := by simp [isScalar, hscalar]
    cases hright with
    | none hscalar' hunit' hvisit' =>
      refine ⟨.none ?_ ?_ ?_, fun _ ↦ iff_of_true ⟨?_, ?_⟩ (.inr ?_)⟩ <;>
        simp [isScalar, hasUnit, visit, Unscaled, *]
    | scalar hscalar' hunit' hvisit' =>
      have hseries := isTimeseries_of_isScalar hscalar'
      have hvisit'' : visit parseMri (formula op left right) = visitParameters op metadata
          (left.isTimeseries && right.isTimeseries) (formula op left right) (false, normalized)
          (true, right) := by
        rw [visit, hvisit, hvisit']
      obtain ⟨hformula, hiff⟩ := visited_of_visitParameters hfamily hscalar''
        (by simp [hasUnit, *]) hvisit'' (by simp [hseries])
      refine ⟨hformula, fun hscaled ↦ hiff.trans ?_⟩
      have hleft := (scales_iff_of_visit hscalar hvisit).mp hscaled.1
      have hright := eval_numericScalars hmetadata hscaled.2 hscalar'
      cases op with
      | plus => simpa [Unscaled, hasUnit, *] using factor_mul_add_iff _ _ _ _
      | minus => simpa [Unscaled, hasUnit, *] using factor_mul_sub_iff _ _ _ _
      | multiply => simp [Unscaled, *, mul_assoc]
      | divide => simp [Unscaled, *, mul_div_assoc]
    | unit hscalar' hunit' metadata' normalized' hvisit' hfamily' hmetadata' =>
      have hvisit'' : visit parseMri (formula op left right) = visitParameters op metadata'
          (left.isTimeseries && right.isTimeseries) (formula op left right) (false, normalized)
          (false, normalized') := by
        simp [visit, *]
      by_cases hall : (op.isCoefficient && (left.isTimeseries && right.isTimeseries)) = true
      · rw [visitParameters, if_pos hall] at hvisit''
        have hunit : (formula op left right).hasUnit = false := by
          rw [hasUnit, hall]
          simp [hscalar, hscalar']
        refine ⟨.none hscalar'' hunit hvisit'', fun _ ↦ iff_of_true ⟨?_, ?_⟩ (.inr ?_)⟩ <;>
          simp [Unscaled, *]
      · have hall := Bool.eq_false_of_not_eq_true hall
        have hunit'' : (formula op left right).hasUnit = true := by
          rw [hasUnit, hall, hunit, hunit']
          rfl
        obtain ⟨hformula, hiff⟩ := visited_of_visitParameters hfamily' hscalar'' hunit'' hvisit''
          hall
        refine ⟨hformula, fun hscaled ↦ hiff.trans ?_⟩
        have hleft := (scales_iff_of_visit hscalar hvisit).mp hscaled.1
        have hright := (scales_iff_of_visit hscalar' hvisit').mp hscaled.2
        cases op with
        | plus => simp [Unscaled, *, mul_add]
        | minus => simp [Unscaled, *, mul_sub]
        | multiply => simpa [Unscaled, eval, *, ← or_iff_not_imp_left] using
            mul_factor_mul_iff _ _ _ hf
        | divide => simpa [Unscaled, eval, *, ← or_iff_not_imp_left] using
            factor_mul_div_iff _ _ _ hf

theorem QueryExpression.self_mem_parts (e : QueryExpression Selection) : e ∈ e.parts := by
  cases e <;> simp [parts]

theorem visited {name reference : MeasurementUnit}
    (hunit : getUnitFamilyAndUnit name = some (family, reference, unit))
    (h : ∀ series ∈ e.allTimeseries, extractUnit parseMri series = some name) :
    Visited parseMri family unit e ∧ ((∀ part ∈ e.parts, part.Scales parseMri unit values) ↔
      unit.scalingFactor = 1 ∨ ∀ part ∈ e.parts, ¬ part.Unscaled values) := by
  induction e with
  | formula op left right ihleft ihright =>
    obtain ⟨hleft, hleftParts⟩ := ihleft fun series hseries ↦ h series (mem_append_left _ hseries)
    obtain ⟨hright, hrightParts⟩ := ihright fun series hseries ↦
      h series (mem_append_right _ hseries)
    obtain ⟨hformula, hstep⟩ := visited_formula values op (scalingFactor_pos hunit)
      hleft hright
    refine ⟨hformula, ?_⟩
    simp only [parts, forall_mem_cons, forall_mem_append]
    constructor
    · rintro ⟨hscales, hl, hr⟩
      refine (Classical.em _).imp_right fun hne ↦ ⟨?_, ?_, ?_⟩
      · exact ((hstep ⟨hl left left.self_mem_parts, hr right right.self_mem_parts⟩).mp
          hscales).resolve_left hne
      · exact (hleftParts.mp hl).resolve_left hne
      · exact (hrightParts.mp hr).resolve_left hne
    · intro hor
      have hl := hleftParts.mpr (hor.imp_right fun hall ↦ hall.2.1)
      have hr := hrightParts.mpr (hor.imp_right fun hall ↦ hall.2.2)
      exact ⟨(hstep ⟨hl left left.self_mem_parts, hr right right.self_mem_parts⟩).mpr
        (hor.imp_right And.left), hl, hr⟩
  | timeseries series =>
    have hvisit : visit parseMri (timeseries series) =
        (.withUnit ⟨family, reference, unit, false⟩,
          unit.applyOnQueryExpression (timeseries series)) := by
      rw [visit, h series (by simp [allTimeseries]), Option.bind_some, hunit]
    refine ⟨.unit rfl rfl _ _ hvisit rfl rfl, iff_of_true ?_ (.inr (by simp [parts, Unscaled]))⟩
    simp only [parts, forall_mem_singleton, scales_iff_of_visit rfl hvisit]
    exact eval_applyOnQueryExpression unit values _
  | number value =>
    refine ⟨.scalar rfl rfl (by rw [visit]), iff_of_true ?_ (.inr (by simp [parts, Unscaled]))⟩
    simp [parts, Scales, visit, numericScalars, eval_applyOnQueryExpression]
  | string value =>
    refine ⟨.none rfl rfl (by rw [visit]), iff_of_true ?_ (.inr (by simp [parts, Unscaled]))⟩
    simp [parts, Scales, visit, isScalar]

end OneUnit

def millisecond : Unit := ⟨.millisecond, 10 ^ 6⟩

end Sentry.SentryMetrics.UnitsNormalization
