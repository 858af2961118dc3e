import Mathlib.Data.Nat.Bits
import Mathlib.Tactic.Positivity
import Mathlib.Tactic.Ring

/-!
# The segments of a snowflake id

`utils/snowflake.py`. A snowflake id packs four segments, most significant first: the version, the
time, the region and a sequence value. One shift keeps what was packed before and can be undone
(`shiftIn_and`, `shiftIn_shiftRight`), and an id of 53 bits with its four values comes of the four
shifts (`packSegments_eq_some_iff`, `Decodes`).
-/

namespace Sentry.Snowflake

/-- `SnowflakeBitSegment`: the length is positive, as `__post_init__` requires. -/
structure SnowflakeBitSegment where
  length : ℕ
  name : String
  length_pos : 0 < length
  deriving DecidableEq

/-- `SnowflakeBitSegment.validate`, without its exception. -/
def SnowflakeBitSegment.validate (segment : SnowflakeBitSegment) (value : ℤ) : Bool :=
  value >>> segment.length = 0

def versionId : SnowflakeBitSegment := ⟨5, "Version ID", by decide⟩

def timeDifference : SnowflakeBitSegment := ⟨32, "Time difference", by decide⟩

def regionId : SnowflakeBitSegment := ⟨12, "Region ID", by decide⟩

def regionSequence : SnowflakeBitSegment := ⟨4, "Region sequence", by decide⟩

def bitSegmentSchema : List SnowflakeBitSegment :=
  [versionId, timeDifference, regionId, regionSequence]

def idValidator : SnowflakeBitSegment :=
  ⟨(bitSegmentSchema.map SnowflakeBitSegment.length).sum, "Snowflake ID", by decide⟩

def maxAvailableRegionSequences : ℕ := 1 <<< regionSequence.length

/-- `msb_0_ordering`: the bits of the value, at least `width` of them, are read from the other
end. -/
def msb0Ordering (value width : ℕ) : ℕ :=
  ((List.range (max width (value.log2 + 1))).map value.testBit).foldl
    (fun acc bit ↦ 2 * acc + bit.toNat) 0

/-- The loop of `generate_snowflake_id` over the schema: `none` when a segment refuses its value. -/
def packSegments : List (SnowflakeBitSegment × ℤ) → ℕ → Option ℕ
  | [], snowflakeId => some snowflakeId
  | (segment, value) :: rest, snowflakeId =>
    if segment.validate value then
      packSegments rest (snowflakeId <<< segment.length ||| value.toNat)
    else none

def recoverSegmentValue (segment : SnowflakeBitSegment) : List SnowflakeBitSegment → ℕ → Option ℕ
  | [], _ => none
  | last :: before, value =>
    if last = segment then some (value &&& (1 <<< last.length - 1))
    else recoverSegmentValue segment before (value >>> last.length)

theorem validate_iff {segment : SnowflakeBitSegment} {value : ℤ} :
    segment.validate value = true ↔ 0 ≤ value ∧ value < 2 ^ segment.length := by
  have hpos : (0 : ℤ) < 2 ^ segment.length := by positivity
  rw [SnowflakeBitSegment.validate, decide_eq_true_eq, Int.shiftRight_eq_div_pow]
  push_cast
  constructor
  · intro h
    have hmod := Int.emod_add_mul_ediv value (2 ^ segment.length)
    rw [h, mul_zero, add_zero] at hmod
    exact ⟨hmod ▸ Int.emod_nonneg _ hpos.ne', hmod ▸ Int.emod_lt_of_pos _ hpos⟩
  · rintro ⟨hnonneg, hlt⟩
    exact Int.ediv_eq_zero_of_lt hnonneg hlt

theorem shiftIn_and {acc value length : ℕ} (h : value < 2 ^ length) :
    (acc <<< length ||| value) &&& (1 <<< length - 1) = value := by
  rw [Nat.shiftLeft_eq 1, one_mul, Nat.and_two_pow_sub_one_eq_mod,
    ← Nat.shiftLeft_add_eq_or_of_lt h, Nat.shiftLeft_eq, Nat.mul_comm, Nat.mul_add_mod,
    Nat.mod_eq_of_lt h]

theorem shiftIn_shiftRight {acc value length : ℕ} (h : value < 2 ^ length) :
    (acc <<< length ||| value) >>> length = acc := by
  rw [← Nat.shiftLeft_add_eq_or_of_lt h, Nat.shiftLeft_eq, Nat.shiftRight_eq_div_pow,
    Nat.mul_comm, Nat.mul_add_div (by positivity), Nat.div_eq_of_lt h, Nat.add_zero]

theorem shiftIn_lt {acc value length bits : ℕ} (hacc : acc < 2 ^ bits) (h : value < 2 ^ length) :
    acc <<< length ||| value < 2 ^ (bits + length) := by
  rw [← Nat.shiftLeft_add_eq_or_of_lt h, Nat.shiftLeft_eq, pow_add]
  calc acc * 2 ^ length + value < acc * 2 ^ length + 2 ^ length := by omega
    _ = (acc + 1) * 2 ^ length := by ring
    _ ≤ 2 ^ bits * 2 ^ length := Nat.mul_le_mul_right _ hacc

/-- The values of the four segments. -/
structure SegmentValues where
  version : ℕ
  time : ℕ
  region : ℕ
  sequence : ℕ
  deriving DecidableEq

/-- `segment_values`, in the order of the schema. -/
def SegmentValues.segments (values : SegmentValues) : List (SnowflakeBitSegment × ℤ) :=
  [(versionId, values.version), (timeDifference, values.time), (regionId, values.region),
    (regionSequence, values.sequence)]

def SegmentValues.Fit (values : SegmentValues) : Prop :=
  values.version < 2 ^ 5 ∧ values.time < 2 ^ 32 ∧ values.region < 2 ^ 12 ∧ values.sequence < 2 ^ 4

/-- The id has 53 bits and its segments read as the values. -/
structure Decodes (id : ℕ) (values : SegmentValues) : Prop where
  fits : id < 2 ^ 53
  version : recoverSegmentValue versionId bitSegmentSchema.reverse id = some values.version
  time : recoverSegmentValue timeDifference bitSegmentSchema.reverse id = some values.time
  region : recoverSegmentValue regionId bitSegmentSchema.reverse id = some values.region
  sequence : recoverSegmentValue regionSequence bitSegmentSchema.reverse id = some values.sequence

def SegmentValues.pack (values : SegmentValues) : ℕ :=
  ((values.version <<< 32 ||| values.time) <<< 12 ||| values.region) <<< 4 ||| values.sequence

theorem packSegments_eq_some_iff {values : SegmentValues} {id : ℕ} :
    packSegments values.segments 0 = some id ↔ values.Fit ∧ id = values.pack := by
  have hvalidate : ∀ (segment : SnowflakeBitSegment) (value : ℕ),
      segment.validate (value : ℤ) = true ↔ value < 2 ^ segment.length := by
    intro segment value
    rw [validate_iff]
    constructor
    · rintro ⟨-, h⟩
      exact_mod_cast h
    · intro h
      exact ⟨Int.natCast_nonneg _, by exact_mod_cast h⟩
  simp only [SegmentValues.segments, packSegments, hvalidate, Int.toNat_natCast, versionId,
    timeDifference, regionId, regionSequence, SegmentValues.Fit, SegmentValues.pack,
    Nat.zero_shiftLeft, Nat.zero_or]
  split_ifs with hversion htime hregion hsequence
  · rw [Option.some.injEq, eq_comm]
    exact ⟨fun h ↦ ⟨⟨hversion, htime, hregion, hsequence⟩, h⟩, And.right⟩
  · exact ⟨(nomatch ·), fun h ↦ absurd h.1.2.2.2 hsequence⟩
  · exact ⟨(nomatch ·), fun h ↦ absurd h.1.2.2.1 hregion⟩
  · exact ⟨(nomatch ·), fun h ↦ absurd h.1.2.1 htime⟩
  · exact ⟨(nomatch ·), fun h ↦ absurd h.1.1 hversion⟩

theorem SegmentValues.Fit.decodes {values : SegmentValues} (h : values.Fit) :
    Decodes values.pack values := by
  obtain ⟨hversion, htime, hregion, hsequence⟩ := h
  refine ⟨?_, ?_, ?_, ?_, ?_⟩
  · exact shiftIn_lt (shiftIn_lt (shiftIn_lt hversion htime) hregion) hsequence
  all_goals
    rw [show bitSegmentSchema.reverse = [regionSequence, regionId, timeDifference, versionId] from
      rfl, SegmentValues.pack]
  · rw [recoverSegmentValue, if_neg (by decide), recoverSegmentValue, if_neg (by decide),
      recoverSegmentValue, if_neg (by decide), recoverSegmentValue, if_pos rfl]
    show some ((_ >>> 4 >>> 12 >>> 32) &&& (1 <<< 5 - 1)) = _
    rw [shiftIn_shiftRight hsequence, shiftIn_shiftRight hregion, shiftIn_shiftRight htime,
      Nat.shiftLeft_eq, one_mul, Nat.and_two_pow_sub_one_eq_mod, Nat.mod_eq_of_lt hversion]
  · rw [recoverSegmentValue, if_neg (by decide), recoverSegmentValue, if_neg (by decide),
      recoverSegmentValue, if_pos rfl]
    show some ((_ >>> 4 >>> 12) &&& (1 <<< 32 - 1)) = _
    rw [shiftIn_shiftRight hsequence, shiftIn_shiftRight hregion, shiftIn_and htime]
  · rw [recoverSegmentValue, if_neg (by decide), recoverSegmentValue, if_pos rfl]
    show some ((_ >>> 4) &&& (1 <<< 12 - 1)) = _
    rw [shiftIn_shiftRight hsequence, shiftIn_and hregion]
  · rw [recoverSegmentValue, if_pos rfl]
    exact congrArg some (shiftIn_and hsequence)

theorem Decodes.values_eq {id : ℕ} {values values' : SegmentValues} (h : Decodes id values)
    (h' : Decodes id values') : values = values' := by
  obtain ⟨_, hversion, htime, hregion, hsequence⟩ := h
  obtain ⟨_, hversion', htime', hregion', hsequence'⟩ := h'
  cases values
  cases values'
  simp_all

end Sentry.Snowflake
