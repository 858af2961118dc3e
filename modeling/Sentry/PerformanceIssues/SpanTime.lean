import Mathlib.MeasureTheory.Measure.Lebesgue.Basic
import Sentry.PerformanceIssues.NPlusOneDbSpans

/-!
# The time that spans cover

`total_span_time` sweeps over the spans by their starts. The part it has passed is what it has
counted, and lies before the interval that still moves (`Cover.Sweeps`); so the result is the measure
of the union of the intervals.
-/

namespace Sentry.PerformanceIssues

open MeasureTheory List

def interval (span : Span) : Set ℝ := Set.Icc (span.startTimestamp : ℝ) span.timestamp

/-- The union of the intervals of the spans. -/
def covered (spans : List Span) : Set ℝ := ⋃ span ∈ spans, interval span

/-- The points of the spans so far: those of the current interval, and earlier ones whose measure is
the time counted. -/
structure Cover.Sweeps (cover : Cover) (points : Set ℝ) : Prop where
  ordered : cover.currentMin ≤ cover.currentMax
  nonneg : 0 ≤ cover.totalDuration
  passed : ∃ passed ⊆ Set.Iio (cover.currentMin : ℝ),
    points = passed ∪ Set.Icc (cover.currentMin : ℝ) cover.currentMax ∧
      volume passed = ENNReal.ofReal cover.totalDuration

section

variable {cover : Cover} {points : Set ℝ} (h : cover.Sweeps points)

include h

theorem Cover.Sweeps.volume_eq :
    volume points =
      ENNReal.ofReal (cover.totalDuration + (cover.currentMax - cover.currentMin) : ℚ) := by
  obtain ⟨passed, hpassed, rfl, hvolume⟩ := h.passed
  have hdisjoint : Disjoint passed (Set.Icc (cover.currentMin : ℝ) cover.currentMax) :=
    Set.disjoint_left.mpr fun x hx hcurrent ↦ (hpassed hx).not_ge hcurrent.1
  have hordered : (0 : ℝ) ≤ cover.currentMax - cover.currentMin :=
    sub_nonneg.mpr (by exact_mod_cast h.ordered)
  rw [measure_union hdisjoint measurableSet_Icc, hvolume, Real.volume_Icc,
    ← ENNReal.ofReal_add (by exact_mod_cast h.nonneg) hordered]
  push_cast
  rfl

theorem Cover.Sweeps.extend {span : Span} (hstart : cover.currentMin ≤ span.startTimestamp)
    (hspan : span.startTimestamp ≤ span.timestamp) :
    (cover.extend span).Sweeps (points ∪ interval span) := by
  have hvolume := h.volume_eq
  obtain ⟨passed, hpassed, rfl, hcounted⟩ := h.passed
  unfold Cover.extend
  split_ifs with hwithin
  · refine ⟨h.ordered.trans (le_max_right _ _), h.nonneg, passed, hpassed, ?_, hcounted⟩
    have hmax : (span.startTimestamp : ℝ) ≤ cover.currentMax := by exact_mod_cast hwithin.2
    have hmin : (cover.currentMin : ℝ) ≤ span.startTimestamp := by exact_mod_cast hstart
    have hend : (cover.currentMin : ℝ) ≤ span.timestamp := by exact_mod_cast hstart.trans hspan
    rw [Set.union_assoc, interval, Set.Icc_union_Icc' hmax hend, min_eq_left hmin, max_comm]
    push_cast
    rfl
  · have hgap : cover.currentMax < span.startTimestamp :=
      not_le.mp fun hmax ↦ hwithin ⟨hstart, hmax⟩
    refine ⟨hspan, add_nonneg h.nonneg (sub_nonneg.mpr h.ordered), _, ?_, rfl, hvolume⟩
    rintro x (hx | hx)
    · exact (Set.mem_Iio.mp (hpassed hx)).trans_le (by exact_mod_cast hstart)
    · exact hx.2.trans_lt (by exact_mod_cast hgap)

/-- Assumes: the spans are sorted by their starts, and start after the current interval does. -/
theorem Cover.Sweeps.foldl {rest : List Span}
    (hsorted : rest.Pairwise fun a b ↦ a.startTimestamp ≤ b.startTimestamp)
    (hstart : ∀ span ∈ rest, cover.currentMin ≤ span.startTimestamp)
    (hrest : ∀ span ∈ rest, span.startTimestamp ≤ span.timestamp) :
    (rest.foldl Cover.extend cover).Sweeps (points ∪ covered rest) := by
  induction rest generalizing cover points with
  | nil => simpa [covered] using h
  | cons span rest ih =>
    rw [pairwise_cons] at hsorted
    rw [forall_mem_cons] at hstart hrest
    have hunion : points ∪ covered (span :: rest) = points ∪ interval span ∪ covered rest := by
      rw [covered, covered, Set.union_assoc]
      simp
    rw [foldl_cons, hunion]
    refine ih (h.extend hstart.1 hrest.1) hsorted.2 (fun other hother ↦ ?_) hrest.2
    unfold Cover.extend
    split_ifs
    · exact hstart.2 other hother
    · exact hsorted.1 other hother

end

theorem covered_perm {spans others : List Span} (h : others.Perm spans) :
    covered others = covered spans := by
  simp only [covered, h.mem_iff]

section

variable {spans : List Span} (hspans : spans ≠ [])
  (hordered : ∀ span ∈ spans, span.startTimestamp ≤ span.timestamp)

include hspans hordered

theorem exists_sweeps : ∃ cover : Cover, cover.Sweeps (covered spans) ∧
    totalSpanTime spans = (cover.totalDuration + (cover.currentMax - cover.currentMin)) * 1000 := by
  have hperm := perm_insertionSort (fun a b : Span ↦ a.startTimestamp ≤ b.startTimestamp) spans
  have hsorted := pairwise_insertionSort
    (fun a b : Span ↦ a.startTimestamp ≤ b.startTimestamp) spans
  simp only [← hperm.mem_iff] at hordered
  rw [totalSpanTime, ← covered_perm hperm]
  revert hperm hsorted hordered
  rcases spans.insertionSort _ with _ | ⟨first, rest⟩ <;> intro hperm hsorted hordered
  · exact absurd (nil_perm.mp hperm) hspans
  · rw [pairwise_cons] at hsorted
    rw [forall_mem_cons] at hordered
    have hfirst : Cover.Sweeps ⟨0, first.startTimestamp, first.timestamp⟩ (interval first) :=
      ⟨hordered.1, le_rfl, ∅, Set.empty_subset _, (Set.empty_union _).symm, by simp⟩
    have hunion : covered (first :: rest) = interval first ∪ covered rest := by simp [covered]
    exact ⟨_, hunion ▸ hfirst.foldl hsorted.2 hsorted.1 hordered.2, rfl⟩

theorem totalSpanTime_nonneg : 0 ≤ totalSpanTime spans := by
  obtain ⟨cover, h, heq⟩ := exists_sweeps hspans hordered
  rw [heq]
  have hcurrent := sub_nonneg.mpr h.ordered
  have htotal := h.nonneg
  positivity

theorem ofReal_totalSpanTime :
    ENNReal.ofReal (totalSpanTime spans) = 1000 * volume (covered spans) := by
  obtain ⟨cover, h, heq⟩ := exists_sweeps hspans hordered
  rw [heq, h.volume_eq, mul_comm, Rat.cast_mul, ENNReal.ofReal_mul (by norm_num)]
  norm_num

theorem totalSpanTime_congr {others : List Span} (hothers : others ≠ [])
    (hordered' : ∀ span ∈ others, span.startTimestamp ≤ span.timestamp)
    (hcovered : covered others = covered spans) : totalSpanTime others = totalSpanTime spans := by
  have htime := ofReal_totalSpanTime hothers hordered'
  rw [hcovered, ← ofReal_totalSpanTime hspans hordered,
    ENNReal.ofReal_eq_ofReal_iff (by exact_mod_cast totalSpanTime_nonneg hothers hordered')
      (by exact_mod_cast totalSpanTime_nonneg hspans hordered)] at htime
  exact_mod_cast htime

end

/-- Assumes: the list is not empty, and every span ends no earlier than it starts. The total time is
1000 times the measure of the union of their intervals, in any order, and stays the same when spans
of that union are added. -/
theorem totalSpanTime_measures_union {spans : List Span} (hspans : spans ≠ [])
    (hordered : ∀ span ∈ spans, span.startTimestamp ≤ span.timestamp) :
    ENNReal.ofReal (totalSpanTime spans) = 1000 * volume (covered spans) ∧
      (∀ others : List Span, others.Perm spans → totalSpanTime others = totalSpanTime spans) ∧
        ∀ (span : Span) (others : List Span), others.Perm (span :: spans) →
          span.startTimestamp ≤ span.timestamp → interval span ⊆ covered spans →
            totalSpanTime others = totalSpanTime spans := by
  refine ⟨ofReal_totalSpanTime hspans hordered, fun others hperm ↦ ?_,
    fun span others hperm hspan hwithin ↦ ?_⟩
  · refine totalSpanTime_congr hspans hordered (fun h ↦ hspans (nil_perm.mp (h ▸ hperm)))
      (fun other hother ↦ hordered other (hperm.mem_iff.mp hother)) (covered_perm hperm)
  · have hadded : covered (span :: spans) = covered spans := by
      simpa [covered] using hwithin
    refine totalSpanTime_congr hspans hordered
      (fun h ↦ cons_ne_nil span spans (nil_perm.mp (h ▸ hperm)))
      (fun other hother ↦ ?_) ((covered_perm hperm).trans hadded)
    rcases mem_cons.mp (hperm.mem_iff.mp hother) with rfl | hmem
    · exact hspan
    · exact hordered other hmem

def spanOf (startTimestamp timestamp : ℚ) : Span :=
  ⟨none, none, none, none, none, startTimestamp, timestamp⟩

theorem totalSpanTime_nested :
    totalSpanTime [spanOf 2 3, spanOf 0 4] = totalSpanTime [spanOf 0 4] := by
  refine (totalSpanTime_measures_union (cons_ne_nil (spanOf 0 4) []) ?_).2.2 (spanOf 2 3) _
    (List.Perm.refl _) ?_ ?_
  · simp [spanOf]
  · norm_num [spanOf]
  · have hsubset : Set.Icc (2 : ℝ) 3 ⊆ Set.Icc (0 : ℝ) 4 :=
      Set.Icc_subset_Icc (by norm_num) (by norm_num)
    simpa [covered, interval, spanOf] using hsubset

end Sentry.PerformanceIssues
