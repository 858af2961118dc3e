import Mathlib.Algebra.Order.BigOperators.Ring.Finset
import Mathlib.Tactic.FieldSimp
import Mathlib.Tactic.Linarith
import Mathlib.Tactic.Positivity

/-!
# Allocation to a common level

Each item of a list has a capacity and a share, and is moved from its share towards a common level:
fully with intensity 1, not at all with intensity 0, and never above its capacity. When the level,
kept for all remaining items, would not reach what is left of a minimum, it is raised to the equal
split of what is left (`raisedLevel`), and stays raised (`allocate`).

Amounts are nonnegative and within the capacities (`allocate_mem_Icc`). For items of ascending
share, the allocation reaches a minimum that the shares reach (`le_sum_allocate`), and exceeds it by
no more than small items can make room for (`sum_allocate_le`, `sum_allocate_replicate`). With
intensity 1 and ascending capacities it is water filling (`exists_allocate_one_eq_map_min`).
-/

namespace Sentry.Library

open List

variable {K : Type*} [Field K] [LinearOrder K]

/-- What an item can take, and what it has. -/
structure Share (K : Type*) where
  capacity : K
  share : K

def raisedLevel (level minimum : K) (items : ℕ) : K :=
  if level * items < minimum then minimum / items else level

/-- An item moves from its share towards the level, as far as its capacity allows. -/
def amount (intensity level : K) (item : Share K) : K :=
  min item.capacity (item.share + (level - item.share) * intensity)

def allocate (intensity : K) : K → K → List (Share K) → List K
  | _, _, [] => []
  | level, minimum, item :: rest =>
    let raised := raisedLevel level minimum (rest.length + 1)
    amount intensity raised item ::
      allocate intensity raised (minimum - amount intensity raised item) rest

/-- How far a level above the shares grows over `k` small items. -/
def growth (intensity : K) (k : ℕ) : K :=
  ∏ r ∈ Finset.range k, (1 + (1 - intensity) / (r + 1))

variable {intensity level minimum : K}

theorem raisedLevel_of_le {items : ℕ} (h : minimum ≤ level * items) :
    raisedLevel level minimum items = level := if_neg (not_lt.mpr h)

theorem amount_le (intensity level : K) (item : Share K) :
    amount intensity level item ≤ (1 - intensity) * item.share + intensity * level :=
  (min_le_right _ _).trans_eq (by ring)

theorem amount_one (item : Share K) : amount 1 level item = min item.capacity level := by
  rw [amount, mul_one, add_sub_cancel]

@[simp] theorem length_allocate (items : List (Share K)) :
    (allocate intensity level minimum items).length = items.length := by
  induction items generalizing level minimum with
  | nil => rfl
  | cons item rest ih => rw [allocate, length_cons, ih, length_cons]

def sumShares (items : List (Share K)) : K := (items.map Share.share).sum

omit [LinearOrder K] in
@[simp] theorem sumShares_cons (item : Share K) (rest : List (Share K)) :
    sumShares (item :: rest) = item.share + sumShares rest := sum_cons

section Ordered

variable [IsStrictOrderedRing K]

theorem le_raisedLevel (level minimum : K) {items : ℕ} (hitems : 0 < items) :
    level ≤ raisedLevel level minimum items := by
  have hpos : (0 : K) < items := Nat.cast_pos.mpr hitems
  unfold raisedLevel
  split_ifs with hraise
  · exact (le_div_iff₀ hpos).mpr hraise.le
  · exact le_rfl

theorem le_raisedLevel_mul (level minimum : K) {items : ℕ} (hitems : 0 < items) :
    minimum ≤ raisedLevel level minimum items * items := by
  have hpos : (0 : K) < items := Nat.cast_pos.mpr hitems
  unfold raisedLevel
  split_ifs with hraise
  · rw [div_mul_cancel₀ _ hpos.ne']
  · exact not_lt.mp hraise

theorem amount_nonneg (hintensity : 0 ≤ intensity) (hle : intensity ≤ 1) (hlevel : 0 ≤ level)
    {item : Share K} (hshare : 0 ≤ item.share) (hcapacity : item.share ≤ item.capacity) :
    0 ≤ amount intensity level item := by
  refine le_min (hshare.trans hcapacity) ?_
  have hweighted : 0 ≤ (1 - intensity) * item.share + intensity * level :=
    add_nonneg (mul_nonneg (sub_nonneg.mpr hle) hshare) (mul_nonneg hintensity hlevel)
  linarith

variable {items : List (Share K)}

/-- Assumes: shares are nonnegative and within the capacities. So are the amounts. -/
theorem allocate_mem_Icc (hintensity : 0 ≤ intensity) (hle : intensity ≤ 1) (hlevel : 0 ≤ level)
    (hitems : ∀ item ∈ items, 0 ≤ item.share ∧ item.share ≤ item.capacity) :
    List.Forall₂ (fun item taken ↦ 0 ≤ taken ∧ taken ≤ item.capacity) items
      (allocate intensity level minimum items) := by
  induction items generalizing level minimum with
  | nil => exact List.Forall₂.nil
  | cons item rest ih =>
    obtain ⟨hshare, hcapacity⟩ := hitems item mem_cons_self
    have hraised : 0 ≤ raisedLevel level minimum (rest.length + 1) :=
      hlevel.trans (le_raisedLevel _ _ (Nat.succ_pos _))
    exact List.Forall₂.cons
      ⟨amount_nonneg hintensity hle hraised hshare hcapacity, min_le_left _ _⟩
      (ih hraised fun other hother ↦ hitems other (mem_cons_of_mem item hother))

theorem length_mul_le_sumShares {share : K}
    (h : ∀ item ∈ items, share ≤ item.share) : items.length * share ≤ sumShares items := by
  induction items with
  | nil => simp [sumShares]
  | cons item rest ih =>
    have hrest := ih fun other hother ↦ h other (mem_cons_of_mem item hother)
    have hitem := h item mem_cons_self
    rw [sumShares_cons, length_cons, Nat.cast_succ]
    linarith

/-- Assumes: the shares are ascending and within the capacities, and reach the minimum. So does the
allocation. -/
theorem le_sum_allocate (hintensity : 0 ≤ intensity) (hle : intensity ≤ 1)
    (hsorted : items.Pairwise fun item other ↦ item.share ≤ other.share)
    (hcapacity : ∀ item ∈ items, item.share ≤ item.capacity)
    (hminimum : minimum ≤ sumShares items) :
    minimum ≤ (allocate intensity level minimum items).sum := by
  induction items generalizing level minimum with
  | nil => simpa [sumShares, allocate] using hminimum
  | cons item rest ih =>
    obtain ⟨hfirst, hsorted⟩ := pairwise_cons.mp hsorted
    set raised := raisedLevel level minimum (rest.length + 1) with hraised
    have hreach : minimum ≤ raised * (rest.length + 1) := by
      simpa using le_raisedLevel_mul level minimum (Nat.succ_pos rest.length)
    rw [sumShares_cons] at hminimum
    -- what is left of the minimum is reached by the shares that are left
    have hleft : minimum - amount intensity raised item ≤ sumShares rest := by
      rcases min_choice item.capacity (item.share + (raised - item.share) * intensity)
        with hfull | hmoved
      · have hfits := hcapacity item mem_cons_self
        rw [amount, hfull]
        linarith
      · rw [amount, hmoved]
        rcases le_total item.share raised with hup | hdown
        · have hmore := mul_nonneg (sub_nonneg.mpr hup) hintensity
          linarith
        · have hothers := length_mul_le_sumShares hfirst
          have hgap : (item.share - raised) * intensity ≤ item.share - raised :=
            mul_le_of_le_one_right (sub_nonneg.mpr hdown) hle
          have hmany : (0 : K) ≤ rest.length * (item.share - raised) :=
            mul_nonneg (Nat.cast_nonneg _) (sub_nonneg.mpr hdown)
          linarith
    have hrest : minimum - amount intensity raised item ≤
        (allocate intensity raised (minimum - amount intensity raised item) rest).sum := ih hsorted
      (fun other hother ↦ hcapacity other (mem_cons_of_mem item hother)) hleft
    rw [allocate, sum_cons]
    linarith

omit [LinearOrder K] [IsStrictOrderedRing K] in
theorem growth_succ (k : ℕ) :
    growth intensity (k + 1) = growth intensity k * (1 + (1 - intensity) / (k + 1)) :=
  Finset.prod_range_succ _ k

theorem one_le_growth (hle : intensity ≤ 1) (k : ℕ) : 1 ≤ growth intensity k := by
  induction k with
  | zero => simp [growth]
  | succ k ih =>
    have hfraction : 0 ≤ (1 - intensity) / (k + 1 : K) :=
      div_nonneg (sub_nonneg.mpr hle) (by positivity)
    rw [growth_succ]
    exact one_le_mul_of_one_le_of_one_le ih (by linarith)

theorem growth_nonneg (hle : intensity ≤ 1) (k : ℕ) : 0 ≤ growth intensity k :=
  zero_le_one.trans (one_le_growth hle k)

theorem growth_le (hintensity : 0 ≤ intensity) (hle : intensity ≤ 1) (k : ℕ) :
    growth intensity k ≤ k + 1 := by
  induction k with
  | zero => simp [growth]
  | succ k ih =>
    have hpos : (0 : K) < k + 1 := by positivity
    have hfraction : 0 ≤ (1 - intensity) / (k + 1 : K) :=
      div_nonneg (sub_nonneg.mpr hle) hpos.le
    have hfactor : 0 ≤ 1 + (1 - intensity) / (k + 1 : K) := by linarith
    calc growth intensity (k + 1) = growth intensity k * (1 + (1 - intensity) / (k + 1)) :=
          growth_succ k
      _ ≤ (k + 1) * (1 + (1 - intensity) / (k + 1)) := mul_le_mul_of_nonneg_right ih hfactor
      _ = k + 1 + (1 - intensity) := by field_simp
      _ ≤ (k + 1 : ℕ) + 1 := by push_cast; linarith

theorem allocate_raisedLevel (items : List (Share K)) :
    allocate intensity (raisedLevel level minimum items.length) minimum items =
      allocate intensity level minimum items := by
  cases items with
  | nil => rfl
  | cons item rest =>
    have hraised : raisedLevel (raisedLevel level minimum (rest.length + 1)) minimum
        (rest.length + 1) = raisedLevel level minimum (rest.length + 1) :=
      raisedLevel_of_le (le_raisedLevel_mul _ _ (Nat.succ_pos _))
    rw [length_cons, allocate, allocate, hraised]

/-- Assumes: an amount that is not above what the intensity gives between a share and the level. The
level raised for the `n` items that are left gives at most the part `part` of it more. -/
theorem amount_add_mul_raisedLevel_le {share taken n part : K} (hle : intensity ≤ 1)
    (hlevel : 0 ≤ level) (hshare : 0 ≤ share) (hn : 0 < n) (hpart : 0 ≤ part) (hpartLe : part ≤ n)
    (htaken : taken ≤ (1 - intensity) * share + intensity * level) {raised : K}
    (hraised : raised ≤ level ∨ raised ≤ level + (level - taken) / n) :
    taken + raised * part ≤
      (1 - intensity) * share + level * (intensity + part + (1 - intensity) * (part / n)) := by
  set a := part / n with ha
  have ha0 : 0 ≤ a := div_nonneg hpart hn.le
  have ha1 : a ≤ 1 := (div_le_one hn).mpr hpartLe
  rcases hraised with hraised | hraised
  · have hkept : raised * part ≤ level * part := mul_le_mul_of_nonneg_right hraised hpart
    have hmore : 0 ≤ level * ((1 - intensity) * a) :=
      mul_nonneg hlevel (mul_nonneg (sub_nonneg.mpr hle) ha0)
    linarith
  · have hsplit : raised * part ≤ level * part + (level - taken) * a := by
      calc raised * part ≤ (level + (level - taken) / n) * part :=
            mul_le_mul_of_nonneg_right hraised hpart
        _ = level * part + (level - taken) * a := by rw [ha]; ring
    have hrest : taken * (1 - a) ≤ ((1 - intensity) * share + intensity * level) * (1 - a) :=
      mul_le_mul_of_nonneg_right htaken (sub_nonneg.mpr ha1)
    have hmore : 0 ≤ (1 - intensity) * share * a :=
      mul_nonneg (mul_nonneg (sub_nonneg.mpr hle) hshare) ha0
    linarith

/-- Assumes: the level reaches the minimum. The allocation is at most what the intensity leaves of
the shares, and a multiple of the level. -/
theorem sum_allocate_le (hintensity : 0 ≤ intensity) (hle : intensity ≤ 1) (hlevel : 0 ≤ level)
    {item : Share K} {rest : List (Share K)} (hshares : ∀ other ∈ item :: rest, 0 ≤ other.share)
    (hminimum : minimum ≤ level * (rest.length + 1)) :
    (allocate intensity level minimum (item :: rest)).sum ≤
      (1 - intensity) * sumShares (item :: rest) +
        level * (rest.length + 1 - (1 - intensity) * growth intensity rest.length) := by
  induction rest generalizing item level minimum with
  | nil =>
    have hraised : raisedLevel level minimum 1 = level :=
      raisedLevel_of_le (by simpa using hminimum)
    have hitem := amount_le intensity level item
    simp only [allocate, length_nil, Nat.zero_add, hraised, sum_singleton, sumShares,
      map_cons, map_nil, growth, Finset.range_zero, Finset.prod_empty, Nat.cast_zero]
    linarith
  | cons next rest ih =>
    set n : K := rest.length + 1 with hn
    have hnPos : 0 < n := by positivity
    have hraised : raisedLevel level minimum ((next :: rest).length + 1) = level :=
      raisedLevel_of_le (by simpa using hminimum)
    set taken := amount intensity level item with htaken
    set raised := raisedLevel level (minimum - taken) (next :: rest).length with hraisedNext
    set part := n - (1 - intensity) * growth intensity rest.length with hpart
    have hpart0 : 0 ≤ part := by
      have hgrowth := growth_le hintensity hle rest.length
      have hscaled :
          (1 - intensity) * growth intensity rest.length ≤ growth intensity rest.length :=
        mul_le_of_le_one_left (growth_nonneg hle _) (by linarith)
      linarith
    have hpartLe : part ≤ n := by
      have := mul_nonneg (sub_nonneg.mpr hle) (growth_nonneg hle rest.length)
      linarith
    have hrest : (allocate intensity level (minimum - taken) (next :: rest)).sum ≤
        (1 - intensity) * sumShares (next :: rest) + raised * part := by
      rw [← allocate_raisedLevel]
      refine ih ((hlevel.trans (le_raisedLevel _ _ (Nat.succ_pos _)))) (fun other hother ↦
        hshares other (mem_cons_of_mem item hother)) ?_
      simpa using le_raisedLevel_mul level (minimum - taken) (Nat.succ_pos rest.length)
    have hraisedLe : raised ≤ level ∨ raised ≤ level + (level - taken) / n := by
      rw [hraisedNext, raisedLevel, length_cons, Nat.cast_succ, ← hn]
      split_ifs
      · right
        have hover : minimum ≤ level * (n + 1) := by simpa [hn] using hminimum
        calc (minimum - taken) / n ≤ (level * (n + 1) - taken) / n :=
              div_le_div_of_nonneg_right (by linarith) hnPos.le
          _ = level + (level - taken) / n := by field_simp; ring
      · exact Or.inl le_rfl
    have hstep := amount_add_mul_raisedLevel_le hle hlevel
      (hshares item mem_cons_self) hnPos hpart0 hpartLe (amount_le _ _ item) hraisedLe
    have hgrowth : growth intensity (next :: rest).length =
        growth intensity rest.length * (1 + (1 - intensity) / n) := growth_succ rest.length
    have hidentity : intensity + part + (1 - intensity) * (part / n) =
        (next :: rest).length + 1 - (1 - intensity) * growth intensity (next :: rest).length := by
      rw [hgrowth, hpart, length_cons, Nat.cast_succ, ← hn]
      field_simp
      ring
    rw [allocate, hraised, sum_cons, sumShares_cons, ← hidentity]
    linarith

theorem allocate_one_eq_map_level (hcapacity : ∀ item ∈ items, level ≤ item.capacity)
    (hminimum : minimum ≤ level * items.length) :
    allocate 1 level minimum items = items.map fun _ ↦ level := by
  induction items generalizing minimum with
  | nil => rfl
  | cons item rest ih =>
    have hraised : raisedLevel level minimum (rest.length + 1) = level :=
      raisedLevel_of_le (by simpa using hminimum)
    have hitem : amount 1 level item = level := by
      rw [amount_one, min_eq_right (hcapacity item mem_cons_self)]
    rw [length_cons, Nat.cast_succ, mul_add, mul_one] at hminimum
    rw [allocate, hraised, hitem, map_cons, ih
      (fun other hother ↦ hcapacity other (mem_cons_of_mem item hother)) (by linarith)]

theorem exists_allocate_one_eq_map_min
    (hsorted : items.Pairwise fun item other ↦ item.capacity ≤ other.capacity)
    (hminimum : minimum ≤ level * items.length) :
    ∃ common, level ≤ common ∧
      allocate 1 level minimum items = items.map fun item ↦ min item.capacity common := by
  induction items generalizing level minimum with
  | nil => exact ⟨level, le_rfl, rfl⟩
  | cons item rest ih =>
    obtain ⟨hfirst, hrestSorted⟩ := pairwise_cons.mp hsorted
    rcases le_or_gt level item.capacity with hreached | hsmall
    · have hall : ∀ other ∈ item :: rest, level ≤ other.capacity := by
        intro other hother
        rcases mem_cons.mp hother with rfl | hother
        · exact hreached
        · exact hreached.trans (hfirst other hother)
      refine ⟨level, le_rfl, ?_⟩
      rw [allocate_one_eq_map_level hall hminimum]
      exact map_congr_left fun other hother ↦ (min_eq_right (hall other hother)).symm
    · have hraised : raisedLevel level minimum (rest.length + 1) = level :=
        raisedLevel_of_le (by simpa using hminimum)
      have hitem : amount 1 level item = item.capacity := by
        rw [amount_one, min_eq_left hsmall.le]
      rw [allocate, hraised, hitem, ← allocate_raisedLevel]
      rcases Nat.eq_zero_or_pos rest.length with hzero | hpos
      · rw [length_eq_zero_iff.mp hzero]
        exact ⟨level, le_rfl, by simp [allocate, min_eq_left hsmall.le]⟩
      · obtain ⟨common, hcommon, hrest⟩ := ih hrestSorted
          (le_raisedLevel_mul level (minimum - item.capacity) hpos)
        have hle : level ≤ common := (le_raisedLevel _ _ hpos).trans hcommon
        refine ⟨common, hle, ?_⟩
        rw [hrest, map_cons, min_eq_left (hsmall.le.trans hle)]

/-- An item that takes no more than the level raises it for the `n + 1` others, when the minimum is
the equal split at the level. -/
theorem raisedLevel_sub {taken : K} (htaken : taken ≤ level) (n : ℕ) :
    raisedLevel level (level * ((n + 1 : ℕ) + 1) - taken) (n + 1) =
      level + (level - taken) / (n + 1) := by
  have hleft : (level * ((n + 1 : ℕ) + 1) - taken) / (n + 1 : ℕ) =
      level + (level - taken) / (n + 1) := by
    rw [Nat.cast_succ]
    field_simp
    ring
  rw [raisedLevel, hleft]
  split_ifs with hraise
  · rfl
  · have hsame : taken = level := by
      linarith
    rw [hsame, sub_self, zero_div, add_zero]

/-- Assumes: the minimum is the equal split at a level above the small shares, and no capacity is in
the way of the level that is reached at the end. Then the allocation exceeds the minimum by what
the intensity leaves of the large share above that level. -/
theorem sum_allocate_replicate {small large : Share K} (k : ℕ)
    (hintensity : 0 ≤ intensity) (hle : intensity ≤ 1) (hlevel : small.share ≤ level)
    (hsmall : small.share + (level - small.share) * growth intensity k * intensity ≤ small.capacity)
    (hlarge : large.share + (small.share + (level - small.share) * growth intensity k -
      large.share) * intensity ≤ large.capacity) :
    (allocate intensity level (level * (k + 1)) (List.replicate k small ++ [large])).sum =
      level * (k + 1) + (1 - intensity) *
        (large.share - (small.share + (level - small.share) * growth intensity k)) := by
  induction k generalizing level with
  | zero =>
    have hraised : raisedLevel level (level * 1) 1 = level := raisedLevel_of_le (by simp)
    simp only [growth, Finset.range_zero, Finset.prod_empty, mul_one, Nat.cast_zero, zero_add,
      add_sub_cancel] at hlarge ⊢
    have hamount : amount intensity level large =
        large.share + (level - large.share) * intensity := min_eq_right hlarge
    rw [mul_one] at hraised
    simp only [replicate_zero, nil_append, allocate, length_nil, Nat.zero_add,
      hraised, hamount, sum_singleton]
    ring
  | succ k ih =>
    set taken := small.share + (level - small.share) * intensity with htaken
    set raised := level + (level - taken) / (k + 1) with hraised
    have hkPos : (0 : K) < k + 1 := by positivity
    have htakenLe : taken ≤ level := by
      have hpart := mul_le_of_le_one_right (sub_nonneg.mpr hlevel) hle
      linarith
    have hup : level ≤ raised :=
      le_add_of_nonneg_right (div_nonneg (sub_nonneg.mpr htakenLe) hkPos.le)
    have hgap : raised - small.share = (level - small.share) * (1 + (1 - intensity) / (k + 1)) := by
      rw [hraised, htaken]
      field_simp
      ring
    have hgrowth : (raised - small.share) * growth intensity k =
        (level - small.share) * growth intensity (k + 1) := by
      rw [hgap, growth_succ]
      ring
    have hfits : taken ≤ small.capacity := by
      have hgrown : (level - small.share) * intensity ≤
          (level - small.share) * growth intensity (k + 1) * intensity :=
        mul_le_mul_of_nonneg_right
          (le_mul_of_one_le_right (sub_nonneg.mpr hlevel) (one_le_growth hle _)) hintensity
      linarith
    -- the small item takes its amount at the level, and the level is raised for the others
    have hfirst : raisedLevel level (level * ((k + 1 : ℕ) + 1))
        ((List.replicate k small ++ [large]).length + 1) = level :=
      raisedLevel_of_le (by simp)
    have hamount : amount intensity level small = taken := min_eq_right hfits
    have hnext : raisedLevel level (level * ((k + 1 : ℕ) + 1) - taken)
        (List.replicate k small ++ [large]).length = raised := by
      rw [length_append, length_replicate, length_singleton]
      exact raisedLevel_sub htakenLe k
    have hleft : level * ((k + 1 : ℕ) + 1) - taken = raised * (k + 1) := by
      rw [hraised, Nat.cast_succ]
      field_simp
      ring
    have hrest := ih (hlevel.trans hup) (by rwa [hgrowth]) (by rwa [hgrowth])
    rw [hgrowth] at hrest
    rw [replicate_succ, cons_append, allocate, hfirst, hamount, sum_cons,
      ← allocate_raisedLevel, hnext, hleft, hrest]
    linarith

end Ordered

end Sentry.Library
