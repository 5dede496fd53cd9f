import Mathlib.Algebra.Order.Chebyshev
import Mathlib.Tactic

/-! The fairness index: how evenly finitely many values share their sum. -/
namespace Fairness

variable {ι K : Type*} [Fintype ι] [Field K]

/-- The square of the mean by the mean of the squares. -/
def fairnessIndex (x : ι → K) : K := (∑ i, x i) ^ 2 / (Fintype.card ι * ∑ i, x i ^ 2)

/-- The squared distances of the values from their mean, scaled by the number of values. -/
theorem sum_deviations (x : ι → K) :
    ∑ i, (Fintype.card ι * x i - ∑ k, x k) ^ 2 =
      Fintype.card ι * (Fintype.card ι * ∑ i, x i ^ 2 - (∑ i, x i) ^ 2) := by
  have expand : ∀ i, (Fintype.card ι * x i - ∑ k, x k) ^ 2 =
      (Fintype.card ι : K) ^ 2 * x i ^ 2 - 2 * Fintype.card ι * (∑ k, x k) * x i + (∑ k, x k) ^ 2 := by
    intro i
    ring
  simp only [expand, Finset.sum_add_distrib, Finset.sum_sub_distrib, ← Finset.mul_sum, Finset.sum_const,
    Finset.card_univ, nsmul_eq_mul]
  ring

variable [LinearOrder K] [IsStrictOrderedRing K]

theorem sum_sq_pos {x : ι → K} (some_ : ∃ i, x i ≠ 0) : 0 < ∑ i, x i ^ 2 := by
  obtain ⟨i, nonzero⟩ := some_
  exact Finset.sum_pos' (fun k _ => sq_nonneg (x k)) ⟨i, Finset.mem_univ i, sq_pos_of_ne_zero nonzero⟩

theorem card_pos_of_some {x : ι → K} (some_ : ∃ i, x i ≠ 0) : (0 : K) < Fintype.card ι := by
  obtain ⟨i, _⟩ := some_
  exact Nat.cast_pos.mpr (Fintype.card_pos_iff.mpr ⟨i⟩)

theorem fairnessIndex_le_one (x : ι → K) : fairnessIndex x ≤ 1 :=
  div_le_one_of_le₀ sq_sum_le_card_mul_sum_sq (by positivity)

/-- The index reaches 1 only where nothing is left of the distances from the mean. -/
theorem fairnessIndex_eq_one_iff {x : ι → K} (some_ : ∃ i, x i ≠ 0) : fairnessIndex x = 1 ↔ ∀ i k, x i = x k := by
  have card := card_pos_of_some some_
  have squares := sum_sq_pos some_
  have even : fairnessIndex x = 1 ↔ ∑ i, (Fintype.card ι * x i - ∑ k, x k) ^ 2 = 0 := by
    rw [fairnessIndex, div_eq_one_iff_eq (mul_pos card squares).ne', sum_deviations, mul_eq_zero, or_iff_right card.ne',
      sub_eq_zero, eq_comm]
  rw [even, Finset.sum_eq_zero_iff_of_nonneg fun i _ => sq_nonneg _]
  constructor
  · intro centered i k
    have mean : ∀ i, Fintype.card ι * x i = ∑ k, x k :=
      fun i => sub_eq_zero.mp (pow_eq_zero_iff two_ne_zero |>.mp (centered i (Finset.mem_univ i)))
    exact mul_left_cancel₀ card.ne' ((mean i).trans (mean k).symm)
  · intro same i _
    have sum : ∑ k, x k = Fintype.card ι * x i := by
      rw [Finset.sum_congr rfl fun k _ => same k i, Finset.sum_const, Finset.card_univ, nsmul_eq_mul]
    rw [sum, sub_self, zero_pow two_ne_zero]

/-- One value alone has the least index. -/
theorem one_div_card_le_fairnessIndex {x : ι → K} (nonneg : ∀ i, 0 ≤ x i) (some_ : ∃ i, x i ≠ 0) :
    1 / (Fintype.card ι : K) ≤ fairnessIndex x := by
  have card := card_pos_of_some some_
  have squares := sum_sq_pos some_
  rw [fairnessIndex, div_le_div_iff₀ card (mul_pos card squares), one_mul, mul_comm]
  exact mul_le_mul_of_nonneg_right (Finset.sum_sq_le_sq_sum_of_nonneg fun i _ => nonneg i) card.le

theorem fairnessIndex_pos {x : ι → K} (nonneg : ∀ i, 0 ≤ x i) (some_ : ∃ i, x i ≠ 0) : 0 < fairnessIndex x :=
  (one_div_pos.mpr (card_pos_of_some some_)).trans_le (one_div_card_le_fairnessIndex nonneg some_)

end Fairness
