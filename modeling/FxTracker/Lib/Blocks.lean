import Mathlib.Algebra.BigOperators.Group.Finset.Basic
import Mathlib.Algebra.Order.BigOperators.Group.Finset
import Mathlib.Order.Interval.Finset.Nat

/-!
# Counting by blocks

The first `n` positions come in blocks of `w`, and whether one counts depends on its block alone.

* `card_filter_div` — the count is the sum over the blocks, the last of which may be cut short
-/

namespace FxTracker

theorem card_filter_div {w k n : ℕ} (hw : 0 < w) (hn : n ≤ w * k) (p : ℕ → Bool) :
    ((Finset.range n).filter fun i => p (i / w) = true).card
      = ∑ b ∈ Finset.range k, if p b = true then min (w * b + w) n - w * b else 0 := by
  have hmaps : ∀ i ∈ (Finset.range n).filter (fun i => p (i / w) = true), i / w ∈ Finset.range k := by
    intro i hi
    have hlt : i < n := Finset.mem_range.mp (Finset.mem_filter.mp hi).1
    exact Finset.mem_range.mpr (Nat.div_lt_of_lt_mul (hlt.trans_le hn))
  rw [Finset.card_eq_sum_card_fiberwise hmaps]
  refine Finset.sum_congr rfl fun b _ => ?_
  have hblock : ∀ i, i / w = b ↔ w * b ≤ i ∧ i < w * b + w := by
    intro i
    rw [Nat.div_eq_iff hw, Nat.mul_comm b w]
    omega
  by_cases hp : p b = true
  · have hfiber : ((Finset.range n).filter fun i => p (i / w) = true).filter (fun i => i / w = b)
        = Finset.Ico (w * b) (min (w * b + w) n) := by
      ext i
      simp only [Finset.mem_filter, Finset.mem_range, Finset.mem_Ico, lt_min_iff]
      constructor
      · rintro ⟨⟨hi, -⟩, hb⟩
        exact ⟨((hblock i).mp hb).1, ((hblock i).mp hb).2, hi⟩
      · rintro ⟨hlow, hhigh, hi⟩
        have hb := (hblock i).mpr ⟨hlow, hhigh⟩
        exact ⟨⟨hi, hb ▸ hp⟩, hb⟩
    rw [if_pos hp, hfiber, Nat.card_Ico]
  · have hfiber : ((Finset.range n).filter fun i => p (i / w) = true).filter (fun i => i / w = b) = ∅ := by
      refine Finset.filter_eq_empty_iff.mpr fun i hi hb => hp ?_
      rw [← hb]
      exact (Finset.mem_filter.mp hi).2
    rw [if_neg hp, hfiber, Finset.card_empty]

end FxTracker
