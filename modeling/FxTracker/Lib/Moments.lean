import Mathlib.Algebra.Order.BigOperators.Group.List
import Mathlib.Algebra.Order.Field.Basic
import Mathlib.Tactic.FieldSimp
import Mathlib.Tactic.Ring
import Mathlib.Tactic.Positivity

/-!
# Moments of a sample

The mean of a list of numbers, the squared deviations from it, and the variance with Bessel's
correction.

* `sqDev_eq` — the deviations from the sums
* `sqDev_append` — the deviations of two samples together
* `sqDev_concat` — one more number
-/

namespace FxTracker

variable {K : Type*} [Field K]

def sumSq (xs : List K) : K := (xs.map fun x => x * x).sum

def mean (xs : List K) : K := xs.sum / xs.length

/-- The squared deviations from the mean. -/
def sqDev (xs : List K) : K := (xs.map fun x => (x - mean xs) * (x - mean xs)).sum

def sampleVariance (xs : List K) : K := sqDev xs / (xs.length - 1)

@[simp] theorem sumSq_nil : sumSq ([] : List K) = 0 := rfl

@[simp] theorem sumSq_singleton (x : K) : sumSq [x] = x * x := by simp [sumSq]

@[simp] theorem sumSq_append (xs ys : List K) : sumSq (xs ++ ys) = sumSq xs + sumSq ys := by
  simp [sumSq]

@[simp] theorem sumSq_replicate_zero (n : ℕ) : sumSq (List.replicate n (0 : K)) = 0 := by
  simp [sumSq]

@[simp] theorem sqDev_nil : sqDev ([] : List K) = 0 := rfl

/-- The squared deviations from any number, from the sums. -/
theorem sum_sub_mul_sub (xs : List K) (a : K) :
    (xs.map fun x => (x - a) * (x - a)).sum = sumSq xs - 2 * a * xs.sum + xs.length * (a * a) := by
  induction xs with
  | nil => simp [sumSq]
  | cons x xs ih =>
    simp only [sumSq, List.map_cons, List.sum_cons, List.length_cons, Nat.cast_add, Nat.cast_one] at ih ⊢
    rw [ih]
    ring

/-! ## Permutations -/

theorem mean_perm {xs ys : List K} (h : xs.Perm ys) : mean xs = mean ys := by
  rw [mean, mean, h.sum_eq, h.length_eq]

theorem sampleVariance_perm {xs ys : List K} (h : xs.Perm ys) :
    sampleVariance xs = sampleVariance ys := by
  unfold sampleVariance sqDev
  rw [mean_perm h, h.length_eq, (h.map _).sum_eq]

/-! ## The other sign -/

theorem mean_neg (xs : List K) : mean (xs.map Neg.neg) = -mean xs := by
  rw [mean, mean, List.length_map, ← neg_div, List.sum_neg]

theorem sampleVariance_neg (xs : List K) : sampleVariance (xs.map Neg.neg) = sampleVariance xs := by
  unfold sampleVariance sqDev
  rw [mean_neg, List.length_map, List.map_map]
  congr 3
  funext x
  simp only [Function.comp_apply]
  ring

/-! ## Missing numbers -/

/-- A sample with 0 where a number is missing. -/
theorem perm_append_zeros {α : Type*} (f : α → Option K) (xs : List α) :
    (xs.map fun x => (f x).getD 0).Perm
      (xs.filterMap f ++ List.replicate (xs.countP fun x => (f x).isNone) 0) := by
  induction xs with
  | nil => exact .nil
  | cons x xs ih =>
    cases hx : f x with
    | some y =>
      rw [List.map_cons, List.filterMap_cons_some hx, List.countP_cons_of_neg (by simp [hx]), hx]
      exact ih.cons y
    | none =>
      rw [List.map_cons, List.filterMap_cons_none hx, List.countP_cons_of_pos (by simp [hx]), hx, List.replicate_succ]
      exact (ih.cons 0).trans List.perm_middle.symm

/-! ## The deviations from the sums -/

section CharZero

variable [CharZero K]

theorem length_ne_zero {xs : List K} (hne : xs ≠ []) : (xs.length : K) ≠ 0 :=
  Nat.cast_ne_zero.mpr fun h => hne (List.length_eq_zero_iff.mp h)

theorem length_mul_mean (xs : List K) : xs.length * mean xs = xs.sum := by
  by_cases hne : xs = []
  · simp [hne]
  · exact mul_div_cancel₀ _ (length_ne_zero hne)

theorem sqDev_eq (xs : List K) : sqDev xs = sumSq xs - xs.length * mean xs * mean xs := by
  rw [sqDev, sum_sub_mul_sub, ← length_mul_mean]
  ring

/-- The deviations of two samples together: each one's own, and those of their means. -/
theorem sqDev_append {xs ys : List K} (hne : xs ++ ys ≠ []) :
    sqDev (xs ++ ys) = sqDev xs + sqDev ys +
      (mean ys - mean xs) * (mean ys - mean xs) * xs.length * ys.length / (xs ++ ys).length := by
  have hn : ((xs.length : K) + ys.length) ≠ 0 := by
    rw [← Nat.cast_add, ← List.length_append]
    exact length_ne_zero hne
  have hmean : mean (xs ++ ys) = (xs.length * mean xs + ys.length * mean ys) / (xs.length + ys.length) := by
    rw [length_mul_mean, length_mul_mean, mean, List.sum_append, List.length_append, Nat.cast_add]
  rw [sqDev_eq, sqDev_eq, sqDev_eq, hmean, sumSq_append, List.length_append, Nat.cast_add]
  field_simp
  ring

theorem mean_append {xs ys : List K} (hne : xs ++ ys ≠ []) :
    mean (xs ++ ys) = mean xs + (mean ys - mean xs) * (ys.length / (xs ++ ys).length) := by
  have hn : ((xs.length : K) + ys.length) ≠ 0 := by
    rw [← Nat.cast_add, ← List.length_append]
    exact length_ne_zero hne
  have hsum : (xs ++ ys).sum = xs.length * mean xs + ys.length * mean ys := by
    rw [length_mul_mean, length_mul_mean, List.sum_append]
  rw [mean, hsum, List.length_append, Nat.cast_add]
  field_simp
  ring

/-- One more number moves the mean by its part of the difference. -/
theorem mean_concat (xs : List K) (x : K) :
    mean (xs ++ [x]) = mean xs + (x - mean xs) / ((xs.length + 1 : ℕ) : K) := by
  rw [mean_append (by simp)]
  simp [mean, div_eq_mul_inv]

theorem sqDev_concat (xs : List K) (x : K) :
    sqDev (xs ++ [x]) = sqDev xs + (x - mean xs) * (x - mean (xs ++ [x])) := by
  have hn : ((xs.length : K) + 1) ≠ 0 := Nat.cast_add_one_ne_zero _
  rw [mean_concat, sqDev_append (by simp)]
  simp only [mean, sqDev, List.length_append, List.length_singleton, List.map_cons, List.map_nil, List.sum_cons,
    List.sum_nil, Nat.cast_add, Nat.cast_one]
  field_simp
  ring

/-- The variance from the sums. -/
theorem sampleVariance_eq {xs : List K} (hne : xs ≠ []) :
    sampleVariance xs = (xs.length * sumSq xs - xs.sum * xs.sum) / (xs.length * (xs.length - 1)) := by
  have hn : (xs.length : K) ≠ 0 := length_ne_zero hne
  rw [sampleVariance, sqDev_eq, mean, ← div_div]
  congr 1
  field_simp

/-- Zeros in a sample that has not got them: the variance is right only where the squares and the
square of the sum happen to balance. -/
theorem sampleVariance_append_zeros {xs : List K} {k : ℕ} (h : 2 ≤ xs.length) :
    sampleVariance (xs ++ List.replicate k 0) = sampleVariance xs ↔
      k = 0 ∨ (xs.length + k) * xs.length * sumSq xs = (2 * xs.length + k - 1) * (xs.sum * xs.sum) := by
  have hne : xs ≠ [] := fun hnil => by simp [hnil] at h
  have hm : (xs.length : K) ≠ 0 := length_ne_zero hne
  have hm1 : (xs.length : K) - 1 ≠ 0 := sub_ne_zero.mpr (Nat.cast_ne_one.mpr (by omega))
  have hn : (xs.length + k : K) ≠ 0 := by exact_mod_cast (by omega : xs.length + k ≠ 0)
  have hn1 : (xs.length + k : K) - 1 ≠ 0 := sub_ne_zero.mpr (by exact_mod_cast (by omega : xs.length + k ≠ 1))
  rw [sampleVariance_eq (by simp [hne]), sampleVariance_eq hne]
  simp only [List.length_append, List.length_replicate, List.sum_append, List.sum_replicate, nsmul_zero, add_zero,
    sumSq_append, sumSq_replicate_zero, Nat.cast_add]
  rw [div_eq_div_iff (mul_ne_zero hn hn1) (mul_ne_zero hm hm1), ← sub_eq_zero]
  generalize (xs.length : K) = m
  generalize sumSq xs = q
  generalize xs.sum = s
  have hfactor : ((m + k) * q - s * s) * (m * (m - 1)) - (m * q - s * s) * ((m + k) * (m + k - 1)) =
      (k : K) * ((2 * m + k - 1) * (s * s) - (m + k) * m * q) := by ring
  rw [hfactor, mul_eq_zero, Nat.cast_eq_zero, sub_eq_zero]
  exact or_congr_right eq_comm

end CharZero

theorem sqDev_nonneg [LinearOrder K] [IsStrictOrderedRing K] (xs : List K) : 0 ≤ sqDev xs :=
  List.sum_nonneg fun _ hy => by
    obtain ⟨x, -, rfl⟩ := List.mem_map.mp hy
    exact mul_self_nonneg _

theorem sampleVariance_nonneg [LinearOrder K] [IsStrictOrderedRing K] {xs : List K}
    (h : 1 ≤ xs.length) : 0 ≤ sampleVariance xs := by
  have hn : (1 : K) ≤ xs.length := by exact_mod_cast h
  exact div_nonneg (sqDev_nonneg xs) (sub_nonneg.mpr hn)

end FxTracker
