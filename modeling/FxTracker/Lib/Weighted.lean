import Mathlib.Algebra.BigOperators.Ring.Finset
import Mathlib.Algebra.Order.BigOperators.Ring.Finset
import Mathlib.Algebra.Order.Field.Basic
import Mathlib.Data.List.GetD
import Mathlib.Tactic.Ring
import Mathlib.Tactic.Linarith
import Mathlib.Tactic.Positivity

/-!
# Exponential weights

Numbers `x 0, x 1, …` weighted so that each later one scales the earlier weights by `lam`; the first one
starts with the whole weight.

* `expWeight_succ`, `expWeight_last` — the weights after one more number
* `ewMean_concat`, `ewVar_concat` — mean and variance after one more number, from those before it
* `sum_sq_expWeight` — the sum of the squared weights
-/

namespace FxTracker

open Finset

variable {K : Type*} [Field K]

/-- The weight of `x i` among `n` numbers. -/
def expWeight (lam : K) (n i : ℕ) : K := if i = 0 then lam ^ (n - 1) else (1 - lam) * lam ^ (n - 1 - i)

def weightedMean (n : ℕ) (w x : ℕ → K) : K := ∑ i ∈ range n, w i * x i

/-- The weighted squares of the deviations from the weighted mean. -/
def weightedVar (n : ℕ) (w x : ℕ → K) : K := ∑ i ∈ range n, w i * (x i - weightedMean n w x) ^ 2

variable {lam : K} {n i : ℕ} {w w' x : ℕ → K}

theorem expWeight_last (hn : 0 < n) : expWeight lam (n + 1) n = 1 - lam := by
  rw [expWeight, if_neg hn.ne', Nat.add_sub_cancel, Nat.sub_self, pow_zero, mul_one]

theorem expWeight_succ (hi : i < n) : expWeight lam (n + 1) i = lam * expWeight lam n i := by
  unfold expWeight
  split
  · rw [← pow_succ', show n - 1 + 1 = n + 1 - 1 by omega]
  · rw [mul_left_comm, ← pow_succ', show n - 1 - i + 1 = n + 1 - 1 - i by omega]

theorem sum_expWeight (hn : 0 < n) : ∑ i ∈ range n, expWeight lam n i = 1 := by
  induction n, hn using Nat.le_induction with
  | base => simp [expWeight]
  | succ n hn ih =>
    rw [sum_range_succ, expWeight_last hn, sum_congr rfl fun i hi => expWeight_succ (mem_range.mp hi), ← mul_sum, ih]
    ring

theorem expWeight_pos [LinearOrder K] [IsStrictOrderedRing K] (h0 : 0 < lam) (h1 : lam < 1) (n i : ℕ) :
    0 < expWeight lam n i := by
  have hpos := sub_pos.mpr h1
  unfold expWeight
  split <;> positivity

/-! ## One more number -/

/-- The deviations from any number. -/
theorem sum_mul_sub_sq (hw : ∑ i ∈ range n, w i = 1) (a : K) :
    ∑ i ∈ range n, w i * (x i - a) ^ 2 = weightedVar n w x + (weightedMean n w x - a) ^ 2 := by
  have hexpand : ∀ a : K, ∑ i ∈ range n, w i * (x i - a) ^ 2 =
      ∑ i ∈ range n, w i * x i ^ 2 - 2 * a * weightedMean n w x + a ^ 2 := by
    intro a
    have hterm : ∀ i, w i * (x i - a) ^ 2 = w i * x i ^ 2 - 2 * a * (w i * x i) + a ^ 2 * w i := fun i => by ring
    simp only [hterm, sum_add_distrib, sum_sub_distrib, ← mul_sum, hw, weightedMean, mul_one]
  rw [weightedVar, hexpand, hexpand]
  ring

variable (hlast : w' n = 1 - lam) (hscaled : ∀ i < n, w' i = lam * w i)
include hlast hscaled

theorem weightedMean_succ : weightedMean (n + 1) w' x = lam * weightedMean n w x + (1 - lam) * x n := by
  unfold weightedMean
  rw [sum_range_succ, hlast, mul_sum]
  congr 1
  refine sum_congr rfl fun i hi => ?_
  rw [hscaled i (mem_range.mp hi)]
  ring

theorem weightedVar_succ (hw : ∑ i ∈ range n, w i = 1) :
    weightedVar (n + 1) w' x = lam * (weightedVar n w x + (1 - lam) * (x n - weightedMean n w x) ^ 2) := by
  have hold : ∀ a : K, ∑ i ∈ range n, w' i * (x i - a) ^ 2 = lam * ∑ i ∈ range n, w i * (x i - a) ^ 2 := by
    intro a
    rw [mul_sum]
    refine sum_congr rfl fun i hi => ?_
    rw [hscaled i (mem_range.mp hi)]
    ring
  rw [weightedVar, sum_range_succ, hlast, hold, sum_mul_sub_sq hw, weightedMean_succ hlast hscaled]
  ring

omit hlast hscaled

/-! ## The weights themselves -/

theorem sum_sq_expWeight_succ (hn : 0 < n) :
    ∑ i ∈ range (n + 1), expWeight lam (n + 1) i ^ 2
      = lam ^ 2 * ∑ i ∈ range n, expWeight lam n i ^ 2 + (1 - lam) ^ 2 := by
  rw [sum_range_succ, expWeight_last hn, mul_sum]
  congr 1
  refine sum_congr rfl fun i hi => ?_
  rw [expWeight_succ (mem_range.mp hi), mul_pow]

/-- The sum of the squared weights, in closed form. -/
theorem sum_sq_expWeight (hn : 0 < n) :
    (1 + lam) * ∑ i ∈ range n, expWeight lam n i ^ 2 = 1 - lam + 2 * lam ^ (2 * n - 1) := by
  induction n, hn using Nat.le_induction with
  | base => simp [expWeight]; ring
  | succ n hn ih =>
    rw [sum_sq_expWeight_succ hn, mul_add, mul_left_comm, ih, show 2 * (n + 1) - 1 = 2 * n - 1 + 2 by omega, pow_add]
    ring

/-- Numbers that deviate from their mean have a positive variance. -/
theorem weightedVar_eq_zero_iff [LinearOrder K] [IsStrictOrderedRing K] (hpos : ∀ i, 0 < w i) :
    weightedVar n w x = 0 ↔ ∀ i < n, x i = weightedMean n w x := by
  rw [weightedVar, sum_eq_zero_iff_of_nonneg fun i _ => mul_nonneg (hpos i).le (sq_nonneg _)]
  refine forall_congr' fun i => ?_
  rw [mem_range, mul_eq_zero, or_iff_right (hpos i).ne', sq_eq_zero_iff, sub_eq_zero]

theorem weightedVar_nonneg [LinearOrder K] [IsStrictOrderedRing K] (hpos : ∀ i, 0 < w i) :
    0 ≤ weightedVar n w x :=
  sum_nonneg fun i _ => mul_nonneg (hpos i).le (sq_nonneg _)

/-! ## Lists -/

/-- The exponentially weighted mean of a list. -/
def ewMean (lam : K) (xs : List K) : K := weightedMean xs.length (expWeight lam xs.length) fun i => xs.getD i 0

def ewVar (lam : K) (xs : List K) : K := weightedVar xs.length (expWeight lam xs.length) fun i => xs.getD i 0

variable {xs : List K}

theorem weightedMean_congr {y : ℕ → K} (h : ∀ i < n, x i = y i) : weightedMean n w x = weightedMean n w y :=
  sum_congr rfl fun i hi => by rw [h i (mem_range.mp hi)]

theorem weightedVar_congr {y : ℕ → K} (h : ∀ i < n, x i = y i) : weightedVar n w x = weightedVar n w y :=
  sum_congr rfl fun i hi => by rw [h i (mem_range.mp hi), weightedMean_congr h]

@[simp] theorem ewMean_nil (lam : K) : ewMean lam [] = 0 := by simp [ewMean, weightedMean]

@[simp] theorem ewVar_nil (lam : K) : ewVar lam [] = 0 := by simp [ewVar, weightedVar]

@[simp] theorem ewMean_singleton (lam y : K) : ewMean lam [y] = y := by simp [ewMean, weightedMean, expWeight]

@[simp] theorem ewVar_singleton (lam y : K) : ewVar lam [y] = 0 := by
  simp [ewVar, weightedVar, weightedMean, expWeight]

theorem getD_concat_of_lt {y : K} (h : i < xs.length) : (xs ++ [y]).getD i 0 = xs.getD i 0 :=
  List.getD_append _ _ _ _ h

theorem getD_concat_length (xs : List K) (y : K) : (xs ++ [y]).getD xs.length 0 = y := by
  rw [List.getD_eq_getElem?_getD, List.getElem?_concat_length, Option.getD_some]

theorem ewMean_concat (hxs : xs ≠ []) (y : K) : ewMean lam (xs ++ [y]) = lam * ewMean lam xs + (1 - lam) * y := by
  have hpos : 0 < xs.length := List.length_pos_iff.mpr hxs
  unfold ewMean
  rw [List.length_append, List.length_singleton, weightedMean_succ (expWeight_last hpos) fun i hi => expWeight_succ hi,
    getD_concat_length, weightedMean_congr fun i hi => getD_concat_of_lt hi]

theorem ewVar_concat (hxs : xs ≠ []) (y : K) :
    ewVar lam (xs ++ [y]) = lam * (ewVar lam xs + (1 - lam) * (y - ewMean lam xs) ^ 2) := by
  have hpos : 0 < xs.length := List.length_pos_iff.mpr hxs
  have hold : ∀ i < xs.length, (xs ++ [y]).getD i 0 = xs.getD i 0 := fun i hi => getD_concat_of_lt hi
  unfold ewVar ewMean
  rw [List.length_append, List.length_singleton,
    weightedVar_succ (expWeight_last hpos) (fun i hi => expWeight_succ hi) (sum_expWeight hpos), getD_concat_length,
    weightedMean_congr hold, weightedVar_congr hold]

section Order

variable [LinearOrder K] [IsStrictOrderedRing K] (h0 : 0 < lam) (h1 : lam < 1)
include h0 h1

theorem ewVar_nonneg (xs : List K) : 0 ≤ ewVar lam xs := weightedVar_nonneg (expWeight_pos h0 h1 _)

/-- A spread is what equal numbers have not got. -/
theorem ewVar_eq_zero_iff (xs : List K) : ewVar lam xs = 0 ↔ ∀ a ∈ xs, ∀ a' ∈ xs, a = a' := by
  have hget : ∀ i, ∀ h : i < xs.length, xs.getD i 0 = xs[i] := fun i h => List.getD_eq_getElem _ _ h
  rw [ewVar, weightedVar_eq_zero_iff (expWeight_pos h0 h1 xs.length)]
  constructor
  · intro hmean a ha a' ha'
    obtain ⟨i, hi, rfl⟩ := List.getElem_of_mem ha
    obtain ⟨j, hj, rfl⟩ := List.getElem_of_mem ha'
    rw [← hget i hi, ← hget j hj, hmean i hi, hmean j hj]
  · intro hall i hi
    -- the weights sum to 1, and each number is this one
    have hterms : ∀ j ∈ range xs.length, expWeight lam xs.length j * xs.getD j 0 =
        expWeight lam xs.length j * xs.getD i 0 := fun j hj => by
      rw [hget j (mem_range.mp hj), hget i hi, hall _ (List.getElem_mem _) _ (List.getElem_mem hi)]
    rw [weightedMean, sum_congr rfl hterms, ← sum_mul, sum_expWeight (Nat.zero_lt_of_lt hi), one_mul]

end Order

end FxTracker
