import Mathlib.Algebra.BigOperators.Fin
import Mathlib.Algebra.BigOperators.Ring.Finset
import Mathlib.Data.Fintype.BigOperators
import Mathlib.Data.Real.Basic
import Mathlib.Logic.Equiv.Fin.Basic
import Mathlib.Tactic.Ring

/-!
# Independent draws

A distribution with finitely many outcomes, and the expected value over `n` independent draws from it.

* `expect_succ` — the last draw apart
* `expectation_sub_sq` — the second moment about any number
-/

namespace FxTracker

/-- The probabilities of finitely many outcomes. -/
structure FiniteLaw (ι : Type*) [Fintype ι] where
  prob : ι → ℝ
  nonneg : ∀ i, 0 ≤ prob i
  sum_eq_one : ∑ i, prob i = 1

namespace FiniteLaw

variable {ι : Type*} [Fintype ι] (law : FiniteLaw ι)

def expectation (x : ι → ℝ) : ℝ := ∑ i, law.prob i * x i

def variance (x : ι → ℝ) : ℝ := law.expectation fun i => (x i - law.expectation x) ^ 2

/-- The expected value of a function of `n` independent draws. -/
def expect (n : ℕ) (f : (Fin n → ι) → ℝ) : ℝ := ∑ draws, (∏ j, law.prob (draws j)) * f draws

@[simp] theorem expectation_const (c : ℝ) : (law.expectation fun _ => c) = c := by
  rw [expectation, ← Finset.sum_mul, law.sum_eq_one, one_mul]

theorem expectation_add (x y : ι → ℝ) :
    (law.expectation fun i => x i + y i) = law.expectation x + law.expectation y := by
  simp [expectation, mul_add, Finset.sum_add_distrib]

theorem expectation_mul (c : ℝ) (x : ι → ℝ) : (law.expectation fun i => c * x i) = c * law.expectation x := by
  simp only [expectation, Finset.mul_sum, mul_left_comm c]

/-- The second moment about any number. -/
theorem expectation_sub_sq (x : ι → ℝ) (a : ℝ) :
    (law.expectation fun i => (x i - a) ^ 2) = law.variance x + (law.expectation x - a) ^ 2 := by
  have hexpand : ∀ a : ℝ, (law.expectation fun i => (x i - a) ^ 2) =
      (law.expectation fun i => x i ^ 2) + (-(2 * a) * law.expectation x + a ^ 2) := by
    intro a
    have hterm : (fun i => (x i - a) ^ 2) = fun i => x i ^ 2 + (-(2 * a) * x i + a ^ 2) := funext fun i => by ring
    rw [hterm, expectation_add, expectation_add, expectation_mul, expectation_const]
  rw [variance, hexpand, hexpand]
  ring

@[simp] theorem expect_zero (f : (Fin 0 → ι) → ℝ) : law.expect 0 f = f Fin.elim0 := by
  simp [expect, Subsingleton.elim (default : Fin 0 → ι) Fin.elim0]

theorem expect_succ (n : ℕ) (f : (Fin (n + 1) → ι) → ℝ) :
    law.expect (n + 1) f = law.expect n fun draws => law.expectation fun i => f (Fin.snoc draws i) := by
  unfold expect expectation
  rw [← (Fin.snocEquiv fun _ => ι).sum_comp, Fintype.sum_prod_type_right]
  refine Finset.sum_congr rfl fun draws _ => ?_
  rw [Finset.mul_sum]
  refine Finset.sum_congr rfl fun i _ => ?_
  rw [Fin.prod_univ_castSucc]
  simp [Fin.snocEquiv, mul_assoc]

theorem expect_congr {n : ℕ} {f g : (Fin n → ι) → ℝ} (h : ∀ draws, f draws = g draws) :
    law.expect n f = law.expect n g := by
  rw [funext h]

theorem expect_add {n : ℕ} (f g : (Fin n → ι) → ℝ) :
    (law.expect n fun draws => f draws + g draws) = law.expect n f + law.expect n g := by
  simp [expect, mul_add, Finset.sum_add_distrib]

theorem expect_mul {n : ℕ} (c : ℝ) (f : (Fin n → ι) → ℝ) :
    (law.expect n fun draws => c * f draws) = c * law.expect n f := by
  simp only [expect, Finset.mul_sum, mul_left_comm c]

theorem expect_const (n : ℕ) (c : ℝ) : (law.expect n fun _ => c) = c := by
  induction n with
  | zero => simp
  | succ n ih => rw [expect_succ, expect_congr law fun _ => expectation_const law c, ih]

end FiniteLaw

end FxTracker
