import FxTracker.Core.FloatMath
import Mathlib.Analysis.SpecialFunctions.Log.Basic

/-!
# Exact arithmetic

The real numbers in place of floats: what the estimators compute, less rounding and overflow.
-/

namespace FxTracker

/-- `math.log` raises at 0 and below. -/
noncomputable instance : FloatMath ℝ where
  log x := if 0 < x then some (Real.log x) else none
  exp x := some (Real.exp x)
  sqrt := Real.sqrt
  isFinite _ := true
  sum := List.sum

/-- That there is a numeral 2, as the definitions that write one take it. -/
theorem atLeastTwo_two : Nat.AtLeastTwo 2 := ⟨Nat.le_refl 2⟩

theorem log_eq {x : ℝ} (h : 0 < x) : FloatOps.log x = some (Real.log x) := if_pos h

theorem minSigma_pos : (0 : ℝ) < minSigma := by
  unfold minSigma
  positivity

@[simp] theorem measurable_iff (sigma : ℝ) : measurable sigma = true ↔ minSigma < sigma := by
  simp [measurable, FloatMath.isFinite]

theorem pos_of_measurable {sigma : ℝ} (h : measurable sigma = true) : 0 < sigma :=
  minSigma_pos.trans ((measurable_iff sigma).mp h)

end FxTracker
