import FxTracker.Core.Buckets
import Mathlib.Algebra.Ring.Rat
import Mathlib.Algebra.Order.Ring.Unbundled.Rat

/-!
# The float functions of the estimators

What `fx_core/alerts` takes from `math` and from the built-ins beyond the operators of `FloatOps`.
No law of it is assumed.
-/

namespace FxTracker

class FloatMath (K : Type) extends FloatOps K where
  /-- `math.exp`; `none` is `OverflowError`. -/
  exp : K → Option K
  /-- `math.sqrt` of a number that is not negative. -/
  sqrt : K → K
  /-- `math.isfinite`. -/
  isFinite : K → Bool
  /-- The built-in `sum`, which compensates for rounding. -/
  sum : List K → K

/-- Rationals in place of floats, for runs on fixed inputs. Of `log`, `exp` and `sqrt` only the values
at 1, at 0 and at 1 are rational. -/
instance : FloatMath ℚ where
  log x := if x = 1 then some 0 else none
  exp x := if x = 0 then some 1 else none
  sqrt x := if x = 1 then 1 else 0
  isFinite _ := true
  sum xs := xs.foldl (· + ·) 0

variable {K : Type} [FloatMath K]

/-- `_MIN_SIGMA`, the double nearest to 1e-15. -/
def minSigma : K := (1 : ℕ) / (10 ^ 15 : ℕ)

/-- A sigma the estimators take: above `_MIN_SIGMA`, and finite. -/
def measurable [LE K] [DecidableLE K] (sigma : K) : Bool :=
  ¬ sigma ≤ minSigma ∧ FloatMath.isFinite sigma

/-- `Bar.realized_vol`. -/
def Bar.realizedVol [LT K] [DecidableLT K] (bar : Bar K) : K := FloatMath.sqrt (pyMax bar.sumRetSq 0)

end FxTracker
