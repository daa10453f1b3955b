import FxTracker.Core.FloatMath

/-!
# The reference distribution

`fx_core/alerts/baseline.py`: location and scale of `ln(sigma)` as exponentially weighted moments,
with a freeze switch. `none` stands for an exception.
-/

namespace FxTracker.Alerts

/-- Persisted shape. -/
structure BaselineSnapshot (K : Type) where
  lam : K
  mean : K
  var : K
  n : Int
  debias : K
  frozen : Bool
  deriving DecidableEq

/-- Streaming location and scale of `ln(sigma)`. -/
structure VolatilityBaseline (K : Type) where
  lam : K
  minSamples : Int
  mean : K
  var : K
  n : Int
  frozen : Bool
  debias : K
  deriving DecidableEq

namespace VolatilityBaseline

variable {K : Type} [FloatMath K]

/-- `VolatilityBaseline()`. -/
def cold : VolatilityBaseline K where
  lam := (9942 : ℕ) / (10000 : ℕ)
  minSamples := 30
  mean := 0
  var := 0
  n := 0
  frozen := false
  debias := 0

def freeze (b : VolatilityBaseline K) : VolatilityBaseline K := { b with frozen := true }

def thaw (b : VolatilityBaseline K) : VolatilityBaseline K := { b with frozen := false }

def snapshot (b : VolatilityBaseline K) : BaselineSnapshot K where
  lam := b.lam
  mean := b.mean
  var := b.var
  n := b.n
  debias := b.debias
  frozen := b.frozen

/-- What the z-score is taken against: `mean`, `var`, `n` and `debias`. -/
def moments (b : VolatilityBaseline K) : K × K × Int × K := (b.mean, b.var, b.n, b.debias)

omit [FloatMath K] in
@[simp] theorem moments_freeze (b : VolatilityBaseline K) : b.freeze.moments = b.moments := rfl

omit [FloatMath K] in
@[simp] theorem moments_thaw (b : VolatilityBaseline K) : b.thaw.moments = b.moments := rfl

variable [LT K] [DecidableLT K]

/-- `__post_init__` accepts this decay. -/
def lamOk (lam : K) : Bool := 0 < lam ∧ lam < (1 : ℕ)

/-- `restore`; `none` where `__post_init__` refuses the decay. Its `min_samples` is that of a baseline
that was accepted before. -/
def restore (state : BaselineSnapshot K) (minSamples : Int) : Option (VolatilityBaseline K) :=
  if lamOk state.lam then
    some
      { lam := state.lam
        minSamples
        mean := state.mean
        var := state.var
        n := state.n
        frozen := state.frozen
        debias := state.debias }
  else none

def ready (b : VolatilityBaseline K) : Bool := b.minSamples ≤ b.n ∧ 0 < b.var

variable [LE K] [DecidableLE K]

/-- `stdev`, corrected for the bias of the start. -/
def stdev (b : VolatilityBaseline K) : K :=
  if b.debias ≤ 0 then FloatMath.sqrt (pyMax b.var 0)
  else FloatMath.sqrt (pyMax (b.var / b.debias) 0)

/-- `zscore`; the inner `none` is "cannot say". -/
def zscore (b : VolatilityBaseline K) (sigma : K) : Option (Option K) :=
  if b.ready = false ∨ measurable sigma = false then some none
  else if b.stdev ≤ 0 then some none
  else (FloatOps.log sigma).map fun x => some ((x - b.mean) / b.stdev)

omit [LT K] [DecidableLT K] in
/-- `observe`: admit one sigma, unless frozen. -/
def observe (b : VolatilityBaseline K) (sigma : K) : Option (VolatilityBaseline K) :=
  if b.frozen ∨ measurable sigma = false then some b
  else do
    let x ← FloatOps.log sigma
    let (mean, var) :=
      if b.n = 0 then (x, 0)
      else
        let diff := x - b.mean
        let incr := ((1 : ℕ) - b.lam) * diff
        (b.mean + incr, b.lam * (b.var + diff * incr))
    return { b with
      mean
      var
      n := b.n + 1
      debias := b.lam * b.debias + ((1 : ℕ) - b.lam) }

end VolatilityBaseline

end FxTracker.Alerts
