import FxTracker.Core.FloatMath

/-!
# The time-of-day profile

`fx_core/alerts/seasonality.py`: multiplicative hour-of-day factors, one running mean of `ln(sigma)`
for each hour, UTC. `none` stands for an exception.
-/

namespace FxTracker.Alerts

/-- Persisted shape. -/
structure DiurnalSnapshot (K : Type) where
  lam : K
  hourMean : List K
  hourN : List Int
  deriving DecidableEq

structure DiurnalProfile (K : Type) where
  lam : K
  minSamples : Int
  minReadyHours : Int
  clamp : K × K
  hourMean : Fin 24 → K
  hourN : Fin 24 → Int

/-- The hour of an instant in microseconds, as `ts.hour` of a `datetime` in UTC. -/
def hourOf (ts : Int) : Fin 24 := Fin.ofNat 24 (ts / 3600000000 % 24).toNat

namespace DiurnalProfile

variable {K : Type} [FloatMath K]

/-- The default `clamp`. -/
def defaultClamp : K × K := ((1 : ℕ) / (4 : ℕ), (4 : ℕ))

/-- `DiurnalProfile()`. -/
def cold : DiurnalProfile K where
  lam := (99885 : ℕ) / (100000 : ℕ)
  minSamples := 120
  minReadyHours := 12
  clamp := defaultClamp
  hourMean := fun _ => 0
  hourN := fun _ => 0

def snapshot (p : DiurnalProfile K) : DiurnalSnapshot K where
  lam := p.lam
  hourMean := List.ofFn p.hourMean
  hourN := List.ofFn p.hourN

/-- The mean of the hours learned so far, once there are enough of them. -/
def referenceLevel (p : DiurnalProfile K) : Option K :=
  let learned := (List.finRange 24).filter fun h => p.minSamples ≤ p.hourN h
  if (learned.length : Int) < p.minReadyHours then none
  else some (FloatMath.sum (learned.map p.hourMean) / (learned.length : ℕ))

variable [LT K] [DecidableLT K]

/-- `factor`: 1 until the hour is learned. -/
def factor (p : DiurnalProfile K) (hour : Fin 24) : Option K :=
  match p.referenceLevel with
  | none => some (1 : ℕ)
  | some reference =>
    if p.hourN hour < p.minSamples then some (1 : ℕ)
    else (FloatMath.exp (p.hourMean hour - reference)).map fun f =>
      pyMin (pyMax f p.clamp.1) p.clamp.2

def deseasonalize (p : DiurnalProfile K) (sigma : K) (hour : Fin 24) : Option K :=
  (p.factor hour).map fun f => sigma / f

/-- `restore`; `none` where the buckets are not 24 or `__post_init__` refuses the decay. `clamp` comes
back as its default. -/
def restore (state : DiurnalSnapshot K) (minSamples minReadyHours : Int) :
    Option (DiurnalProfile K) :=
  if h : state.hourMean.length = 24 ∧ state.hourN.length = 24 then
    if 0 < state.lam ∧ state.lam < (1 : ℕ) then
      some
        { lam := state.lam
          minSamples
          minReadyHours
          clamp := defaultClamp
          hourMean := fun hour => state.hourMean.get (hour.cast h.1.symm)
          hourN := fun hour => state.hourN.get (hour.cast h.2.symm) }
    else none
  else none

omit [LT K] [DecidableLT K] in
/-- `observe`: admit one sigma into its hour. -/
def observe [LE K] [DecidableLE K] (p : DiurnalProfile K) (sigma : K) (hour : Fin 24) :
    Option (DiurnalProfile K) :=
  if measurable sigma = false then some p
  else do
    let x ← FloatOps.log sigma
    let mean :=
      if p.hourN hour = 0 then x
      else p.hourMean hour + ((1 : ℕ) - p.lam) * (x - p.hourMean hour)
    return { p with
      hourMean := Function.update p.hourMean hour mean
      hourN := Function.update p.hourN hour (p.hourN hour + 1) }

end DiurnalProfile

end FxTracker.Alerts
