import FxTracker.Core.Wire
import Mathlib.Algebra.Group.Nat.Defs
import Mathlib.Algebra.Ring.Int.Defs
import Mathlib.Data.Int.Order.Basic
import Mathlib.Data.Nat.Log
import Mathlib.Order.MinMax

/-!
# Additive time buckets

`fx_core/volatility/buckets.py`, and the `Bar` of `fx_core/models.py`.

Prices range over any type with the operations the code applies; `log` answers `none` where
`math.log` raises `ValueError`. Instants are microseconds, buckets whole seconds.

* `floorToBucket_mono`, `le_floorToBucket` — the bucket of a time, against earlier times and bucket starts
-/

namespace FxTracker

/-- What the code computes with floats. No law of it is assumed. -/
class FloatOps (K : Type) extends Zero K, Add K, Sub K, Mul K, Div K, NatCast K where
  /-- `math.log`; `none` is a math domain error. -/
  log : K → Option K

/-- Whole numbers in place of floats, for runs on fixed inputs. Of `log` only that of 1 is whole. -/
instance : FloatOps Int where
  log x := if x = 1 then some 0 else none

/-- Python's `max(a, b)`: the first, unless the second is greater. -/
def pyMax {K : Type} [LT K] [DecidableLT K] (a b : K) : K := if a < b then b else a

/-- Python's `min(a, b)`. -/
def pyMin {K : Type} [LT K] [DecidableLT K] (a b : K) : K := if b < a then b else a

theorem pyMax_eq_max {K : Type} [LinearOrder K] (a b : K) : pyMax a b = max a b :=
  (max_def_lt a b).symm

theorem pyMin_eq_min {K : Type} [LinearOrder K] (a b : K) : pyMin a b = min a b := by
  rw [min_comm]
  exact (min_def_lt b a).symm

inductive BarSource
  | stream
  | backfill
  | synthetic
  deriving DecidableEq, Repr

/-- A time bucket: its prices and additive sufficient statistics. -/
structure Bar (K : Type) where
  symbol : String
  bucket : Int
  opening : K
  high : K
  low : K
  close : K
  tickCount : Nat
  sumRet : K
  sumRetSq : K
  source : BarSource
  deriving DecidableEq

/-- `GAP_BAR_MULTIPLE`. -/
def gapBarMultiple : Int := 3

/-- `int(ts.timestamp())`: the seconds as the nearest double, ties to even, cut towards zero. A
double of this size keeps `k` bits of the fraction. -/
def epochSeconds (ts : Int) : Int :=
  let micros := ts.natAbs
  let k := 52 - Nat.log2 (micros / 1000000)
  let quotient := micros * 2 ^ k / 1000000
  let rest := micros * 2 ^ k % 1000000
  let rounded :=
    if 500000 < rest ∨ (rest = 500000 ∧ quotient % 2 = 1) then quotient + 1 else quotient
  ts.sign * (rounded / 2 ^ k : Nat)

/-- The whole seconds a `datetime` can stand for: the years 1 to 9999. -/
def representable (seconds : Int) : Bool := -62135596800 ≤ seconds ∧ seconds ≤ 253402300799

/-- `floor_to_bucket`; `none` where it raises. -/
def floorToBucket (ts bucketSeconds : Int) : Option Int :=
  let epoch := epochSeconds ts
  if bucketSeconds = 0 then none
  else
    let bucket := epoch - epoch.fmod bucketSeconds
    if representable bucket then some bucket else none

/-! ### Later times are in later buckets -/

/-- Millionths to the nearest whole number, ties to even. -/
def roundMillionths (a : Nat) : Nat :=
  if 500000 < a % 1000000 ∨ (a % 1000000 = 500000 ∧ a / 1000000 % 2 = 1) then a / 1000000 + 1
  else a / 1000000

/-- `epochSeconds` of a time that is not before the epoch. -/
def secondsOf (micros : Nat) : Nat :=
  roundMillionths (micros * 2 ^ (52 - Nat.log2 (micros / 1000000))) /
    2 ^ (52 - Nat.log2 (micros / 1000000))

theorem epochSeconds_eq (ts : Int) : epochSeconds ts = ts.sign * (secondsOf ts.natAbs : Nat) := rfl

theorem roundMillionths_mono {a b : Nat} (h : a ≤ b) : roundMillionths a ≤ roundMillionths b := by
  unfold roundMillionths
  split <;> split <;> omega

theorem roundMillionths_mul (n : Nat) : roundMillionths (n * 1000000) = n := by
  unfold roundMillionths
  split <;> omega

theorem secondsOf_mul (n : Nat) : secondsOf (n * 1000000) = n := by
  unfold secondsOf
  rw [Nat.mul_right_comm, roundMillionths_mul]
  exact Nat.mul_div_cancel n (Nat.two_pow_pos _)

/-- The whole seconds, or one more. -/
theorem secondsOf_bounds (micros : Nat) :
    micros / 1000000 ≤ secondsOf micros ∧ secondsOf micros ≤ micros / 1000000 + 1 := by
  unfold secondsOf
  generalize 52 - Nat.log2 (micros / 1000000) = k
  have hpos : 0 < 2 ^ k := Nat.two_pow_pos k
  have hlow : micros / 1000000 * 2 ^ k ≤ roundMillionths (micros * 2 ^ k) := by
    rw [← roundMillionths_mul (micros / 1000000 * 2 ^ k), Nat.mul_right_comm]
    exact roundMillionths_mono (Nat.mul_le_mul_right _ (Nat.div_mul_le_self ..))
  have hhigh : roundMillionths (micros * 2 ^ k) ≤ (micros / 1000000 + 1) * 2 ^ k := by
    rw [← roundMillionths_mul ((micros / 1000000 + 1) * 2 ^ k), Nat.mul_right_comm]
    exact roundMillionths_mono (Nat.mul_le_mul_right _ (by omega))
  rw [Nat.mul_comm (_ + 1)] at hhigh
  exact ⟨(Nat.le_div_iff_mul_le hpos).mpr hlow, Nat.div_le_of_le_mul hhigh⟩

theorem secondsOf_mono {a b : Nat} (h : a ≤ b) : secondsOf a ≤ secondsOf b := by
  rcases Nat.eq_or_lt_of_le (Nat.div_le_div_right h : a / 1000000 ≤ b / 1000000) with heq | hlt
  · -- the same scale
    unfold secondsOf
    rw [heq]
    exact Nat.div_le_div_right (roundMillionths_mono (Nat.mul_le_mul_right _ h))
  · have ha := (secondsOf_bounds a).2
    have hb := (secondsOf_bounds b).1
    omega

theorem epochSeconds_mono {a b : Int} (h : a ≤ b) : epochSeconds a ≤ epochSeconds b := by
  rw [epochSeconds_eq, epochSeconds_eq]
  rcases Int.lt_or_le a 0 with ha | ha
  · rw [Int.sign_eq_neg_one_of_neg ha]
    rcases Int.lt_or_le b 0 with hb | hb
    · rw [Int.sign_eq_neg_one_of_neg hb]
      have hle : secondsOf b.natAbs ≤ secondsOf a.natAbs := secondsOf_mono (by omega)
      omega
    · have hsign : 0 ≤ b.sign := Int.sign_nonneg_iff.mpr hb
      have hpos : 0 ≤ b.sign * (secondsOf b.natAbs : Int) := Int.mul_nonneg hsign (Int.natCast_nonneg _)
      omega
  · have hle : secondsOf a.natAbs ≤ secondsOf b.natAbs := secondsOf_mono (by omega)
    rcases Int.le_iff_eq_or_lt.mp ha with rfl | ha
    · have hsign : 0 ≤ b.sign := Int.sign_nonneg_iff.mpr h
      have hpos : 0 ≤ b.sign * (secondsOf b.natAbs : Int) := Int.mul_nonneg hsign (Int.natCast_nonneg _)
      rw [Int.sign_zero]
      omega
    · rw [Int.sign_eq_one_of_pos ha, Int.sign_eq_one_of_pos (Int.lt_of_lt_of_le ha h)]
      omega

theorem epochSeconds_mul (s : Int) : epochSeconds (s * 1000000) = s := by
  have habs : (s * 1000000).natAbs = s.natAbs * 1000000 := by omega
  have hsign : (s * 1000000).sign = s.sign := by
    rw [Int.sign_mul]
    exact Int.mul_one _
  rw [epochSeconds_eq, habs, secondsOf_mul, hsign, Int.sign_mul_natAbs]

theorem floorToBucket_eq_some {ts bs b : Int} (hbs : 0 < bs) (h : floorToBucket ts bs = some b) :
    b = bs * (epochSeconds ts / bs) := by
  unfold floorToBucket at h
  rw [if_neg (by omega)] at h
  dsimp only at h
  split at h
  · cases h
    rw [Int.fmod_eq_emod_of_nonneg _ (by omega), Int.emod_def]
    omega
  · cases h

/-- **Later times are in later buckets**, or in the same. -/
theorem floorToBucket_mono {ts ts' bs b b' : Int} (hbs : 0 < bs) (hle : ts ≤ ts')
    (h : floorToBucket ts bs = some b) (h' : floorToBucket ts' bs = some b') : b ≤ b' := by
  rw [floorToBucket_eq_some hbs h, floorToBucket_eq_some hbs h']
  exact Int.mul_le_mul_of_nonneg_left (Int.ediv_le_ediv hbs (epochSeconds_mono hle)) (by omega)

/-- A time from the start of a bucket on is in that bucket or a later one. -/
theorem le_floorToBucket {ts bs b n : Int} (hbs : 0 < bs) (hle : bs * n * 1000000 ≤ ts)
    (h : floorToBucket ts bs = some b) : bs * n ≤ b := by
  have hsec := epochSeconds_mono hle
  rw [epochSeconds_mul] at hsec
  rw [floorToBucket_eq_some hbs h]
  refine Int.mul_le_mul_of_nonneg_left ((Int.le_ediv_iff_mul_le hbs).mpr ?_) (by omega)
  rw [Int.mul_comm]
  exact hsec

/-! ## One bucket -/

/-- One in-progress bucket. -/
structure BucketAccumulator (K : Type) where
  symbol : String
  bucket : Int
  opening : K
  high : K
  low : K
  close : K
  tickCount : Nat
  sumRet : K
  sumRetSq : K
  source : BarSource
  deriving DecidableEq

namespace BucketAccumulator

variable {K : Type} [FloatOps K] [LT K] [DecidableLT K]

/-- `start`; `none` where `floor_to_bucket` raises. -/
def start (symbol : String) (ts : Int) (price : K) (bucketSeconds : Int) (source : BarSource) :
    Option (BucketAccumulator K) :=
  (floorToBucket ts bucketSeconds).map fun bucket =>
    { symbol
      bucket
      opening := price
      high := price
      low := price
      close := price
      tickCount := 0
      sumRet := 0
      sumRetSq := 0
      source }

/-- The return `add` folds in: none without two positive prices. The outer `none` is an error. -/
def logReturn (price : K) : Option K → Option (Option K)
  | some prev =>
    if 0 < prev ∧ 0 < price then (FloatOps.log (price / prev)).map some else some none
  | none => some none

/-- `add`: fold one tick in; `none` where `math.log` raises. -/
def add (acc : BucketAccumulator K) (price : K) (prevPrice : Option K) :
    Option (BucketAccumulator K) :=
  (logReturn price prevPrice).map fun r =>
    { acc with
      high := pyMax acc.high price
      low := pyMin acc.low price
      close := price
      tickCount := acc.tickCount + 1
      sumRet := match r with
        | some r => acc.sumRet + r
        | none => acc.sumRet
      sumRetSq := match r with
        | some r => acc.sumRetSq + r * r
        | none => acc.sumRetSq }

omit [LT K] [DecidableLT K] in
theorem start_eq_some {symbol : String} {ts bucketSeconds : Int} {price : K} {source : BarSource}
    {acc : BucketAccumulator K} (h : start symbol ts price bucketSeconds source = some acc) :
    floorToBucket ts bucketSeconds = some acc.bucket ∧ acc.symbol = symbol := by
  obtain ⟨bucket, hbucket, rfl⟩ := Option.map_eq_some_iff.mp h
  exact ⟨hbucket, rfl⟩

theorem add_fixed {acc acc' : BucketAccumulator K} {price : K} {prev : Option K}
    (h : acc.add price prev = some acc') : acc'.symbol = acc.symbol ∧ acc'.bucket = acc.bucket := by
  obtain ⟨r, -, rfl⟩ := Option.map_eq_some_iff.mp h
  exact ⟨rfl, rfl⟩

def sealBar (acc : BucketAccumulator K) : Bar K where
  symbol := acc.symbol
  bucket := acc.bucket
  opening := acc.opening
  high := acc.high
  low := acc.low
  close := acc.close
  tickCount := acc.tickCount
  sumRet := acc.sumRet
  sumRetSq := acc.sumRetSq
  source := acc.source

end BucketAccumulator

end FxTracker
