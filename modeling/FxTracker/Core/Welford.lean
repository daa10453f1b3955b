import FxTracker.Core.FloatMath
import FxTracker.Lib.Moments

/-!
# Running variance

`fx_core/volatility/welford.py`: an accumulator that takes one number at a time, combines with another,
or is put together from sums.

* `updateMany_eq` — one pass holds the moments of the numbers taken
* `merge_ofSample`, `fromSums_eq` — so do the other two ways, over exact arithmetic
-/

namespace FxTracker

/-- Streaming mean and variance; `m2` is the sum of squared deviations. -/
structure Welford (K : Type) where
  n : Nat
  mean : K
  m2 : K
  deriving DecidableEq

namespace Welford

section Code

variable {K : Type} [Zero K] [Add K] [Sub K] [Mul K] [Div K] [NatCast K]

/-- `Welford()`. -/
def empty : Welford K := ⟨0, 0, 0⟩

def update (w : Welford K) (x : K) : Welford K :=
  let n := w.n + 1
  let delta := x - w.mean
  let mean := w.mean + delta / (n : K)
  -- the second factor is taken from the updated mean
  { n, mean, m2 := w.m2 + delta * (x - mean) }

def updateMany (w : Welford K) (xs : List K) : Welford K := xs.foldl update w

/-- Chan's combination. -/
def merge (w other : Welford K) : Welford K :=
  if other.n = 0 then w
  else if w.n = 0 then other
  else
    let n := w.n + other.n
    let delta := other.mean - w.mean
    { n
      mean := w.mean + delta * ((other.n : K) / (n : K))
      m2 := w.m2 + other.m2 + delta * delta * (w.n : K) * (other.n : K) / (n : K) }

variable [LT K] [DecidableLT K]

/-- `variance`, with Bessel's correction. -/
def variance (w : Welford K) : K :=
  if w.n < 2 then 0 else pyMax (w.m2 / ((w.n - 1 : ℕ) : K)) 0

def fromSums (n : Nat) (total totalSq : K) : Welford K :=
  if n < 1 then empty
  else
    let mean := total / (n : K)
    { n, mean, m2 := pyMax (totalSq - (n : K) * mean * mean) 0 }

end Code

/-- `stdev`. -/
def stdev {K : Type} [FloatMath K] [LT K] [DecidableLT K] (w : Welford K) : K := FloatMath.sqrt w.variance

/-! ## Exact arithmetic -/

section Exact

variable {K : Type} [Field K]

/-- The accumulator that holds the moments of a sample. -/
def ofSample (xs : List K) : Welford K := ⟨xs.length, FxTracker.mean xs, sqDev xs⟩

@[simp] theorem ofSample_n (xs : List K) : (ofSample xs).n = xs.length := rfl

@[simp] theorem ofSample_mean (xs : List K) : (ofSample xs).mean = FxTracker.mean xs := rfl

@[simp] theorem ofSample_m2 (xs : List K) : (ofSample xs).m2 = sqDev xs := rfl

theorem update_ofSample [CharZero K] (xs : List K) (x : K) :
    (ofSample xs).update x = ofSample (xs ++ [x]) := by
  unfold update ofSample
  rw [sqDev_concat, mean_concat, List.length_append]
  rfl

theorem updateMany_ofSample [CharZero K] (xs ys : List K) :
    (ofSample xs).updateMany ys = ofSample (xs ++ ys) := by
  induction ys generalizing xs with
  | nil => rw [List.append_nil]; rfl
  | cons y ys ih =>
    show ((ofSample xs).update y).updateMany ys = _
    rw [update_ofSample, ih, List.append_assoc]
    rfl

theorem ofSample_nil : ofSample ([] : List K) = empty := by
  simp [ofSample, empty, FxTracker.mean]

/-- **One pass** holds the moments of the numbers taken. -/
theorem updateMany_eq [CharZero K] (xs : List K) : empty.updateMany xs = ofSample xs := by
  rw [← ofSample_nil, updateMany_ofSample, List.nil_append]

/-- **Two accumulators combine** to that of both samples. -/
theorem merge_ofSample [CharZero K] (xs ys : List K) :
    (ofSample xs).merge (ofSample ys) = ofSample (xs ++ ys) := by
  simp only [merge, ofSample_n, ofSample_mean, ofSample_m2, List.length_eq_zero_iff]
  by_cases hys : ys = []
  · rw [if_pos hys, hys, List.append_nil]
  · rw [if_neg hys]
    by_cases hxs : xs = []
    · rw [if_pos hxs, hxs, List.nil_append]
    · rw [if_neg hxs]
      have hne : xs ++ ys ≠ [] := by simp [hxs]
      simp only [ofSample, mean_append hne, sqDev_append hne, List.length_append]

variable [LinearOrder K] [IsStrictOrderedRing K]

/-- **The sums of a sample** give its accumulator. -/
theorem fromSums_eq (xs : List K) : fromSums xs.length xs.sum (sumSq xs) = ofSample xs := by
  unfold fromSums
  by_cases hxs : xs = []
  · rw [if_pos (by simp [hxs]), hxs, ofSample_nil]
  · rw [if_neg (by simpa using hxs)]
    show (⟨xs.length, FxTracker.mean xs, pyMax (sumSq xs - xs.length * FxTracker.mean xs * FxTracker.mean xs) 0⟩ :
      Welford K) = _
    rw [← sqDev_eq, pyMax_eq_max, max_eq_left (sqDev_nonneg xs)]
    rfl

theorem foldl_merge (parts : List (List K)) (xs : List K) :
    (parts.map fun part => fromSums part.length part.sum (sumSq part)).foldl merge (ofSample xs) =
      ofSample (xs ++ parts.flatten) := by
  induction parts generalizing xs with
  | nil => simp
  | cons part parts ih =>
    rw [List.map_cons, List.foldl_cons, fromSums_eq, merge_ofSample, ih, List.flatten_cons, List.append_assoc]

/-- Its variance is that of the sample. -/
theorem variance_ofSample {xs : List K} (h : 2 ≤ xs.length) :
    (ofSample xs).variance = sampleVariance xs := by
  have hpos : 1 ≤ xs.length := by omega
  have hn : ¬ (ofSample xs).n < 2 := Nat.not_lt.mpr h
  rw [variance, if_neg hn, pyMax_eq_max, ofSample_n, Nat.cast_sub hpos, Nat.cast_one]
  exact max_eq_left (sampleVariance_nonneg hpos)

end Exact

end Welford

end FxTracker
