import FxTracker.Core.Buckets
import FxTracker.Lib.Rollup
import Mathlib.Data.List.Sort
import Mathlib.Order.Lattice
import Mathlib.Order.MinMax

/-!
# Timeframe roll-up

`fx_core/intervals.py`. `none` stands for an exception.

* `fold_eq_rollup` — on a fixed interval the fold is the roll-up of the sorted bars by bucket
* `extend_assoc` — it does not matter which neighbours are joined first
-/

namespace FxTracker

/-- A base bar or a candle: `t`, `o`, `h`, `l`, `c`, `n`, `src`. -/
structure Candle (K : Type) where
  t : Int
  o : K
  h : K
  l : K
  c : K
  n : Nat
  src : String
  deriving DecidableEq

namespace Intervals

inductive Base
  | minute
  | day
  deriving DecidableEq

structure Interval where
  code : String
  /-- `none` for calendar intervals. -/
  seconds : Option Int
  base : Base
  deriving DecidableEq

/-- `INTERVALS`. -/
def intervals : List Interval :=
  [ ⟨"1m", some 60, .minute⟩,
    ⟨"3m", some 180, .minute⟩,
    ⟨"5m", some 300, .minute⟩,
    ⟨"10m", some 600, .minute⟩,
    ⟨"15m", some 900, .minute⟩,
    ⟨"30m", some 1800, .minute⟩,
    ⟨"1h", some 3600, .minute⟩,
    ⟨"4h", some 14400, .minute⟩,
    ⟨"1d", some 86400, .day⟩,
    ⟨"1w", none, .day⟩,
    ⟨"1M", none, .day⟩ ]

/-- `BASE_SECONDS`. -/
def baseSeconds : Base → Int
  | .minute => 60
  | .day => 86400

/-- The base bars of a candle, as `base_count` counts them; `_CALENDAR_SPAN` for a week or a month. -/
def perCandle (spec : Interval) : Nat :=
  match spec.seconds with
  | some seconds => max (seconds / baseSeconds spec.base).toNat 1
  | none => if spec.code = "1w" then 7 else 31

/-- `base_count`: how many base bars must be read to fold into `limit` candles. -/
def baseCount (interval : String) (limit : Nat) : Option Nat :=
  (intervals.find? (·.code = interval)).map fun spec => limit * perCandle spec + perCandle spec

/-- `datetime.weekday()` of a day since 1970-01-01, a Thursday: 0 is Monday. -/
def weekday (day : Int) : Int := (day + 3) % 7

/-- `datetime.day` of a day since 1970-01-01: the years are counted from March, in cycles of 400. -/
def dayOfMonth (day : Int) : Int :=
  let dayOfEra := (day + 719468) % 146097
  let yearOfEra := (dayOfEra - dayOfEra / 1460 + dayOfEra / 36524 - dayOfEra / 146096) / 365
  let dayOfYear := dayOfEra - (365 * yearOfEra + yearOfEra / 4 - yearOfEra / 100)
  let month := (5 * dayOfYear + 2) / 153
  dayOfYear - (153 * month + 2) / 5 + 1

/-- `bucket_start`: the left edge of the bucket an epoch belongs to. -/
def bucketStart (epoch : Int) (interval : Interval) : Option Int :=
  match interval.seconds with
  | some seconds => some (epoch - epoch.fmod seconds)
  | none =>
    if representable epoch then
      let day := epoch / 86400
      some (86400 * (if interval.code = "1w" then day - weekday day else day - (dayOfMonth day - 1)))
    else none

variable {K : Type}

/-- `_fold_order`: time, then provider history before anything observed live in the same minute. -/
def foldOrder (bar : Candle K) : Int ×ₗ Nat :=
  toLex (bar.t, if bar.src = "backfill" then 0 else 1)

section Fold

variable [LT K] [DecidableLT K]

/-- A bar of the bucket the last candle is of. -/
def extend (cur bar : Candle K) : Candle K :=
  { cur with
    h := pyMax cur.h bar.h
    l := pyMin cur.l bar.l
    c := bar.c
    n := cur.n + bar.n
    src := if cur.src ≠ bar.src then "mixed" else cur.src }

@[simp] theorem t_extend (cur bar : Candle K) : (extend cur bar).t = cur.t := rfl

/-- One bar of the fold. -/
def foldBar (interval : Interval) (out : List (Candle K)) (bar : Candle K) :
    Option (List (Candle K)) :=
  (bucketStart bar.t interval).map fun start =>
    match out.getLast? with
    | some cur =>
      if cur.t = start then out.dropLast ++ [extend cur bar] else out ++ [{ bar with t := start }]
    | none => [{ bar with t := start }]

/-- `fold`: roll base bars up into `interval` buckets. -/
def fold (bars : List (Candle K)) (interval : String) : Option (List (Candle K)) :=
  (intervals.find? (·.code = interval)).bind fun spec =>
    (bars.insertionSort fun a b => foldOrder a ≤ foldOrder b).foldlM (foldBar spec) []

/-- A bar under the bucket it falls in. -/
def restamp (seconds : Int) (bar : Candle K) : Candle K :=
  { bar with t := bar.t - bar.t.fmod seconds }

/-- **On a fixed interval** the fold is the roll-up of the sorted bars by bucket. -/
theorem fold_eq_rollup {interval : String} {spec : Interval} {seconds : Int}
    (hspec : intervals.find? (·.code = interval) = some spec) (hsec : spec.seconds = some seconds)
    (bars : List (Candle K)) :
    fold bars interval = some (rollup Candle.t extend
      ((bars.insertionSort fun a b => foldOrder a ≤ foldOrder b).map (restamp seconds))) := by
  unfold fold rollup
  rw [hspec, Option.bind_some]
  generalize bars.insertionSort (fun a b => foldOrder a ≤ foldOrder b) = sorted
  generalize ([] : List (Candle K)) = out
  induction sorted generalizing out with
  | nil => rfl
  | cons bar sorted ih =>
    have hbar : foldBar spec out bar = some (rollStep Candle.t extend out (restamp seconds bar)) := by
      unfold foldBar bucketStart rollStep
      rw [hsec]
      cases out.getLast? <;> rfl
    rw [List.foldlM_cons, hbar]
    exact ih _

end Fold

/-! ## Joining -/

variable [LinearOrder K]

theorem src_extend_assoc (x y z : String) :
    (if (if x ≠ y then "mixed" else x) ≠ z then "mixed" else if x ≠ y then "mixed" else x) =
      if x ≠ (if y ≠ z then "mixed" else y) then "mixed" else x := by
  by_cases hxy : x = y <;> by_cases hyz : y = z <;> simp_all

/-- **It does not matter which neighbours are joined first.** -/
theorem extend_assoc (a b c : Candle K) : extend (extend a b) c = extend a (extend b c) := by
  unfold extend
  simp only [pyMax_eq_max, pyMin_eq_min, max_assoc, min_assoc, Nat.add_assoc]
  rw [src_extend_assoc]

end Intervals

end FxTracker
