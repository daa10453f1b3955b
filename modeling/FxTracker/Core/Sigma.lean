import FxTracker.Core.RollingWindow
import FxTracker.Core.Exact
import Mathlib.Analysis.SpecialFunctions.Pow.Real

/-!
# The volatility of a window

What `RollingWindow.sigma` and `Bar.variance` make of the ticks folded into the bars.

A bar counts its ticks and sums its returns. A tick without a previous price has no return, but the
divisor counts it: it stands in the sample as a return of 0.

* `welford_parts` — sums per bar, combined, are one pass over all returns
* `Bar.Folds.sums` — the statistics of a bar are those of its ticks' returns, 0 where there is none
* `sigma_eq_iff` — when that is the sample deviation of the returns
-/

namespace FxTracker

/-- `Bar.variance`: from the stored statistics alone. -/
def Bar.variance {K : Type} [Zero K] [Sub K] [Mul K] [Div K] [NatCast K] [LT K] [DecidableLT K]
    (bar : Bar K) : K :=
  let n := bar.tickCount
  if n < 2 then 0
  else
    let mean := bar.sumRet / (n : K)
    pyMax ((bar.sumRetSq - (n : K) * mean * mean) / ((n - 1 : ℕ) : K)) 0

/-! ## Parts of a sample -/

section Parts

variable {K : Type} [Field K] [LinearOrder K] [IsStrictOrderedRing K]

/-- A bar's statistics are those of these numbers. -/
def Bar.Sums (bar : Bar K) (xs : List K) : Prop :=
  bar.tickCount = xs.length ∧ bar.sumRet = xs.sum ∧ bar.sumRetSq = sumSq xs

theorem Bar.Sums.fromSums {bar : Bar K} {xs : List K} (h : bar.Sums xs) :
    Welford.fromSums bar.tickCount bar.sumRet bar.sumRetSq = .ofSample xs := by
  rw [h.1, h.2.1, h.2.2, Welford.fromSums_eq]

theorem welford_sums {bars : List (Bar K)} {parts : List (List K)} (h : List.Forall₂ Bar.Sums bars parts) :
    ∀ xs : List K, bars.foldl (fun acc bar => acc.merge (.fromSums bar.tickCount bar.sumRet bar.sumRetSq))
      (.ofSample xs) = Welford.ofSample (xs ++ parts.flatten) := by
  induction h with
  | nil => simp
  | cons hbar _ ih =>
    intro xs
    rw [List.foldl_cons, hbar.fromSums, Welford.merge_ofSample, ih, List.flatten_cons, List.append_assoc]

/-- The accumulator of a window is that of all its bars' numbers. -/
theorem welford_parts {w : RollingWindow K} {parts : List (List K)} (h : List.Forall₂ Bar.Sums w.bars parts) :
    w.welford = .ofSample parts.flatten := by
  rw [RollingWindow.welford, ← Welford.ofSample_nil, welford_sums h, List.nil_append]

theorem Bar.Sums.variance {bar : Bar K} {xs : List K} (h : bar.Sums xs) (h2 : 2 ≤ xs.length) :
    bar.variance = sampleVariance xs := by
  have hpos : 1 ≤ xs.length := by omega
  unfold Bar.variance
  rw [h.1, h.2.1, h.2.2]
  show (if xs.length < 2 then 0 else
    pyMax ((sumSq xs - xs.length * mean xs * mean xs) / ((xs.length - 1 : ℕ) : K)) 0) = _
  rw [if_neg (by omega), ← sqDev_eq, pyMax_eq_max, Nat.cast_sub hpos, Nat.cast_one]
  exact max_eq_left (sampleVariance_nonneg hpos)

end Parts

/-- This bar, with the statistics of some returns. -/
def Bar.carrying {K : Type} [Field K] (bar : Bar K) (xs : List K) : Bar K :=
  { bar with tickCount := xs.length, sumRet := xs.sum, sumRetSq := sumSq xs }

/-- **One pass, a merge and the sums agree**: combining accumulators is taking both lists, the sums of a
list give its accumulator, and so a window's bars together hold what one pass over all returns does. -/
theorem welford_homomorphism :
    (∀ xs ys : List ℚ, (Welford.empty.updateMany xs).merge (Welford.empty.updateMany ys) =
      Welford.empty.updateMany (xs ++ ys)) ∧
    (∀ xs : List ℚ, Welford.fromSums xs.length xs.sum (xs.map fun x => x * x).sum = Welford.empty.updateMany xs) ∧
    (∀ parts : List (List ℚ),
      (parts.map fun part => Welford.fromSums part.length part.sum (part.map fun x => x * x).sum).foldl
        Welford.merge .empty = Welford.empty.updateMany parts.flatten) ∧
    ∀ (windowSeconds : Int) (bars : List (Bar ℚ × List ℚ)),
      (RollingWindow.mk windowSeconds (bars.map fun b => b.1.carrying b.2)).welford =
        Welford.empty.updateMany (bars.map Prod.snd).flatten := by
  refine ⟨fun xs ys => ?_, fun xs => ?_, fun parts => ?_, fun windowSeconds bars => ?_⟩
  · rw [Welford.updateMany_eq, Welford.updateMany_eq, Welford.updateMany_eq, Welford.merge_ofSample]
  · rw [Welford.updateMany_eq]
    exact Welford.fromSums_eq xs
  · rw [Welford.updateMany_eq, ← Welford.ofSample_nil]
    exact Welford.foldl_merge parts []
  · rw [Welford.updateMany_eq]
    refine welford_parts ?_
    induction bars with
    | nil => exact .nil
    | cons b bars ih => exact .cons ⟨rfl, rfl, rfl⟩ ih

/-! ## Ticks folded into bars -/

namespace BucketAccumulator

/-- One `add` after the other, each with a price and the price before it. -/
def addAll {K : Type} [FloatOps K] [LT K] [DecidableLT K] (acc : BucketAccumulator K) (ticks : List (K × Option K)) :
    Option (BucketAccumulator K) :=
  ticks.foldlM (fun acc t => acc.add t.1 t.2) acc

end BucketAccumulator

/-- The log return of a tick; a tick without two positive prices has none. -/
noncomputable def logReturnOf : ℝ × Option ℝ → Option ℝ
  | (price, some prev) => if 0 < prev ∧ 0 < price then some (Real.log (price / prev)) else none
  | (_, none) => none

/-- The returns folded in. -/
noncomputable def returnsOf (ticks : List (ℝ × Option ℝ)) : List ℝ := ticks.filterMap logReturnOf

/-- A sealed bar of these ticks. -/
def Bar.Folds (bar : Bar ℝ) (ticks : List (ℝ × Option ℝ)) : Prop :=
  ∃ symbol ts price bucketSeconds source acc acc',
    BucketAccumulator.start symbol ts price bucketSeconds source = some acc ∧
      acc.addAll ticks = some acc' ∧ bar = acc'.sealBar

theorem logReturn_eq (t : ℝ × Option ℝ) : BucketAccumulator.logReturn t.1 t.2 = some (logReturnOf t) := by
  obtain ⟨price, _ | prev⟩ := t
  · rfl
  · show (if 0 < prev ∧ 0 < price then (FloatOps.log (price / prev)).map some else some none) =
      some (if 0 < prev ∧ 0 < price then some (Real.log (price / prev)) else none)
    split
    · next h => rw [log_eq (div_pos h.2 h.1)]; rfl
    · rfl

/-- A tick without a return is folded in as a return of 0. -/
theorem add_sums (acc : BucketAccumulator ℝ) (t : ℝ × Option ℝ) :
    ∃ acc', acc.add t.1 t.2 = some acc' ∧ acc'.tickCount = acc.tickCount + 1 ∧
      acc'.sumRet = acc.sumRet + (logReturnOf t).getD 0 ∧
      acc'.sumRetSq = acc.sumRetSq + (logReturnOf t).getD 0 * (logReturnOf t).getD 0 := by
  unfold BucketAccumulator.add
  rw [logReturn_eq]
  refine ⟨_, rfl, rfl, ?_⟩
  cases logReturnOf t with
  | some r => exact ⟨rfl, rfl⟩
  | none => exact ⟨(add_zero _).symm, by simp⟩

theorem addAll_sums {acc acc' : BucketAccumulator ℝ} {ticks : List (ℝ × Option ℝ)} {xs : List ℝ}
    (hacc : acc.sealBar.Sums xs) (h : acc.addAll ticks = some acc') :
    acc'.sealBar.Sums (xs ++ ticks.map fun t => (logReturnOf t).getD 0) := by
  induction ticks generalizing acc xs with
  | nil => cases h; simpa using hacc
  | cons t ticks ih =>
    obtain ⟨acc₁, hadd, hcount, hsum, hsq⟩ := add_sums acc t
    have hrest : acc₁.addAll ticks = some acc' := by
      rw [BucketAccumulator.addAll, List.foldlM_cons, hadd] at h
      exact h
    have hone : acc₁.sealBar.Sums (xs ++ [(logReturnOf t).getD 0]) := by
      obtain ⟨hc, hs, hq⟩ := hacc
      refine ⟨?_, ?_, ?_⟩
      · rw [List.length_append, ← hc]; exact hcount
      · rw [List.sum_append, ← hs, List.sum_singleton]; exact hsum
      · rw [sumSq_append, ← hq, sumSq_singleton]; exact hsq
    rw [List.map_cons, List.append_cons]
    exact ih hone hrest

theorem exists_addAll (ticks : List (ℝ × Option ℝ)) :
    ∀ acc : BucketAccumulator ℝ, ∃ acc', acc.addAll ticks = some acc' := by
  induction ticks with
  | nil => exact fun acc => ⟨acc, rfl⟩
  | cons t ticks ih =>
    intro acc
    obtain ⟨acc₁, hadd, -⟩ := add_sums acc t
    obtain ⟨acc', hrest⟩ := ih acc₁
    refine ⟨acc', ?_⟩
    rw [BucketAccumulator.addAll, List.foldlM_cons, hadd]
    exact hrest

/-- There is a bar of any ticks. -/
theorem exists_folds (ticks : List (ℝ × Option ℝ)) : ∃ bar : Bar ℝ, bar.Folds ticks := by
  have hbucket : floorToBucket 0 60 = some 0 := by decide
  obtain ⟨acc', hall⟩ := exists_addAll ticks
    { symbol := "EURUSD", bucket := 0, opening := 1, high := 1, low := 1, close := 1, tickCount := 0, sumRet := 0,
      sumRetSq := 0, source := .stream }
  refine ⟨acc'.sealBar, "EURUSD", 0, 1, 60, .stream, _, acc', ?_, hall, rfl⟩
  rw [BucketAccumulator.start, hbucket]
  rfl

/-- **The statistics of a bar** are those of its ticks' returns, 0 where a tick has none. -/
theorem Bar.Folds.sums {bar : Bar ℝ} {ticks : List (ℝ × Option ℝ)} (h : bar.Folds ticks) :
    bar.Sums (ticks.map fun t => (logReturnOf t).getD 0) := by
  obtain ⟨symbol, ts, price, bucketSeconds, source, acc, acc', hstart, hadd, rfl⟩ := h
  have hnew : acc.sealBar.Sums [] := by
    obtain ⟨bucket, -, rfl⟩ := Option.map_eq_some_iff.mp hstart
    exact ⟨rfl, rfl, rfl⟩
  have hall := addAll_sums hnew hadd
  rwa [List.nil_append] at hall

/-- Every tick has a return; or the squares and the square of the sum balance, as they do where all
returns are 0. -/
def DivisorFits (ticks : List (ℝ × Option ℝ)) : Prop :=
  (∀ t ∈ ticks, logReturnOf t ≠ none) ∨
    (ticks.length : ℝ) * (returnsOf ticks).length * sumSq (returnsOf ticks) =
      ((ticks.length : ℝ) + (returnsOf ticks).length - 1) * ((returnsOf ticks).sum * (returnsOf ticks).sum)

theorem sampleVariance_ticks_iff {ticks : List (ℝ × Option ℝ)} (h2 : 2 ≤ (returnsOf ticks).length) :
    sampleVariance (ticks.map fun t => (logReturnOf t).getD 0) = sampleVariance (returnsOf ticks) ↔
      DivisorFits ticks := by
  have hperm := perm_append_zeros logReturnOf ticks
  have hlength : ticks.length = (returnsOf ticks).length + ticks.countP fun t => (logReturnOf t).isNone := by
    simpa only [returnsOf, List.length_map, List.length_append, List.length_replicate] using hperm.length_eq
  have hall : (ticks.countP fun t => (logReturnOf t).isNone) = 0 ↔ ∀ t ∈ ticks, logReturnOf t ≠ none := by
    simp [List.countP_eq_zero, Option.isNone_iff_eq_none]
  rw [sampleVariance_perm hperm, ← returnsOf, sampleVariance_append_zeros h2, hall, DivisorFits, hlength, Nat.cast_add,
    show ∀ a b : ℝ, a + b + a - 1 = 2 * a + b - 1 from fun a b => by ring]

theorem two_le_length {ticks : List (ℝ × Option ℝ)} (h2 : 2 ≤ (returnsOf ticks).length) :
    2 ≤ (ticks.map fun t => (logReturnOf t).getD 0).length := by
  rw [List.length_map]
  exact h2.trans (List.length_filterMap_le ..)

theorem sigma_eq {w : RollingWindow ℝ} {parts : List (List ℝ)} (h : List.Forall₂ Bar.Sums w.bars parts)
    (h2 : 2 ≤ parts.flatten.length) : w.sigma = Real.sqrt (sampleVariance parts.flatten) := by
  rw [RollingWindow.sigma, welford_parts h, Welford.stdev, Welford.variance_ofSample h2]
  rfl

theorem sigma_folds_iff {w : RollingWindow ℝ} {parts : List (List (ℝ × Option ℝ))}
    (hw : List.Forall₂ Bar.Folds w.bars parts) (h2 : 2 ≤ (returnsOf parts.flatten).length) :
    w.sigma = Real.sqrt (sampleVariance (returnsOf parts.flatten)) ↔ DivisorFits parts.flatten := by
  have hsums : List.Forall₂ Bar.Sums w.bars (parts.map fun ticks => ticks.map fun t => (logReturnOf t).getD 0) :=
    List.forall₂_map_right_iff.mpr (hw.imp fun _ _ h => h.sums)
  have hlen := two_le_length h2
  have hpos : 1 ≤ (returnsOf parts.flatten).length := by omega
  have hpos' : 1 ≤ (parts.flatten.map fun t => (logReturnOf t).getD 0).length := by omega
  rw [sigma_eq hsums (by rwa [← List.map_flatten]), ← List.map_flatten,
    Real.sqrt_inj (sampleVariance_nonneg hpos') (sampleVariance_nonneg hpos)]
  exact sampleVariance_ticks_iff h2

theorem variance_folds_iff {bar : Bar ℝ} {ticks : List (ℝ × Option ℝ)} (hbar : bar.Folds ticks)
    (h2 : 2 ≤ (returnsOf ticks).length) :
    bar.variance = sampleVariance (returnsOf ticks) ↔ DivisorFits ticks := by
  rw [hbar.sums.variance (two_le_length h2)]
  exact sampleVariance_ticks_iff h2

/-- **The volatility of a window** is the sample deviation of the returns folded into its bars exactly if
they are `DivisorFits`; and so is the variance of one bar. -/
theorem sigma_eq_iff {w : RollingWindow ℝ} {parts : List (List (ℝ × Option ℝ))} {bar : Bar ℝ}
    {ticks : List (ℝ × Option ℝ)} (hw : List.Forall₂ Bar.Folds w.bars parts) (hbar : bar.Folds ticks) :
    (2 ≤ (returnsOf parts.flatten).length →
      (w.sigma = Real.sqrt (sampleVariance (returnsOf parts.flatten)) ↔ DivisorFits parts.flatten)) ∧
    (2 ≤ (returnsOf ticks).length →
      (bar.variance = sampleVariance (returnsOf ticks) ↔ DivisorFits ticks)) :=
  ⟨sigma_folds_iff hw, variance_folds_iff hbar⟩

theorem logReturnOf_rise : logReturnOf (2, some 1) = some (Real.log 2) := by
  rw [logReturnOf, if_pos (by norm_num), div_one]

theorem logReturnOf_fall : logReturnOf (1, some 2) = some (-Real.log 2) := by
  rw [logReturnOf, if_pos (by norm_num), one_div, Real.log_inv]

/-- Two returns, and no tick without one. -/
theorem sigma_of_two_returns : ∃ (w : RollingWindow ℝ) (bar : Bar ℝ), w.bars = [bar] ∧
    bar.Folds [(2, some 1), (1, some 2)] ∧
    w.sigma = Real.sqrt (sampleVariance (returnsOf [[(2, some 1), (1, some 2)]].flatten)) := by
  obtain ⟨bar, hbar⟩ := exists_folds [(2, some 1), (1, some 2)]
  have hreturns : returnsOf [(2, some 1), (1, some 2)] = [Real.log 2, -Real.log 2] := by
    rw [returnsOf, List.filterMap_cons_some logReturnOf_rise, List.filterMap_cons_some logReturnOf_fall]
    rfl
  have hlength : (returnsOf [(2, some 1), (1, some 2)]).length = 2 := by rw [hreturns]; rfl
  refine ⟨⟨3600, [bar]⟩, bar, rfl, hbar, ?_⟩
  have hwindow : List.Forall₂ Bar.Folds [bar] [[(2, some 1), (1, some 2)]] := .cons hbar .nil
  refine ((sigma_eq_iff (w := ⟨3600, [bar]⟩) hwindow hbar).1 hlength.ge).mpr (.inl ?_)
  simp [logReturnOf_rise, logReturnOf_fall]

/-- The first tick of a session has no return: `2 * ln 2 ^ 2` is the variance of the two returns that
follow, and half of it is what the code answers. -/
theorem sigma_after_start : ∃ (w : RollingWindow ℝ) (bar : Bar ℝ), w.bars = [bar] ∧
    bar.Folds [(1, none), (2, some 1), (1, some 2)] ∧
    (returnsOf [[(1, none), (2, some 1), (1, some 2)]].flatten).length = 2 ∧
    w.sigma ≠ Real.sqrt (sampleVariance (returnsOf [[(1, none), (2, some 1), (1, some 2)]].flatten)) ∧
    bar.variance ≠ sampleVariance (returnsOf [(1, none), (2, some 1), (1, some 2)]) := by
  obtain ⟨bar, hbar⟩ := exists_folds [(1, none), (2, some 1), (1, some 2)]
  have hreturns : returnsOf [(1, none), (2, some 1), (1, some 2)] = [Real.log 2, -Real.log 2] := by
    rw [returnsOf, List.filterMap_cons_none rfl, List.filterMap_cons_some logReturnOf_rise,
      List.filterMap_cons_some logReturnOf_fall]
    rfl
  have hlength : (returnsOf [(1, none), (2, some 1), (1, some 2)]).length = 2 := by rw [hreturns]; rfl
  have hlog : 0 < Real.log 2 := Real.log_pos one_lt_two
  have hfits : ¬ DivisorFits [(1, none), (2, some 1), (1, some 2)] := by
    rintro (hall | hsums)
    · exact hall (1, none) (by simp) rfl
    · rw [hreturns] at hsums
      simp only [sumSq, List.map_cons, List.map_nil, List.sum_cons, List.sum_nil, List.length_cons, List.length_nil]
        at hsums
      norm_num at hsums
  refine ⟨⟨3600, [bar]⟩, bar, rfl, hbar, hlength, ?_, ?_⟩
  · exact mt (sigma_folds_iff (w := ⟨3600, [bar]⟩) (.cons hbar .nil) hlength.ge).mp hfits
  · exact mt (variance_folds_iff hbar hlength.ge).mp hfits

end FxTracker
