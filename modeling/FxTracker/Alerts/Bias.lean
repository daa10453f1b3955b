import FxTracker.Alerts.ClosedForm
import FxTracker.Lib.Draws

/-!
# The bias of the deviation

What `stdev` answers on average, after `n` independent samples of one distribution.

The first sample starts with the whole weight, so the variance a baseline has learned is short of the
distribution's by the sum of the squared weights. `debias` is `1 - lam ^ n`, which is what a mean started
at 0 is short of.

* `expect_ewVar` — the learned variance on average
* `stdev_unbiased_iff` — when the correction is the right one
-/

namespace FxTracker.Alerts

variable {lam : ℝ} {n : ℕ}

theorem ofFn_snoc {ι : Type*} (x : ι → ℝ) (draws : Fin n → ι) (i : ι) :
    (List.ofFn fun j => x ((Fin.snoc draws i : Fin (n + 1) → ι) j)) = (List.ofFn fun j => x (draws j)) ++ [x i] := by
  rw [List.ofFn_succ', List.concat_eq_append]
  simp

theorem ofFn_ne_nil (hn : 0 < n) (f : Fin n → ℝ) : List.ofFn f ≠ [] := by
  rw [← List.length_pos_iff, List.length_ofFn]
  exact hn

variable {ι : Type*} [Fintype ι] (law : FiniteLaw ι) (x : ι → ℝ)

/-- One more draw, on average: what the mean is off by. -/
theorem expectation_ewMean_concat {xs : List ℝ} (hxs : xs ≠ []) :
    (law.expectation fun i => (ewMean lam (xs ++ [x i]) - law.expectation x) ^ 2) =
      lam ^ 2 * (ewMean lam xs - law.expectation x) ^ 2 + (1 - lam) ^ 2 * law.variance x := by
  have hterm : ∀ i, (ewMean lam (xs ++ [x i]) - law.expectation x) ^ 2 =
      lam ^ 2 * (ewMean lam xs - law.expectation x) ^ 2 +
        (2 * lam * (1 - lam) * (ewMean lam xs - law.expectation x) * (x i + -law.expectation x) +
          (1 - lam) ^ 2 * (x i - law.expectation x) ^ 2) := by
    intro i
    rw [ewMean_concat hxs]
    ring
  -- the deviations of the draw itself cancel out
  simp only [hterm, law.expectation_add, law.expectation_const, law.expectation_mul, add_neg_cancel, mul_zero, zero_add]
  rfl

/-- What the mean is off by after `n` draws. -/
theorem expect_ewMean (hn : 0 < n) :
    (law.expect n fun draws => (ewMean lam (List.ofFn fun j => x (draws j)) - law.expectation x) ^ 2) =
      law.variance x * ∑ i ∈ Finset.range n, expWeight lam n i ^ 2 := by
  induction n, hn using Nat.le_induction with
  | base => simp [law.expect_succ, FiniteLaw.variance, expWeight, Fin.snoc]
  | succ n hn ih =>
    simp only [law.expect_succ, ofFn_snoc]
    rw [law.expect_congr fun draws => expectation_ewMean_concat law x (ofFn_ne_nil hn _), law.expect_add,
      law.expect_mul, law.expect_const, ih, sum_sq_expWeight_succ hn]
    ring

/-- **The learned variance** after `n` draws: short of the distribution's by the squared weights. -/
theorem expect_ewVar (hn : 0 < n) :
    (law.expect n fun draws => ewVar lam (List.ofFn fun j => x (draws j))) =
      law.variance x * (1 - ∑ i ∈ Finset.range n, expWeight lam n i ^ 2) := by
  induction n, hn using Nat.le_induction with
  | base => simp [law.expect_succ, expWeight]
  | succ n hn ih =>
    have hstep : ∀ draws : Fin n → ι,
        (law.expectation fun i => ewVar lam ((List.ofFn fun j => x (draws j)) ++ [x i])) =
          lam * ewVar lam (List.ofFn fun j => x (draws j)) + (lam * (1 - lam) * law.variance x +
            lam * (1 - lam) * (ewMean lam (List.ofFn fun j => x (draws j)) - law.expectation x) ^ 2) := by
      intro draws
      simp only [ewVar_concat (ofFn_ne_nil hn _), law.expectation_mul, law.expectation_add, law.expectation_const,
        law.expectation_sub_sq]
      ring
    simp only [law.expect_succ, ofFn_snoc]
    rw [law.expect_congr hstep]
    simp only [law.expect_add, law.expect_mul, law.expect_const]
    rw [ih, expect_ewMean law x hn, sum_sq_expWeight_succ hn]
    ring

/-! ## The correction -/

open VolatilityBaseline

attribute [local instance] atLeastTwo_two in
/-- The correction is the right one for `n` samples. -/
def DebiasFits (lam : ℝ) (n : ℕ) : Prop := (1 + lam) * (1 - lam ^ n) = 2 * lam * (1 - lam ^ (2 * n - 2))

theorem debias_eq_iff (h0 : 0 < lam) (hn : 0 < n) :
    1 - lam ^ n = 1 - ∑ i ∈ Finset.range n, expWeight lam n i ^ 2 ↔ DebiasFits lam n := by
  have hne : 1 + lam ≠ 0 := by positivity
  have hright : (1 + lam) * (1 - ∑ i ∈ Finset.range n, expWeight lam n i ^ 2) = 2 * lam * (1 - lam ^ (2 * n - 2)) := by
    rw [mul_sub, sum_sq_expWeight hn, show 2 * n - 1 = 2 * n - 2 + 1 by omega, pow_succ]
    ring
  rw [DebiasFits, ← hright, mul_right_inj' hne]

theorem VolatilityBaseline.Learned.stdev_sq {minSamples : Int} {xs : List ℝ} {b : VolatilityBaseline ℝ}
    (h : Learned lam minSamples xs b) (h0 : 0 < lam) (h1 : lam < 1) (hxs : xs ≠ []) :
    b.stdev ^ 2 = (1 - lam ^ xs.length)⁻¹ * ewVar lam xs := by
  have hpos : 0 < 1 - lam ^ xs.length :=
    sub_pos.mpr (pow_lt_one₀ h0.le h1 (fun hlength => hxs (List.length_eq_zero_iff.mp hlength)))
  have hvar : 0 ≤ ewVar lam xs / (1 - lam ^ xs.length) := div_nonneg (ewVar_nonneg h0 h1 xs) hpos.le
  rw [stdev, h.debias_eq, h.var_eq, if_neg hpos.not_ge, pyMax_eq_max, max_eq_left hvar]
  exact (Real.sq_sqrt hvar).trans (div_eq_inv_mul _ _)

theorem admitted_samples {sigmas : List ℝ} (hs : ∀ sigma ∈ sigmas, measurable sigma = true) :
    admitted false (sigmas.map .observe) = sigmas.map Real.log := by
  induction sigmas with
  | nil => rfl
  | cons sigma sigmas ih =>
    rw [List.map_cons, List.map_cons, admitted, if_pos (hs sigma List.mem_cons_self),
      ih fun s hmem => hs s (List.mem_cons_of_mem _ hmem)]

/-- A new baseline takes the samples. -/
theorem exists_learned {sigmas : List ℝ} (hs : ∀ sigma ∈ sigmas, measurable sigma = true) (lam : ℝ) (minSamples : Int) :
    ∃ b, (fresh lam minSamples).calls (sigmas.map .observe) = some b ∧
      Learned lam minSamples (sigmas.map Real.log) b := by
  have hfresh : Learned lam minSamples [] (fresh lam minSamples) := learned_fresh
  have hcalls := hfresh.calls (sigmas.map .observe)
  rwa [List.nil_append, show (fresh lam minSamples).frozen = false from rfl, admitted_samples hs] at hcalls

omit [Fintype ι] in
/-- The baselines after `n` draws. -/
theorem exists_learned_draws {sigma : ι → ℝ} (hs : ∀ i, measurable (sigma i) = true) (lam : ℝ) (n : ℕ)
    (minSamples : Int) :
    ∃ b : (Fin n → ι) → VolatilityBaseline ℝ, ∀ draws,
      (fresh lam minSamples).calls (List.ofFn fun j => .observe (sigma (draws j))) = some (b draws) ∧
        Learned lam minSamples (List.ofFn fun j => Real.log (sigma (draws j))) (b draws) := by
  have hone : ∀ draws : Fin n → ι, ∃ b,
      (fresh lam minSamples).calls (List.ofFn fun j => .observe (sigma (draws j))) = some b ∧
        Learned lam minSamples (List.ofFn fun j => Real.log (sigma (draws j))) b := by
    intro draws
    have hmeasurable : ∀ s ∈ List.ofFn fun j => sigma (draws j), measurable s = true := by
      intro s hmem
      obtain ⟨j, rfl⟩ := List.mem_ofFn.mp hmem
      exact hs _
    simpa only [List.map_ofFn, Function.comp_def] using exists_learned hmeasurable lam minSamples
  choose b hb using hone
  exact ⟨b, hb⟩

/-- The square of the deviation, on average. -/
theorem expect_stdev_sq {sigma : ι → ℝ} (h0 : 0 < lam) (h1 : lam < 1) (hn : 0 < n) {minSamples : Int}
    {b : (Fin n → ι) → VolatilityBaseline ℝ}
    (hb : ∀ draws, Learned lam minSamples (List.ofFn fun j => Real.log (sigma (draws j))) (b draws)) :
    (law.expect n fun draws => (b draws).stdev ^ 2) = (1 - lam ^ n)⁻¹ *
      (law.variance (fun i => Real.log (sigma i)) * (1 - ∑ i ∈ Finset.range n, expWeight lam n i ^ 2)) := by
  have hstdev : ∀ draws, (b draws).stdev ^ 2 =
      (1 - lam ^ n)⁻¹ * ewVar lam (List.ofFn fun j => Real.log (sigma (draws j))) := fun draws => by
    rw [(hb draws).stdev_sq h0 h1 (ofFn_ne_nil hn _), List.length_ofFn]
  rw [law.expect_congr hstdev, law.expect_mul]
  exact congrArg _ (expect_ewVar law (fun i => Real.log (sigma i)) hn)

/-- **The bias**: the square of the deviation is the variance on average exactly if the variance is 0 or the
correction fits; and the correction is one minus the sum of the squared weights exactly if it fits. -/
theorem stdev_unbiased_iff {sigma : ι → ℝ} (hs : ∀ i, measurable (sigma i) = true) (h0 : 0 < lam) (h1 : lam < 1)
    (hn : 2 ≤ n) (minSamples : Int) :
    ∃ b : (Fin n → ι) → VolatilityBaseline ℝ,
      (∀ draws, (fresh lam minSamples).calls (List.ofFn fun j => .observe (sigma (draws j))) = some (b draws)) ∧
      ((law.expect n fun draws => (b draws).stdev ^ 2) = law.variance (fun i => Real.log (sigma i)) ↔
        law.variance (fun i => Real.log (sigma i)) = 0 ∨ DebiasFits lam n) ∧
      ((∀ draws, (b draws).debias = 1 - ∑ i ∈ Finset.range n, expWeight lam n i ^ 2) ↔ DebiasFits lam n) := by
  have hpos : 0 < n := by omega
  obtain ⟨b, hb⟩ := exists_learned_draws hs lam n minSamples
  have hdivisor : 1 - lam ^ n ≠ 0 := (sub_pos.mpr (pow_lt_one₀ h0.le h1 hpos.ne')).ne'
  refine ⟨b, fun draws => (hb draws).1, ?_, ?_⟩
  · rw [expect_stdev_sq law h0 h1 hpos fun draws => (hb draws).2, inv_mul_eq_iff_eq_mul₀ hdivisor,
      ← debias_eq_iff h0 hpos, mul_comm (1 - lam ^ n), mul_eq_mul_left_iff, or_comm]
    exact or_congr_right eq_comm
  · have hdebias : ∀ draws, (b draws).debias = 1 - lam ^ n := fun draws => by
      rw [(hb draws).2.debias_eq, List.length_ofFn]
    have : Nonempty ι := by
      by_contra hempty
      have hsum := law.sum_eq_one
      rw [not_nonempty_iff] at hempty
      simp at hsum
    rw [← debias_eq_iff h0 hpos]
    constructor
    · intro hall
      rw [← hdebias fun _ => Classical.arbitrary ι]
      exact hall _
    · intro heq draws
      rw [hdebias, heq]

/-! ### Two samples of a coin -/

attribute [local instance] atLeastTwo_two in
/-- Both outcomes alike. -/
noncomputable def fairCoin : FiniteLaw Bool where
  prob _ := 1 / 2
  nonneg _ := by norm_num
  sum_eq_one := by norm_num

/-- Volatilities whose logarithms are 1 and 0. -/
noncomputable def coinSigma (heads : Bool) : ℝ := if heads then Real.exp 1 else 1

theorem measurable_coinSigma (heads : Bool) : measurable (coinSigma heads) = true := by
  have hfloor : (minSigma : ℝ) < 1 := by norm_num [minSigma]
  rw [measurable_iff]
  cases heads with
  | false => exact hfloor
  | true => exact hfloor.trans_le (Real.one_le_exp zero_le_one)

theorem variance_coin : fairCoin.variance (fun heads => Real.log (coinSigma heads)) = 1 / 4 := by
  norm_num [FiniteLaw.variance, FiniteLaw.expectation, fairCoin, coinSigma]

theorem stdev_biased_coin : ∃ b : (Fin 2 → Bool) → VolatilityBaseline ℝ,
    (∀ draws, (fresh (1 / 2) 30).calls (List.ofFn fun j => .observe (coinSigma (draws j))) = some (b draws)) ∧
      (fairCoin.expect 2 fun draws => (b draws).stdev ^ 2) ≠
        fairCoin.variance (fun heads => Real.log (coinSigma heads)) := by
  obtain ⟨b, hb, hiff, -⟩ := stdev_unbiased_iff fairCoin measurable_coinSigma (by norm_num : (0 : ℝ) < 1 / 2)
    (by norm_num) (le_refl 2) 30
  refine ⟨b, hb, mt hiff.mp ?_⟩
  rw [variance_coin]
  norm_num [DebiasFits]

/-- A quarter is the variance of the coin; the square of the deviation is a sixth on average. -/
theorem stdev_coin_sixth : ∃ b : (Fin 2 → Bool) → VolatilityBaseline ℝ,
    (∀ draws, (fresh (1 / 2) 30).calls (List.ofFn fun j => .observe (coinSigma (draws j))) = some (b draws)) ∧
      (fairCoin.expect 2 fun draws => (b draws).stdev ^ 2) = 1 / 6 ∧
      fairCoin.variance (fun heads => Real.log (coinSigma heads)) = 1 / 4 ∧
      ∀ draws, (b draws).debias = 3 / 4 ∧ 1 - ∑ i ∈ Finset.range 2, expWeight (1 / 2 : ℝ) 2 i ^ 2 = 1 / 2 := by
  obtain ⟨b, hb⟩ := exists_learned_draws measurable_coinSigma (1 / 2) 2 30
  refine ⟨b, fun draws => (hb draws).1, ?_, variance_coin, fun draws => ⟨?_, ?_⟩⟩
  · rw [expect_stdev_sq fairCoin (by norm_num) (by norm_num) (by norm_num) fun draws => (hb draws).2, variance_coin]
    norm_num [Finset.sum_range_succ, expWeight]
  · rw [(hb draws).2.debias_eq, List.length_ofFn]
    norm_num
  · norm_num [Finset.sum_range_succ, expWeight]

end FxTracker.Alerts
