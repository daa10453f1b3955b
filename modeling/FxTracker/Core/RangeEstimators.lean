import FxTracker.Core.Exact
import FxTracker.Lib.Moments
import Mathlib.Analysis.SpecialFunctions.Log.Deriv
import Mathlib.Analysis.Complex.ExponentialBounds

/-!
# Range-based volatility estimators

`fx_core/volatility/range_estimators.py`. `none` stands for an exception. Each estimator is the root of a
variance, which is named apart from the guard the root is taken under.

* `SameEstimates` — what no change of units or of the quoted side may touch
* `range_estimators_sound` — over exact arithmetic no variance is negative, and both symmetries hold
-/

namespace FxTracker.RangeEstimators

section Code

variable {K : Type} [FloatMath K] [LE K] [DecidableLE K]

/-- `_ln`: the logarithm of a ratio of two positive prices. -/
def ln (a b : K) : Option K := if a ≤ 0 ∨ b ≤ 0 then none else FloatOps.log (a / b)

/-- `itertools.pairwise`. -/
def pairwise {α : Type} (xs : List α) : List (α × α) := xs.zip xs.tail

def squared (x : K) : K := x * x

/-- `_MIN_BARS`. -/
def minBars : Nat := 3

/-- `_FOUR_LN2`. -/
def fourLn2 : Option K := (FloatOps.log ((2 : ℕ) : K)).map fun x => (4 : ℕ) * x

/-- `_TWO_LN2_MINUS_1`. -/
def twoLn2Minus1 : Option K := (FloatOps.log ((2 : ℕ) : K)).map fun x => (2 : ℕ) * x - (1 : ℕ)

/-- The sample variance of the logarithms between consecutive closes. -/
def closeToCloseVariance (bars : List (Bar K)) : Option K := do
  let rets ← (pairwise bars).mapM fun p => ln p.2.close p.1.close
  let n := rets.length
  let mean := FloatMath.sum rets / (n : K)
  return FloatMath.sum (rets.map fun r => squared (r - mean)) / ((n - 1 : ℕ) : K)

def parkinsonVariance (bars : List (Bar K)) : Option K := do
  let terms ← bars.mapM fun b => (ln b.high b.low).map squared
  let fourLn2 : K ← fourLn2
  return FloatMath.sum terms / (fourLn2 * (bars.length : K))

/-- The term of one bar. -/
def garmanKlassTerm (twoLn2Minus1 : K) (b : Bar K) : Option K := do
  let hl ← ln b.high b.low
  let co ← ln b.close b.opening
  return (1 : ℕ) / (2 : ℕ) * squared hl - twoLn2Minus1 * squared co

def garmanKlassVariance (bars : List (Bar K)) : Option K := do
  let twoLn2Minus1 : K ← twoLn2Minus1
  let terms ← bars.mapM (garmanKlassTerm twoLn2Minus1)
  return FloatMath.sum terms / (bars.length : K)

def rogersSatchellTerm (b : Bar K) : Option K := do
  let hc ← ln b.high b.close
  let ho ← ln b.high b.opening
  let lc ← ln b.low b.close
  let lo ← ln b.low b.opening
  return hc * ho + lc * lo

def rogersSatchellVariance (bars : List (Bar K)) : Option K := do
  let total ← bars.foldlM (fun total b => (rogersSatchellTerm b).map (total + ·)) 0
  return total / (bars.length : K)

/-- `_var`. -/
def var (xs : List K) : K :=
  let m := FloatMath.sum xs / (xs.length : K)
  FloatMath.sum (xs.map fun x => squared (x - m)) / ((xs.length - 1 : ℕ) : K)

/-- The authors' weight for `n` bars. -/
def defaultK (n : Nat) : K :=
  (34 : ℕ) / (100 : ℕ) / ((134 : ℕ) / (100 : ℕ) + ((n + 1 : ℕ) : K) / ((n - 1 : ℕ) : K))

variable [LT K] [DecidableLT K]

/-- `math.sqrt(max(v, 0.0))`. -/
def guardedRoot (v : K) : K := FloatMath.sqrt (pyMax v 0)

def closeToClose (bars : List (Bar K)) : Option K :=
  if bars.length < minBars then some 0 else (closeToCloseVariance bars).map guardedRoot

def parkinson (bars : List (Bar K)) : Option K :=
  if bars.isEmpty then some 0 else (parkinsonVariance bars).map guardedRoot

def garmanKlass (bars : List (Bar K)) : Option K :=
  if bars.isEmpty then some 0 else (garmanKlassVariance bars).map guardedRoot

def rogersSatchell (bars : List (Bar K)) : Option K :=
  if bars.isEmpty then some 0 else (rogersSatchellVariance bars).map guardedRoot

def yangZhangVariance (bars : List (Bar K)) (k : Option K) : Option K := do
  let overnight ← (pairwise bars).mapM fun p => ln p.2.opening p.1.close
  let openClose ← bars.tail.mapM fun b => ln b.close b.opening
  let vRs := squared (← rogersSatchell bars.tail)
  let k := k.getD (defaultK bars.length)
  return var overnight + k * var openClose + ((1 : ℕ) - k) * vRs

/-- `yang_zhang`; `k` is `none` for the default. -/
def yangZhang (bars : List (Bar K)) (k : Option K) : Option K :=
  if bars.length < minBars then some 0 else (yangZhangVariance bars k).map guardedRoot

end Code

/-! ## Two symmetries -/

/-- Every price in other units. -/
noncomputable def scaled (c : ℝ) (b : Bar ℝ) : Bar ℝ :=
  { b with opening := c * b.opening, high := c * b.high, low := c * b.low, close := c * b.close }

/-- The quote of the inverse pair. -/
noncomputable def inverted (b : Bar ℝ) : Bar ℝ :=
  { b with opening := 1 / b.opening, high := 1 / b.low, low := 1 / b.high, close := 1 / b.close }

/-- All five estimators answer alike. -/
structure SameEstimates (bars bars' : List (Bar ℝ)) : Prop where
  closeToClose : closeToClose bars' = closeToClose bars
  parkinson : parkinson bars' = parkinson bars
  garmanKlass : garmanKlass bars' = garmanKlass bars
  rogersSatchell : rogersSatchell bars' = rogersSatchell bars
  yangZhang : ∀ k, yangZhang bars' k = yangZhang bars k

theorem ln_eq {a b : ℝ} (ha : 0 < a) (hb : 0 < b) : ln a b = some (Real.log a - Real.log b) := by
  rw [ln, if_neg (by simp [ha, hb]), log_eq (div_pos ha hb), Real.log_div ha.ne' hb.ne']

theorem ln_eq_none {a b : ℝ} (h : a ≤ 0 ∨ b ≤ 0) : ln a b = none := if_pos h

theorem ln_scaled {c : ℝ} (hc : 0 < c) (a b : ℝ) : ln (c * a) (c * b) = ln a b := by
  have hsign : ∀ x : ℝ, c * x ≤ 0 ↔ x ≤ 0 := fun x => by rw [← not_lt, mul_pos_iff_of_pos_left hc, not_lt]
  unfold ln
  simp only [hsign, mul_div_mul_left a b hc.ne']

theorem ln_swap (a b : ℝ) : ln b a = (ln a b).map Neg.neg := by
  by_cases h : a ≤ 0 ∨ b ≤ 0
  · rw [ln_eq_none h, ln_eq_none h.symm, Option.map_none]
  · obtain ⟨ha, hb⟩ := not_or.mp h
    rw [ln_eq (not_le.mp ha) (not_le.mp hb), ln_eq (not_le.mp hb) (not_le.mp ha), Option.map_some, neg_sub]

theorem ln_inverted (a b : ℝ) : ln (1 / a) (1 / b) = ln b a := by
  unfold ln
  have hquotient : 1 / a / (1 / b) = b / a := by simp [div_eq_mul_inv, mul_comm]
  simp only [one_div_nonpos, hquotient, or_comm]

/-- A loop that may fail, over other items. -/
theorem mapM_neg {α : Type} (f : α → Option ℝ) (xs : List α) :
    (xs.mapM fun x => (f x).map Neg.neg) = (xs.mapM f).map (List.map Neg.neg) := by
  induction xs with
  | nil => rfl
  | cons x xs ih =>
    simp only [List.mapM_cons, ih, Option.bind_eq_bind, Option.pure_def]
    cases f x with
    | none => rfl
    | some y => cases xs.mapM f <;> rfl

theorem pairwise_map {α β : Type} (f : α → β) (xs : List α) :
    pairwise (xs.map f) = (pairwise xs).map (Prod.map f f) := by
  rw [pairwise, pairwise, ← List.map_tail, List.zip_map]

/-- `_var` is the sample variance. -/
theorem var_eq (xs : List ℝ) : var xs = sampleVariance xs := by
  unfold var sampleVariance sqDev
  by_cases hxs : xs = []
  · simp [hxs, FloatMath.sum]
  · rw [Nat.cast_sub (List.length_pos_iff.mpr hxs), Nat.cast_one]
    rfl

theorem closeToCloseVariance_eq (bars : List (Bar ℝ)) :
    closeToCloseVariance bars = ((pairwise bars).mapM fun p => ln p.2.close p.1.close).map sampleVariance := by
  unfold closeToCloseVariance
  simp only [Option.bind_eq_bind, Option.pure_def, Option.map_eq_bind]
  refine congrArg _ (funext fun rets => ?_)
  exact congrArg some (var_eq rets)

theorem rogersSatchellVariance_eq (bars : List (Bar ℝ)) :
    rogersSatchellVariance bars =
      (bars.mapM rogersSatchellTerm).map fun terms => terms.sum / (bars.length : ℝ) := by
  have hloop : ∀ total : ℝ, (bars.foldlM (fun total b => (rogersSatchellTerm b).map (total + ·)) total) =
      (bars.mapM rogersSatchellTerm).map fun terms => total + terms.sum := by
    induction bars with
    | nil => intro total; simp
    | cons b bars ih =>
      intro total
      simp only [List.foldlM_cons, List.mapM_cons, Option.bind_eq_bind, Option.pure_def]
      cases rogersSatchellTerm b with
      | none => rfl
      | some x =>
        simp only [Option.map_some, Option.bind_some, ih]
        cases bars.mapM rogersSatchellTerm with
        | none => rfl
        | some terms => simp [add_assoc]
  unfold rogersSatchellVariance
  rw [hloop]
  cases bars.mapM rogersSatchellTerm with
  | none => rfl
  | some terms => simp

theorem yangZhangVariance_eq (bars : List (Bar ℝ)) (k : Option ℝ) :
    yangZhangVariance bars k =
      ((pairwise bars).mapM fun p => ln p.2.opening p.1.close).bind fun overnight =>
        (bars.tail.mapM fun b => ln b.close b.opening).bind fun openClose =>
          (rogersSatchell bars.tail).map fun rs =>
            sampleVariance overnight + k.getD (defaultK bars.length) * sampleVariance openClose +
              (1 - k.getD (defaultK bars.length)) * (rs * rs) := by
  unfold yangZhangVariance
  simp only [Option.bind_eq_bind, Option.pure_def, var_eq, Nat.cast_one, Option.map_eq_bind]
  rfl

/-! ### Other units -/

section Scaled

variable {c : ℝ} (hc : 0 < c)
include hc

theorem garmanKlassTerm_scaled (t : ℝ) (b : Bar ℝ) : garmanKlassTerm t (scaled c b) = garmanKlassTerm t b := by
  simp [garmanKlassTerm, scaled, ln_scaled hc]

theorem rogersSatchell_scaled (bars : List (Bar ℝ)) :
    rogersSatchell (bars.map (scaled c)) = rogersSatchell bars := by
  simp [rogersSatchell, rogersSatchellVariance, rogersSatchellTerm, scaled, ln_scaled hc, List.foldlM_map]

theorem sameEstimates_scaled (bars : List (Bar ℝ)) : SameEstimates bars (bars.map (scaled c)) := by
  refine ⟨?_, ?_, ?_, rogersSatchell_scaled hc bars, fun k => ?_⟩
  · simp [closeToClose, closeToCloseVariance, pairwise_map, List.mapM_map, Function.comp_def, scaled, ln_scaled hc]
  · simp [parkinson, parkinsonVariance, List.mapM_map, Function.comp_def, scaled, ln_scaled hc]
  · simp [garmanKlass, garmanKlassVariance, List.mapM_map, Function.comp_def, garmanKlassTerm_scaled hc]
  · simp only [yangZhang, yangZhangVariance, pairwise_map, ← List.map_tail, rogersSatchell_scaled hc, List.mapM_map,
      List.length_map]
    simp [Function.comp_def, scaled, ln_scaled hc]

end Scaled

/-! ### The inverse pair -/

theorem ln_inverted_neg (a b : ℝ) : ln (1 / a) (1 / b) = (ln a b).map Neg.neg := by
  rw [ln_inverted, ln_swap]

theorem ln_range_inverted (b : Bar ℝ) : ln (inverted b).high (inverted b).low = ln b.high b.low :=
  ln_inverted b.low b.high

/-- High and low change places, and what opened above has closed below. -/
theorem garmanKlassTerm_inverted (t : ℝ) (b : Bar ℝ) :
    garmanKlassTerm t (inverted b) = garmanKlassTerm t b := by
  have hco : ln (inverted b).close (inverted b).opening = (ln b.close b.opening).map Neg.neg :=
    ln_inverted_neg b.close b.opening
  unfold garmanKlassTerm
  rw [ln_range_inverted, hco]
  cases ln b.high b.low with
  | none => rfl
  | some hl => cases ln b.close b.opening <;> simp [squared]

theorem rogersSatchellTerm_inverted (b : Bar ℝ) : rogersSatchellTerm (inverted b) = rogersSatchellTerm b := by
  unfold rogersSatchellTerm inverted
  simp only [ln_inverted_neg]
  cases ln b.high b.close <;> cases ln b.high b.opening <;> cases ln b.low b.close <;> cases ln b.low b.opening <;>
    simp [add_comm]

theorem rogersSatchell_inverted (bars : List (Bar ℝ)) :
    rogersSatchell (bars.map inverted) = rogersSatchell bars := by
  simp [rogersSatchell, rogersSatchellVariance, rogersSatchellTerm_inverted, List.foldlM_map]

theorem closeToCloseVariance_inverted (bars : List (Bar ℝ)) :
    closeToCloseVariance (bars.map inverted) = closeToCloseVariance bars := by
  have hrets : ((pairwise (bars.map inverted)).mapM fun p => ln p.2.close p.1.close) =
      ((pairwise bars).mapM fun p => ln p.2.close p.1.close).map (List.map Neg.neg) := by
    rw [pairwise_map, List.mapM_map, ← mapM_neg]
    exact congrArg (List.mapM · _) (funext fun p => ln_inverted_neg p.2.close p.1.close)
  rw [closeToCloseVariance_eq, closeToCloseVariance_eq, hrets, Option.map_map]
  exact congrArg (Option.map · _) (funext sampleVariance_neg)

theorem yangZhangVariance_inverted (bars : List (Bar ℝ)) (k : Option ℝ) :
    yangZhangVariance (bars.map inverted) k = yangZhangVariance bars k := by
  have hovernight : ((pairwise (bars.map inverted)).mapM fun p => ln p.2.opening p.1.close) =
      ((pairwise bars).mapM fun p => ln p.2.opening p.1.close).map (List.map Neg.neg) := by
    rw [pairwise_map, List.mapM_map, ← mapM_neg]
    exact congrArg (List.mapM · _) (funext fun p => ln_inverted_neg p.2.opening p.1.close)
  have hopenClose : ((bars.tail.map inverted).mapM fun b => ln b.close b.opening) =
      (bars.tail.mapM fun b => ln b.close b.opening).map (List.map Neg.neg) := by
    rw [List.mapM_map, ← mapM_neg]
    exact congrArg (List.mapM · _) (funext fun b => ln_inverted_neg b.close b.opening)
  rw [yangZhangVariance_eq, yangZhangVariance_eq, hovernight, ← List.map_tail, hopenClose, rogersSatchell_inverted,
    List.length_map, Option.bind_map]
  refine congrArg _ (funext fun overnight => ?_)
  simp only [Function.comp_apply, Option.bind_map, sampleVariance_neg]

theorem sameEstimates_inverted (bars : List (Bar ℝ)) : SameEstimates bars (bars.map inverted) where
  closeToClose := by rw [closeToClose, closeToClose, closeToCloseVariance_inverted, List.length_map]
  parkinson := by
    simp [parkinson, parkinsonVariance, List.mapM_map, Function.comp_def, ln_range_inverted]
  garmanKlass := by
    simp [garmanKlass, garmanKlassVariance, List.mapM_map, Function.comp_def, garmanKlassTerm_inverted]
  rogersSatchell := rogersSatchell_inverted bars
  yangZhang k := by rw [yangZhang, yangZhang, yangZhangVariance_inverted, List.length_map]

/-! ## No variance is negative -/

/-- Prices as they come about in a bar. -/
structure Ordered (b : Bar ℝ) : Prop where
  low_pos : 0 < b.low
  low_le_opening : b.low ≤ b.opening
  low_le_close : b.low ≤ b.close
  opening_le_high : b.opening ≤ b.high
  close_le_high : b.close ≤ b.high

namespace Ordered

variable {b : Bar ℝ} (h : Ordered b)
include h

theorem opening_pos : 0 < b.opening := h.low_pos.trans_le h.low_le_opening

theorem close_pos : 0 < b.close := h.low_pos.trans_le h.low_le_close

theorem high_pos : 0 < b.high := h.opening_pos.trans_le h.opening_le_high

end Ordered

theorem mapM_eq_some_map {α β : Type} {f : α → Option β} {g : α → β} {xs : List α}
    (h : ∀ x ∈ xs, f x = some (g x)) : xs.mapM f = some (xs.map g) := by
  induction xs with
  | nil => rfl
  | cons x xs ih =>
    rw [List.mapM_cons, h x List.mem_cons_self, ih fun y hy => h y (List.mem_cons_of_mem x hy)]
    rfl

/-- The variance comes about, and the guard leaves it as it is. -/
def Unguarded (variance estimate : Option ℝ) : Prop := ∃ v, variance = some v ∧ 0 ≤ v ∧ estimate = some (Real.sqrt v)

theorem unguarded_of {variance estimate : Option ℝ} {v : ℝ} (hv : variance = some v) (h0 : 0 ≤ v)
    (hestimate : estimate = variance.map guardedRoot) : Unguarded variance estimate := by
  refine ⟨v, hv, h0, ?_⟩
  rw [hestimate, hv, Option.map_some, guardedRoot, pyMax_eq_max, max_eq_left h0]
  rfl

theorem log_two_eq : FloatOps.log ((2 : ℕ) : ℝ) = some (Real.log 2) := by
  rw [log_eq (by norm_num), Nat.cast_ofNat]

/-- The terms of one bar. -/
theorem Ordered.garmanKlassTerm {b : Bar ℝ} (h : Ordered b) {t : ℝ} (ht : t ≤ 1 / 2) :
    ∃ x, garmanKlassTerm t b = some x ∧ 0 ≤ x := by
  rw [RangeEstimators.garmanKlassTerm, ln_eq h.high_pos h.low_pos, ln_eq h.close_pos h.opening_pos]
  refine ⟨_, rfl, ?_⟩
  -- open and close lie between low and high
  have hopen := Real.log_le_log h.low_pos h.low_le_opening
  have hclose := Real.log_le_log h.low_pos h.low_le_close
  have hopen' := Real.log_le_log h.opening_pos h.opening_le_high
  have hclose' := Real.log_le_log h.close_pos h.close_le_high
  have hmove : |Real.log b.close - Real.log b.opening| ≤ Real.log b.high - Real.log b.low :=
    abs_le.mpr ⟨by linarith, by linarith⟩
  have hsquares : (Real.log b.close - Real.log b.opening) ^ 2 ≤ (Real.log b.high - Real.log b.low) ^ 2 :=
    sq_le_sq' (by linarith [abs_le.mp hmove]) (abs_le.mp hmove).2
  have hpart : t * (Real.log b.close - Real.log b.opening) ^ 2 ≤ 1 / 2 * (Real.log b.close - Real.log b.opening) ^ 2 :=
    mul_le_mul_of_nonneg_right ht (sq_nonneg _)
  unfold squared
  push_cast
  nlinarith

theorem Ordered.rogersSatchellTerm {b : Bar ℝ} (h : Ordered b) :
    ∃ x, rogersSatchellTerm b = some x ∧ 0 ≤ x := by
  refine ⟨_, by
    rw [RangeEstimators.rogersSatchellTerm, ln_eq h.high_pos h.close_pos, ln_eq h.high_pos h.opening_pos,
      ln_eq h.low_pos h.close_pos, ln_eq h.low_pos h.opening_pos]
    rfl, ?_⟩
  have hopen := Real.log_le_log h.low_pos h.low_le_opening
  have hclose := Real.log_le_log h.low_pos h.low_le_close
  have hopen' := Real.log_le_log h.opening_pos h.opening_le_high
  have hclose' := Real.log_le_log h.close_pos h.close_le_high
  have habove := mul_nonneg (sub_nonneg.mpr hclose') (sub_nonneg.mpr hopen')
  have hbelow := mul_nonneg_of_nonpos_of_nonpos (sub_nonpos.mpr hclose) (sub_nonpos.mpr hopen)
  exact add_nonneg habove hbelow

/-- A loop over bars each of which has a term that is not negative. -/
theorem exists_sum_nonneg {α : Type} {f : α → Option ℝ} {xs : List α}
    (h : ∀ x ∈ xs, ∃ y, f x = some y ∧ 0 ≤ y) : ∃ ys, xs.mapM f = some ys ∧ 0 ≤ ys.sum := by
  induction xs with
  | nil => exact ⟨[], rfl, le_rfl⟩
  | cons x xs ih =>
    obtain ⟨y, hy, hpos⟩ := h x List.mem_cons_self
    obtain ⟨ys, hys, hsum⟩ := ih fun z hz => h z (List.mem_cons_of_mem x hz)
    refine ⟨y :: ys, ?_, ?_⟩
    · rw [List.mapM_cons, hy, hys]
      rfl
    · rw [List.sum_cons]
      exact add_nonneg hpos hsum

/-- The weight lies between 0 and 1. -/
theorem defaultK_bounds {n : ℕ} (h : 3 ≤ n) : 0 ≤ (defaultK n : ℝ) ∧ (defaultK n : ℝ) ≤ 1 := by
  have hratio : 0 ≤ ((n + 1 : ℕ) : ℝ) / ((n - 1 : ℕ) : ℝ) := by positivity
  unfold defaultK
  push_cast at hratio ⊢
  constructor
  · positivity
  · rw [div_le_one (by positivity)]
    linarith

variable {bars : List (Bar ℝ)}

theorem isEmpty_eq_false (hne : bars ≠ []) : bars.isEmpty = false := by
  simpa using hne

section

variable (hbars : ∀ b ∈ bars, Ordered b)
include hbars

theorem mem_pairwise {p : Bar ℝ × Bar ℝ} (hp : p ∈ pairwise bars) : Ordered p.1 ∧ Ordered p.2 := by
  obtain ⟨h₁, h₂⟩ := List.of_mem_zip hp
  exact ⟨hbars _ h₁, hbars _ (List.mem_of_mem_tail h₂)⟩

/-- The logarithms between neighbours, of any two prices of theirs. -/
theorem mapM_pairwise {f g : Bar ℝ → ℝ} (hf : ∀ b, Ordered b → 0 < f b) (hg : ∀ b, Ordered b → 0 < g b) :
    ((pairwise bars).mapM fun p => ln (f p.2) (g p.1)) =
      some ((pairwise bars).map fun p => Real.log (f p.2) - Real.log (g p.1)) :=
  mapM_eq_some_map fun _ hp => ln_eq (hf _ (mem_pairwise hbars hp).2) (hg _ (mem_pairwise hbars hp).1)

theorem unguarded_closeToClose (hlength : 3 ≤ bars.length) :
    Unguarded (closeToCloseVariance bars) (closeToClose bars) := by
  have hrets := mapM_pairwise hbars (fun _ h => h.close_pos) (fun _ h => h.close_pos)
  refine unguarded_of (by rw [closeToCloseVariance_eq, hrets, Option.map_some]) (sampleVariance_nonneg ?_)
    (if_neg (by unfold minBars; omega))
  simp only [pairwise, List.length_map, List.length_zip, List.length_tail]
  omega

theorem unguarded_parkinson (hne : bars ≠ []) : Unguarded (parkinsonVariance bars) (parkinson bars) := by
  obtain ⟨terms, hterms, hsum⟩ := exists_sum_nonneg (f := fun b : Bar ℝ => (ln b.high b.low).map squared) fun b hb =>
    ⟨_, by rw [ln_eq (hbars b hb).high_pos (hbars b hb).low_pos]; rfl, mul_self_nonneg _⟩
  have hlog : 0 < Real.log 2 := Real.log_pos one_lt_two
  refine unguarded_of (v := terms.sum / ((4 : ℕ) * Real.log 2 * bars.length)) ?_ ?_
    (if_neg (by simp [isEmpty_eq_false hne]))
  · rw [parkinsonVariance, hterms, fourLn2, log_two_eq]
    rfl
  · exact div_nonneg hsum (by positivity)

theorem unguarded_garmanKlass (hne : bars ≠ []) : Unguarded (garmanKlassVariance bars) (garmanKlass bars) := by
  have hbound : ((2 : ℕ) * Real.log 2 - (1 : ℕ) : ℝ) ≤ 1 / 2 := by
    have := Real.log_two_lt_d9
    push_cast
    linarith
  obtain ⟨terms, hterms, hsum⟩ := exists_sum_nonneg fun b hb => (hbars b hb).garmanKlassTerm hbound
  refine unguarded_of (v := terms.sum / bars.length) ?_ (div_nonneg hsum (by positivity))
    (if_neg (by simp [isEmpty_eq_false hne]))
  rw [garmanKlassVariance, twoLn2Minus1, log_two_eq]
  simp only [Option.map_some, Option.bind_eq_bind, Option.bind_some, hterms]
  rfl

theorem exists_rogersSatchellVariance : ∃ v, rogersSatchellVariance bars = some v ∧ 0 ≤ v := by
  obtain ⟨terms, hterms, hsum⟩ := exists_sum_nonneg fun b hb => (hbars b hb).rogersSatchellTerm
  refine ⟨terms.sum / bars.length, ?_, div_nonneg hsum (by positivity)⟩
  rw [rogersSatchellVariance_eq, hterms, Option.map_some]

theorem unguarded_rogersSatchell (hne : bars ≠ []) :
    Unguarded (rogersSatchellVariance bars) (rogersSatchell bars) := by
  obtain ⟨v, hv, h0⟩ := exists_rogersSatchellVariance hbars
  exact unguarded_of hv h0 (if_neg (by simp [isEmpty_eq_false hne]))

theorem unguarded_yangZhang (hlength : 3 ≤ bars.length) :
    Unguarded (yangZhangVariance bars none) (yangZhang bars none) := by
  have hovernight := mapM_pairwise hbars (fun _ h => h.opening_pos) (fun _ h => h.close_pos)
  have htail : ∀ b ∈ bars.tail, Ordered b := fun b hb => hbars b (List.mem_of_mem_tail hb)
  have hopenClose := mapM_eq_some_map (f := fun b : Bar ℝ => ln b.close b.opening) fun b hb =>
    ln_eq (htail b hb).close_pos (htail b hb).opening_pos
  have hne : bars.tail ≠ [] := by
    rw [← List.length_pos_iff, List.length_tail]
    omega
  obtain ⟨v, -, -, hrs⟩ := unguarded_rogersSatchell htail hne
  obtain ⟨hk, hk1⟩ := defaultK_bounds hlength
  refine unguarded_of (by rw [yangZhangVariance_eq, hovernight, hopenClose, hrs]; rfl) ?_
    (if_neg (by unfold minBars; omega))
  have hfirst : 0 ≤ sampleVariance ((pairwise bars).map fun p => Real.log p.2.opening - Real.log p.1.close) :=
    sampleVariance_nonneg (by simp only [pairwise, List.length_map, List.length_zip, List.length_tail]; omega)
  have hsecond : 0 ≤ sampleVariance (bars.tail.map fun b => Real.log b.close - Real.log b.opening) :=
    sampleVariance_nonneg (by simp only [List.length_map, List.length_tail]; omega)
  exact add_nonneg (add_nonneg hfirst (mul_nonneg hk hsecond)) (mul_nonneg (sub_nonneg.mpr hk1) (mul_self_nonneg _))

/-- **Well defined and symmetric.** No variance is negative under its guard, and an estimate is the same in
other units and for the inverse pair. -/
theorem range_estimators_sound (hne : bars ≠ []) :
    (3 ≤ bars.length → Unguarded (closeToCloseVariance bars) (closeToClose bars)) ∧
    Unguarded (parkinsonVariance bars) (parkinson bars) ∧
    Unguarded (garmanKlassVariance bars) (garmanKlass bars) ∧
    Unguarded (rogersSatchellVariance bars) (rogersSatchell bars) ∧
    (3 ≤ bars.length → Unguarded (yangZhangVariance bars none) (yangZhang bars none)) ∧
    (∀ c : ℝ, 0 < c → SameEstimates bars (bars.map (scaled c))) ∧
    SameEstimates bars (bars.map inverted) :=
  ⟨unguarded_closeToClose hbars, unguarded_parkinson hbars hne, unguarded_garmanKlass hbars hne,
    unguarded_rogersSatchell hbars hne, unguarded_yangZhang hbars, fun _ hc => sameEstimates_scaled hc bars,
    sameEstimates_inverted bars⟩

end

attribute [local instance] atLeastTwo_two in
/-- A bar from 1 to 2 that closes where it has opened. -/
noncomputable def wideBar : Bar ℝ where
  symbol := "EURUSD"
  bucket := 0
  opening := 1
  high := 2
  low := 1
  close := 1
  tickCount := 3
  sumRet := 0
  sumRetSq := 0
  source := .stream

theorem range_estimators_sound_wideBar :
    Unguarded (yangZhangVariance [wideBar, wideBar, wideBar] none) (yangZhang [wideBar, wideBar, wideBar] none) ∧
      SameEstimates [wideBar, wideBar, wideBar] ([wideBar, wideBar, wideBar].map inverted) := by
  have hbar : Ordered wideBar := by constructor <;> norm_num [wideBar]
  have hbars : ∀ b ∈ [wideBar, wideBar, wideBar], Ordered b := by simpa using hbar
  have hsound := range_estimators_sound hbars (by simp)
  exact ⟨hsound.2.2.2.2.1 (by simp), hsound.2.2.2.2.2.2⟩

end FxTracker.RangeEstimators
