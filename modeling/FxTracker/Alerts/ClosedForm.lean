import FxTracker.Alerts.Baseline
import FxTracker.Core.Exact
import FxTracker.Lib.Weighted

/-!
# What the baseline has learned

The fields of a baseline after any sequence of calls, from the logarithms it has admitted: an
exponentially weighted mean and variance, over exact arithmetic.

* `observe_ignored` — what is not admitted
* `Learned.observe` — one more number keeps the closed form
* `baseline_closed_form` — the fields after a sequence of calls
-/

namespace FxTracker.Alerts.VolatilityBaseline

/-- A call that may change a baseline. -/
inductive Call (K : Type)
  | observe (sigma : K)
  | freeze
  | thaw

section Code

variable {K : Type} [FloatMath K] [LE K] [DecidableLE K]

/-- `VolatilityBaseline(lam=lam, min_samples=min_samples)`. -/
def fresh (lam : K) (minSamples : Int) : VolatilityBaseline K where
  lam
  minSamples
  mean := 0
  var := 0
  n := 0
  frozen := false
  debias := 0

def call (b : VolatilityBaseline K) : Call K → Option (VolatilityBaseline K)
  | .observe sigma => b.observe sigma
  | .freeze => some b.freeze
  | .thaw => some b.thaw

def calls (b : VolatilityBaseline K) (cs : List (Call K)) : Option (VolatilityBaseline K) := cs.foldlM call b

/-- **What is not admitted** changes no field. -/
theorem observe_ignored {b : VolatilityBaseline K} {sigma : K} (h : b.frozen = true ∨ measurable sigma = false) :
    b.observe sigma = some b := if_pos h

end Code

/-- The logarithms admitted by a sequence of calls. -/
noncomputable def admitted : (frozen : Bool) → List (Call ℝ) → List ℝ
  | _, [] => []
  | false, .observe sigma :: cs =>
    if measurable sigma then Real.log sigma :: admitted false cs else admitted false cs
  | true, .observe _ :: cs => admitted true cs
  | _, .freeze :: cs => admitted true cs
  | _, .thaw :: cs => admitted false cs

/-- The fields are those of the admitted numbers. -/
structure Learned (lam : ℝ) (minSamples : Int) (xs : List ℝ) (b : VolatilityBaseline ℝ) : Prop where
  lam_eq : b.lam = lam
  minSamples_eq : b.minSamples = minSamples
  n_eq : b.n = xs.length
  mean_eq : b.mean = ewMean lam xs
  var_eq : b.var = ewVar lam xs
  debias_eq : b.debias = 1 - lam ^ xs.length

variable {lam : ℝ} {minSamples : Int} {xs : List ℝ} {b : VolatilityBaseline ℝ}

theorem learned_fresh : Learned lam minSamples [] (fresh lam minSamples) where
  lam_eq := rfl
  minSamples_eq := rfl
  n_eq := rfl
  mean_eq := by simp [fresh]
  var_eq := by simp [fresh]
  debias_eq := by simp [fresh]

section Admit

variable {sigma : ℝ} (hfrozen : b.frozen = false) (hs : measurable sigma = true)
include hfrozen hs

/-- The first number starts the mean. -/
theorem observe_first (hn : b.n = 0) :
    b.observe sigma = some { b with
      mean := Real.log sigma
      var := 0
      n := b.n + 1
      debias := b.lam * b.debias + (1 - b.lam) } := by
  unfold VolatilityBaseline.observe
  rw [if_neg (by simp [hfrozen, hs]), log_eq (pos_of_measurable hs), Option.bind_eq_bind, Option.bind_some]
  simp only [if_pos hn, Nat.cast_one, Option.pure_def]

theorem observe_next (hn : b.n ≠ 0) :
    b.observe sigma = some { b with
      mean := b.mean + (1 - b.lam) * (Real.log sigma - b.mean)
      var := b.lam * (b.var + (Real.log sigma - b.mean) * ((1 - b.lam) * (Real.log sigma - b.mean)))
      n := b.n + 1
      debias := b.lam * b.debias + (1 - b.lam) } := by
  unfold VolatilityBaseline.observe
  rw [if_neg (by simp [hfrozen, hs]), log_eq (pos_of_measurable hs), Option.bind_eq_bind, Option.bind_some]
  simp only [if_neg hn, Nat.cast_one, Option.pure_def]

/-- **One more number.** -/
theorem Learned.observe (h : Learned lam minSamples xs b) :
    ∃ b', b.observe sigma = some b' ∧ b'.frozen = false ∧ Learned lam minSamples (xs ++ [Real.log sigma]) b' := by
  have hdebias : b.lam * b.debias + (1 - b.lam) = 1 - lam ^ (xs.length + 1) := by
    rw [h.debias_eq, h.lam_eq, pow_succ]
    ring
  by_cases hxs : xs = []
  · subst hxs
    refine ⟨_, observe_first hfrozen hs h.n_eq, hfrozen, h.lam_eq, h.minSamples_eq, ?_, ?_, ?_, hdebias⟩
    · simp [h.n_eq]
    · simp
    · simp
  · have hpos : 0 < xs.length := List.length_pos_iff.mpr hxs
    have hn : b.n ≠ 0 := by rw [h.n_eq]; exact_mod_cast hpos.ne'
    have hlength : (xs ++ [Real.log sigma]).length = xs.length + 1 := by simp
    refine ⟨_, observe_next hfrozen hs hn, hfrozen, h.lam_eq, h.minSamples_eq, ?_, ?_, ?_, by rw [hlength, ← hdebias]⟩
    · rw [h.n_eq, hlength, Nat.cast_succ]
    · rw [ewMean_concat hxs, h.mean_eq, h.lam_eq]
      ring
    · rw [ewVar_concat hxs, h.mean_eq, h.var_eq, h.lam_eq]
      ring

end Admit

/-- **One call** raises nothing, and keeps the closed form. -/
theorem Learned.call (h : Learned lam minSamples xs b) (c : Call ℝ) :
    ∃ b₁ ys, b.call c = some b₁ ∧ Learned lam minSamples (xs ++ ys) b₁ ∧
      ∀ cs, admitted b.frozen (c :: cs) = ys ++ admitted b₁.frozen cs := by
  cases c with
  | observe sigma =>
    cases hfrozen : b.frozen with
    | true =>
      refine ⟨b, [], observe_ignored (.inl hfrozen), by rwa [List.append_nil], fun cs => ?_⟩
      rw [hfrozen, admitted, List.nil_append]
    | false =>
      cases hs : measurable sigma with
      | false =>
        refine ⟨b, [], observe_ignored (.inr hs), by rwa [List.append_nil], fun cs => ?_⟩
        simp [hfrozen, admitted, hs]
      | true =>
        obtain ⟨b₁, hobserve, hfrozen₁, h₁⟩ := h.observe hfrozen hs
        refine ⟨b₁, [Real.log sigma], hobserve, h₁, fun cs => ?_⟩
        simp [hfrozen₁, admitted, hs]
  | freeze =>
    refine ⟨{ b with frozen := true }, [], rfl, ?_, fun cs => ?_⟩
    · rw [List.append_nil]
      exact ⟨h.lam_eq, h.minSamples_eq, h.n_eq, h.mean_eq, h.var_eq, h.debias_eq⟩
    · cases b.frozen <;> rfl
  | thaw =>
    refine ⟨{ b with frozen := false }, [], rfl, ?_, fun cs => ?_⟩
    · rw [List.append_nil]
      exact ⟨h.lam_eq, h.minSamples_eq, h.n_eq, h.mean_eq, h.var_eq, h.debias_eq⟩
    · cases b.frozen <;> rfl

/-- A sequence of calls raises nothing, and keeps the closed form. -/
theorem Learned.calls (h : Learned lam minSamples xs b) (cs : List (Call ℝ)) :
    ∃ b', b.calls cs = some b' ∧ Learned lam minSamples (xs ++ admitted b.frozen cs) b' := by
  induction cs generalizing xs b with
  | nil =>
    refine ⟨b, rfl, ?_⟩
    rwa [admitted, List.append_nil]
  | cons c cs ih =>
    obtain ⟨b₁, ys, hcall, h₁, hadmitted⟩ := h.call c
    obtain ⟨b', hrest, hlearned⟩ := ih h₁
    refine ⟨b', ?_, ?_⟩
    · rw [VolatilityBaseline.calls, List.foldlM_cons, hcall]
      exact hrest
    · rwa [hadmitted cs, ← List.append_assoc]

/-! ## The fields -/

theorem Learned.ready_iff (h : Learned lam minSamples xs b) (h0 : 0 < lam) (h1 : lam < 1) :
    b.ready = true ↔ minSamples ≤ xs.length ∧ ¬ ∀ a ∈ xs, ∀ a' ∈ xs, a = a' := by
  have hvar : 0 < b.var ↔ ¬ ∀ a ∈ xs, ∀ a' ∈ xs, a = a' := by
    rw [← ewVar_eq_zero_iff h0 h1, h.var_eq]
    exact (ewVar_nonneg h0 h1 xs).lt_iff_ne'
  rw [ready, decide_eq_true_iff, hvar, h.n_eq, h.minSamples_eq]

/-- **The closed form** of a baseline: after any calls its fields are the weighted moments of the numbers
admitted, and a sample that is not admitted changes none of them. -/
theorem baseline_closed_form (h0 : 0 < lam) (h1 : lam < 1) (minSamples : Int) (cs : List (Call ℝ)) :
    let xs := admitted false cs
    let n := xs.length
    let w := expWeight lam n
    (∃ b, (fresh lam minSamples).calls cs = some b ∧
      b.n = n ∧
      (0 < n → ∑ i ∈ Finset.range n, w i = 1) ∧
      b.mean = ∑ i ∈ Finset.range n, w i * xs.getD i 0 ∧
      b.var = ∑ i ∈ Finset.range n, w i * (xs.getD i 0 - b.mean) ^ 2 ∧
      0 ≤ b.var ∧
      (b.ready = true ↔ minSamples ≤ n ∧ ¬ ∀ a ∈ xs, ∀ a' ∈ xs, a = a') ∧
      b.debias = 1 - lam ^ n) ∧
    ∀ (K : Type) [FloatMath K] [LE K] [DecidableLE K] (b : VolatilityBaseline K) (sigma : K),
      b.frozen = true ∨ measurable sigma = false → b.observe sigma = some b := by
  intro xs n w
  refine ⟨?_, fun K _ _ _ b sigma h => observe_ignored h⟩
  have hfresh : Learned lam minSamples [] (fresh lam minSamples) := learned_fresh
  obtain ⟨b, hcalls, h⟩ := hfresh.calls cs
  rw [List.nil_append] at h
  refine ⟨b, hcalls, h.n_eq, sum_expWeight, h.mean_eq, ?_, ?_, h.ready_iff h0 h1, h.debias_eq⟩
  · rw [h.mean_eq]
    exact h.var_eq
  · rw [h.var_eq]
    exact ewVar_nonneg h0 h1 xs

/-- Two samples, and one that comes while the baseline is frozen. -/
theorem baseline_closed_form_frozen :
    ∃ b, (fresh (1 / 2 : ℝ) 2).calls [.observe 1, .freeze, .observe 3, .thaw, .observe 2] = some b ∧ b.n = 2 := by
  have h := baseline_closed_form (by norm_num : (0 : ℝ) < 1 / 2) (by norm_num) 2
    [.observe 1, .freeze, .observe 3, .thaw, .observe 2]
  obtain ⟨⟨b, hcalls, hn, -⟩, -⟩ := h
  have hmeasured : ∀ sigma : ℝ, 1 ≤ sigma → measurable sigma = true := fun sigma hs => by
    refine (measurable_iff sigma).mpr (lt_of_lt_of_le ?_ hs)
    norm_num [minSigma]
  refine ⟨b, hcalls, ?_⟩
  rw [hn]
  simp [admitted, hmeasured]

end FxTracker.Alerts.VolatilityBaseline
