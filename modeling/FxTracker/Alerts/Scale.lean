import FxTracker.Alerts.Restore
import FxTracker.Core.Exact
import FxTracker.Lib.Lts

/-!
# Scale invariance

Volatilities enter the estimators as logarithms, so multiplying all of them by `c` shifts what is
learned by `ln c`: the mean of the baseline and of every learned hour. The variance, the counts and
the factors are the same, and a score is a difference of logarithms.

* `Scaled.update` — one bar keeps two detectors `ln c` apart
* `readings_scaled` — so they read alike over every run of bars
-/

namespace FxTracker.Alerts

/-- A volatility the estimators treat alike under both scales: not measured, or above the floor. -/
def AboveFloor (c sigma : ℝ) : Prop := sigma = 0 ∨ minSigma < sigma ∧ minSigma < c * sigma

variable {c sigma : ℝ}

theorem AboveFloor.measurable (h : AboveFloor c sigma) :
    measurable (c * sigma) = measurable sigma := by
  rcases h with rfl | ⟨h, hc⟩
  · rw [mul_zero]
  · rw [(measurable_iff sigma).mpr h, (measurable_iff (c * sigma)).mpr hc]

theorem log_scaled (hc : 0 < c) (hs : 0 < sigma) :
    FloatOps.log (c * sigma) = some (Real.log sigma + Real.log c) := by
  rw [log_eq (mul_pos hc hs), Real.log_mul hc.ne' hs.ne', add_comm]

/-! ## The baseline -/

namespace VolatilityBaseline

/-- `b'` has learned what `b` has, `a` higher. -/
structure Shifted (a : ℝ) (b b' : VolatilityBaseline ℝ) : Prop where
  same : b' = { b with mean := b'.mean }
  mean : 0 < b.n → b'.mean = b.mean + a
  unlearned : b.n = 0 → b.var = 0
  count : 0 ≤ b.n

variable {a : ℝ} {b b' : VolatilityBaseline ℝ}

theorem Shifted.freeze (h : Shifted a b b') : Shifted a b.freeze b'.freeze :=
  ⟨by rw [h.same]; rfl, h.mean, h.unlearned, h.count⟩

theorem Shifted.thaw (h : Shifted a b b') : Shifted a b.thaw b'.thaw :=
  ⟨by rw [h.same]; rfl, h.mean, h.unlearned, h.count⟩

/-- What the regime does to the freeze. -/
theorem Shifted.regulate (h : Shifted a b b') (hold resume : Prop) [Decidable hold]
    [Decidable resume] :
    Shifted a (if hold then b.freeze else if resume then b.thaw else b)
      (if hold then b'.freeze else if resume then b'.thaw else b') := by
  by_cases hh : hold
  · rw [if_pos hh, if_pos hh]
    exact h.freeze
  · rw [if_neg hh, if_neg hh]
    by_cases hr : resume
    · rw [if_pos hr, if_pos hr]
      exact h.thaw
    · rw [if_neg hr, if_neg hr]
      exact h

/-- A score is a difference of logarithms. -/
theorem Shifted.zscore (hc : 0 < c) (h : Shifted (Real.log c) b b') (hs : AboveFloor c sigma) :
    ∃ z, b.zscore sigma = some z ∧ b'.zscore (c * sigma) = some z := by
  have hready : b'.ready = b.ready := by rw [h.same]; rfl
  have hstdev : b'.stdev = b.stdev := by rw [h.same]; rfl
  unfold VolatilityBaseline.zscore
  rw [hready, hstdev, hs.measurable]
  by_cases hno : b.ready = false ∨ FxTracker.measurable sigma = false
  · exact ⟨none, by rw [if_pos hno], by rw [if_pos hno]⟩
  · rw [if_neg hno, if_neg hno]
    obtain ⟨hr, hm⟩ := not_or.mp hno
    simp only [Bool.not_eq_false] at hr hm
    by_cases hflat : b.stdev ≤ 0
    · exact ⟨none, by rw [if_pos hflat], by rw [if_pos hflat]⟩
    · -- the baseline is ready, so its mean was learned
      have hvar : 0 < b.var := by
        unfold ready at hr
        exact (of_decide_eq_true hr).2
      have hn : 0 < b.n := lt_of_le_of_ne h.count fun hn => hvar.ne' (h.unlearned hn.symm)
      rw [if_neg hflat, if_neg hflat, log_eq (pos_of_measurable hm),
        log_scaled hc (pos_of_measurable hm), h.mean hn]
      refine ⟨_, rfl, ?_⟩
      rw [Option.map_some, add_sub_add_right_eq_sub]

theorem Shifted.observe (hc : 0 < c) (h : Shifted (Real.log c) b b') (hs : AboveFloor c sigma) :
    ∃ u u', b.observe sigma = some u ∧ b'.observe (c * sigma) = some u' ∧
      Shifted (Real.log c) u u' := by
  obtain ⟨hsame, hmean, hvar, hcount⟩ := h
  generalize b'.mean = mean at hsame hmean
  subst hsame
  unfold VolatilityBaseline.observe
  rw [hs.measurable]
  dsimp only
  by_cases hskip : b.frozen = true ∨ FxTracker.measurable sigma = false
  · exact ⟨b, _, if_pos hskip, if_pos hskip, rfl, hmean, hvar, hcount⟩
  · rw [if_neg hskip, if_neg hskip]
    obtain ⟨-, hm⟩ := not_or.mp hskip
    rw [Bool.not_eq_false] at hm
    rw [log_eq (pos_of_measurable hm), log_scaled hc (pos_of_measurable hm)]
    simp only [Option.bind_eq_bind, Option.bind_some, Option.pure_def]
    by_cases hfirst : b.n = 0
    · -- the first sample seeds the mean
      simp only [if_pos hfirst]
      refine ⟨_, _, rfl, rfl, rfl, fun _ => rfl, fun _ => rfl, ?_⟩
      show 0 ≤ b.n + 1
      omega
    · have hdiff : Real.log sigma + Real.log c - mean = Real.log sigma - b.mean := by
        rw [hmean (by omega), add_sub_add_right_eq_sub]
      simp only [if_neg hfirst, hdiff]
      refine ⟨_, _, rfl, rfl, rfl, fun _ => ?_, fun hzero => ?_, ?_⟩
      · dsimp only
        rw [hmean (by omega)]
        ring
      · have : b.n + 1 = 0 := hzero
        omega
      · show 0 ≤ b.n + 1
        omega

end VolatilityBaseline

/-! ## The time-of-day profile -/

/-- The mean of logarithms that are all `a` higher. -/
theorem sum_shifted {ι : Type*} {l : List ι} {f g : ι → ℝ} {a : ℝ} (h : ∀ x ∈ l, g x = f x + a)
    (hl : 0 < l.length) :
    (l.map g).sum / (l.length : ℕ) = (l.map f).sum / (l.length : ℕ) + a := by
  have hne : (l.length : ℝ) ≠ 0 := Nat.cast_ne_zero.mpr hl.ne'
  have hsum : (l.map g).sum = (l.map f).sum + l.length * a := by
    rw [List.map_congr_left h, List.sum_map_add, List.map_const', List.sum_replicate, nsmul_eq_mul]
  rw [hsum, add_div, mul_div_cancel_left₀ a hne]

namespace DiurnalProfile

/-- `p'` has learned what `p` has, every hour `a` higher. -/
structure Shifted (a : ℝ) (p p' : DiurnalProfile ℝ) : Prop where
  same : p' = { p with hourMean := p'.hourMean }
  hourMean : ∀ hour, 0 < p.hourN hour → p'.hourMean hour = p.hourMean hour + a
  count : ∀ hour, 0 ≤ p.hourN hour
  minSamples : 1 ≤ p.minSamples
  readyHours : 1 ≤ p.minReadyHours

variable {a : ℝ} {p p' : DiurnalProfile ℝ}

/-- The level of the typical hour is `a` higher. -/
theorem Shifted.referenceLevel (h : Shifted a p p') :
    p'.referenceLevel = p.referenceLevel.map (· + a) := by
  obtain ⟨hsame, hmean, -, hmin, hready⟩ := h
  generalize p'.hourMean = hourMean at hsame hmean
  subst hsame
  unfold DiurnalProfile.referenceLevel
  dsimp only
  generalize hlearned : ((List.finRange 24).filter fun hour => p.minSamples ≤ p.hourN hour) = learned
  by_cases hfew : (learned.length : Int) < p.minReadyHours
  · rw [if_pos hfew, if_pos hfew]
    rfl
  · rw [if_neg hfew, if_neg hfew, Option.map_some]
    have hshift : ∀ hour ∈ learned, hourMean hour = p.hourMean hour + a := by
      intro hour hmem
      rw [← hlearned, List.mem_filter] at hmem
      have : p.minSamples ≤ p.hourN hour := of_decide_eq_true hmem.2
      exact hmean hour (by omega)
    exact congrArg some (sum_shifted hshift (by omega))

/-- A factor is a difference of logarithms. -/
theorem Shifted.factor (h : Shifted a p p') (hour : Fin 24) :
    ∃ f, p.factor hour = some f ∧ p'.factor hour = some f := by
  have hn : p'.hourN hour = p.hourN hour := by rw [h.same]
  have hmin : p'.minSamples = p.minSamples := by rw [h.same]
  have hclamp : p'.clamp = p.clamp := by rw [h.same]
  unfold DiurnalProfile.factor
  rw [h.referenceLevel, hn, hmin, hclamp]
  cases p.referenceLevel with
  | none => exact ⟨_, rfl, rfl⟩
  | some reference =>
    dsimp only [Option.map_some]
    by_cases hfew : p.hourN hour < p.minSamples
    · exact ⟨_, if_pos hfew, if_pos hfew⟩
    · have := h.minSamples
      rw [if_neg hfew, if_neg hfew, h.hourMean hour (by omega), add_sub_add_right_eq_sub]
      exact ⟨_, rfl, rfl⟩

theorem Shifted.deseasonalize (h : Shifted a p p') (sigma : ℝ) (hour : Fin 24) :
    ∃ adjusted, p.deseasonalize sigma hour = some adjusted ∧
      p'.deseasonalize (c * sigma) hour = some (c * adjusted) := by
  obtain ⟨f, hf, hf'⟩ := h.factor hour
  unfold DiurnalProfile.deseasonalize
  rw [hf, hf']
  exact ⟨_, rfl, by rw [Option.map_some, mul_div_assoc]⟩

theorem Shifted.observe (hc : 0 < c) (h : Shifted (Real.log c) p p') (hs : AboveFloor c sigma)
    (hour : Fin 24) :
    ∃ u u', p.observe sigma hour = some u ∧ p'.observe (c * sigma) hour = some u' ∧
      Shifted (Real.log c) u u' := by
  obtain ⟨hsame, hmean, hcount, hmin, hready⟩ := h
  generalize p'.hourMean = hourMean at hsame hmean
  subst hsame
  unfold DiurnalProfile.observe
  rw [hs.measurable]
  dsimp only
  by_cases hskip : FxTracker.measurable sigma = false
  · exact ⟨p, _, if_pos hskip, if_pos hskip, rfl, hmean, hcount, hmin, hready⟩
  · rw [if_neg hskip, if_neg hskip]
    rw [Bool.not_eq_false] at hskip
    rw [log_eq (pos_of_measurable hskip), log_scaled hc (pos_of_measurable hskip)]
    refine ⟨_, _, rfl, rfl, rfl, fun h₁ hpos => ?_, fun h₁ => ?_, hmin, hready⟩
    · by_cases hh : h₁ = hour
      · subst hh
        dsimp only
        rw [Function.update_self, Function.update_self]
        by_cases hfirst : p.hourN h₁ = 0
        · rw [if_pos hfirst, if_pos hfirst]
        · have := hcount h₁
          rw [if_neg hfirst, if_neg hfirst, hmean h₁ (by omega)]
          ring
      · dsimp only at hpos ⊢
        rw [Function.update_of_ne hh] at hpos
        rw [Function.update_of_ne hh, Function.update_of_ne hh]
        exact hmean h₁ hpos
    · dsimp only
      rw [Function.update_apply]
      have := hcount h₁
      have := hcount hour
      split <;> omega

end DiurnalProfile

/-! ## The detector -/

/-- The same transition at `c` times the volatility. -/
def RegimeTransition.scaled (c : ℝ) (tr : RegimeTransition ℝ) : RegimeTransition ℝ :=
  { tr with sigma := tr.sigma.map (c * ·) }

/-- The same bar at `c` times the volatility. -/
def SealedBar.scaled (c : ℝ) (bar : SealedBar ℝ) : SealedBar ℝ := { bar with sigma := c * bar.sigma }

/-- The trigger reads scores alone: the volatility goes through to the transition. -/
theorem SchmittTrigger.update_scaled (t : SchmittTrigger ℝ) (zscore : Option ℝ) (c sigma : ℝ)
    (ts : Int) (armed : Bool) (why : String) :
    t.update zscore (c * sigma) ts armed why =
      ((t.update zscore sigma ts armed why).1,
        (t.update zscore sigma ts armed why).2.map (RegimeTransition.scaled c)) := by
  have hhold : ∀ why, ((t.hold ts why).2.map (RegimeTransition.scaled c)) = (t.hold ts why).2 := by
    intro why
    unfold hold
    dsimp only
    split <;> rfl
  have haccumulate : ∀ (t : SchmittTrigger ℝ) (target : Regime) (z : ℝ),
      t.accumulate target z (c * sigma) ts =
        ((t.accumulate target z sigma ts).1,
          (t.accumulate target z sigma ts).2.map (RegimeTransition.scaled c)) := by
    intro t target z
    unfold accumulate
    dsimp only
    split
    · rfl
    · split <;> rfl
  unfold update
  split
  · next z =>
    dsimp only
    split
    · rfl
    · exact haccumulate ..
  · rw [hhold]

namespace RegimeDetector

/-- `d'` is `d` but for what its estimators learned, `ln c` higher. -/
structure Scaled (c : ℝ) (d d' : RegimeDetector ℝ) : Prop where
  same : d' = { d with baseline := d'.baseline, profile := d'.profile }
  baseline : d.baseline.Shifted (Real.log c) d'.baseline
  profile : d.profile.Shifted (Real.log c) d'.profile

/-- What a bar shows, at `c` times the volatility. -/
def Reading.scaled (c : ℝ) (r : Reading ℝ) : Reading ℝ :=
  { r with transition := r.transition.map (RegimeTransition.scaled c) }

variable {d d' : RegimeDetector ℝ} {bar : SealedBar ℝ}

theorem Scaled.rebaseline (h : Scaled c d d') (ts : Int) :
    Scaled c (d.rebaseline ts) (d'.rebaseline ts) := by
  obtain ⟨hsame, hb, hp⟩ := h
  generalize d'.baseline = b, d'.profile = p at hsame hb hp
  subst hsame
  unfold RegimeDetector.rebaseline
  dsimp only
  split
  · exact ⟨rfl, hb.thaw, hp⟩
  · exact ⟨rfl, hb, hp⟩

theorem Scaled.decideRegime (h : Scaled c d d') (zscore : Option ℝ) (adjusted : ℝ) (ts : Int) :
    Scaled c (d.decideRegime zscore adjusted ts).1 (d'.decideRegime zscore (c * adjusted) ts).1 ∧
      (d'.decideRegime zscore (c * adjusted) ts).2 =
        (d.decideRegime zscore adjusted ts).2.map (RegimeTransition.scaled c) := by
  obtain ⟨hsame, hb, hp⟩ := h
  generalize d'.baseline = b, d'.profile = p at hsame hb hp
  subst hsame
  unfold RegimeDetector.decideRegime
  dsimp only
  rw [SchmittTrigger.update_scaled]
  dsimp only
  rw [Option.isSome_map]
  exact ⟨⟨rfl, hb.regulate .., hp⟩, rfl⟩

theorem Scaled.learn (hc : 0 < c) (h : Scaled c d d') {adjusted : ℝ} (hs : AboveFloor c sigma)
    (hadj : AboveFloor c adjusted) (ts : Int) :
    ∃ u u', d.learn sigma adjusted ts = some u ∧ d'.learn (c * sigma) (c * adjusted) ts = some u' ∧
      Scaled c u u' := by
  have hregime : d'.regime = d.regime := by rw [h.same]; rfl
  have hreb : d'.rebaselining = d.rebaselining := by rw [h.same]
  have hbaseline : ∃ u u', d.learnBaseline adjusted = some u ∧
      d'.learnBaseline (c * adjusted) = some u' ∧ u.Shifted (Real.log c) u' := by
    unfold learnBaseline
    rw [hregime, hreb]
    by_cases hlearn : d.regime = .normal ∨ d.rebaselining = true
    · rw [if_pos hlearn, if_pos hlearn]
      exact h.baseline.observe hc hadj
    · rw [if_neg hlearn, if_neg hlearn]
      exact ⟨_, _, rfl, rfl, h.baseline⟩
  have hprofile : ∃ u u', d.learnProfile sigma ts = some u ∧
      d'.learnProfile (c * sigma) ts = some u' ∧ u.Shifted (Real.log c) u' := by
    unfold learnProfile
    rw [hregime]
    by_cases hlearn : d.regime = .normal
    · rw [if_pos hlearn, if_pos hlearn]
      exact h.profile.observe hc hs (hourOf ts)
    · rw [if_neg hlearn, if_neg hlearn]
      exact ⟨_, _, rfl, rfl, h.profile⟩
  obtain ⟨u, u', hu, hu', hub⟩ := hbaseline
  obtain ⟨v, v', hv, hv', hvp⟩ := hprofile
  unfold RegimeDetector.learn
  rw [hu, hu', hv, hv']
  refine ⟨_, _, rfl, rfl, ?_, hub, hvp⟩
  rw [h.same]

/-- What the bar makes the estimators see is above the floor. -/
def SeesAboveFloor (c : ℝ) (d : RegimeDetector ℝ) (bar : SealedBar ℝ) : Prop :=
  AboveFloor c bar.sigma ∧
    ∀ adjusted ∈ d.profile.deseasonalize bar.sigma (hourOf bar.ts), AboveFloor c adjusted

theorem Scaled.evaluate (hc : 0 < c) (h : Scaled c d d') (hs : SeesAboveFloor c d bar) :
    ∃ u u' o, d.evaluate bar = some (u, o) ∧
      d'.evaluate (bar.scaled c) = some (u', o.map (RegimeTransition.scaled c)) ∧
      Scaled c u u' ∧ u'.lastZscore = u.lastZscore := by
  obtain ⟨adjusted, hadj, hadj'⟩ := h.profile.deseasonalize (c := c) bar.sigma (hourOf bar.ts)
  have hfloor : AboveFloor c adjusted := hs.2 adjusted hadj
  obtain ⟨z, hz, hz'⟩ := h.baseline.zscore hc hfloor
  have hscored : Scaled c { d with lastZscore := z } { d' with lastZscore := z } :=
    ⟨by rw [h.same], h.baseline, h.profile⟩
  obtain ⟨v, o, hdec⟩ : ∃ v o, ({ d with lastZscore := z }.rebaseline bar.ts).decideRegime z adjusted
    bar.ts = (v, o) := ⟨_, _, rfl⟩
  obtain ⟨v', o', hdec'⟩ : ∃ v' o', ({ d' with lastZscore := z }.rebaseline bar.ts).decideRegime z
    (c * adjusted) bar.ts = (v', o') := ⟨_, _, rfl⟩
  have hdecided := (hscored.rebaseline bar.ts).decideRegime z adjusted bar.ts
  rw [hdec, hdec'] at hdecided
  obtain ⟨hv, ho⟩ := hdecided
  dsimp only at ho
  subst ho
  obtain ⟨u, u', hu, hu', hlearned⟩ := hv.learn hc hs.1 hfloor bar.ts
  refine ⟨u, u', o, ?_, ?_, hlearned, by rw [hlearned.same]⟩
  · rw [evaluate_eq hadj hz hdec, hu]
    rfl
  · have heval : d'.evaluate (bar.scaled c) = _ := evaluate_eq hadj' hz' hdec'
    have hscaled : v'.learn (bar.scaled c).sigma (c * adjusted) (bar.scaled c).ts = some u' := hu'
    rw [heval, hscaled]
    rfl

/-- The gates read no volatility and nothing learned. -/
theorem Scaled.gate (h : Scaled c d d') (bar : SealedBar ℝ) :
    Scaled c (d.gate bar).1 (d'.gate (bar.scaled c)).1 ∧
      (d'.gate (bar.scaled c)).2 = (d.gate bar).2 := by
  obtain ⟨hsame, hb, hp⟩ := h
  generalize d'.baseline = b, d'.profile = p at hsame hb hp
  subst hsame
  have hreason : ∀ e : RegimeDetector ℝ, e.gateReason (bar.scaled c) = e.gateReason bar := fun _ => rfl
  unfold RegimeDetector.gate
  dsimp only
  rw [hreason]
  have hgate : (({ d with baseline := b, profile := p } : RegimeDetector ℝ).noteSession
      (bar.scaled c).ts).gateReason bar = (d.noteSession bar.ts).gateReason bar := rfl
  rw [hgate]
  cases (d.noteSession bar.ts).gateReason bar with
  | some gate => exact ⟨⟨rfl, hb, hp⟩, rfl⟩
  | none =>
    dsimp only
    have hcount : ({ d with baseline := b, profile := p } : RegimeDetector ℝ).noteSession
      (bar.scaled c).ts = { d.noteSession bar.ts with baseline := b, profile := p } := rfl
    rw [hcount]
    dsimp only
    split <;> exact ⟨⟨rfl, hb, hp⟩, rfl⟩

/-- **One bar** keeps the detectors apart. -/
theorem Scaled.update (hc : 0 < c) (h : Scaled c d d') (hs : SeesAboveFloor c d bar) :
    ∃ u u' o, d.update bar = some (u, o) ∧
      d'.update (bar.scaled c) = some (u', o.map (RegimeTransition.scaled c)) ∧
      Scaled c u u' ∧ u'.lastZscore = u.lastZscore := by
  obtain ⟨hgated, hreason⟩ := h.gate bar
  by_cases he : d.Evaluates bar
  · have he' : d'.Evaluates (bar.scaled c) := hreason.trans he
    rw [update_of_evaluates he, update_of_evaluates he']
    refine hgated.evaluate hc ⟨hs.1, ?_⟩
    rw [(samePath_gate d bar).profile]
    exact hs.2
  · have he' : ¬ d'.Evaluates (bar.scaled c) := fun h' => he (hreason.symm.trans h')
    obtain ⟨reason, hr, hu⟩ := update_of_refused he
    obtain ⟨reason', hr', hu'⟩ := update_of_refused he'
    have hwhy : reason' = reason := Option.some_inj.mp (hr'.symm.trans (hreason.trans hr))
    have htrigger : d'.trigger = d.trigger := by rw [h.same]
    rw [hwhy, htrigger, show (bar.scaled c).sigma = c * bar.sigma from rfl,
      SchmittTrigger.update_scaled] at hu'
    refine ⟨_, _, _, hu, hu', ⟨?_, hgated.baseline, hgated.profile⟩, ?_⟩
    · rw [hgated.same]
      rfl
    · show (d'.gate (bar.scaled c)).1.lastZscore = (d.gate bar).1.lastZscore
      rw [hgated.same]

/-! ## Runs -/

/-- A newly built detector of any configuration that the constructors accept. -/
structure Fresh (d : RegimeDetector ℝ) : Prop where
  baseline : d.baseline = { VolatilityBaseline.cold with
    lam := d.baseline.lam, minSamples := d.baseline.minSamples }
  baselineOk : VolatilityBaseline.lamOk d.baseline.lam = true ∧ 2 ≤ d.baseline.minSamples
  profile : d.profile = { DiurnalProfile.cold with
    lam := d.profile.lam
    minSamples := d.profile.minSamples
    minReadyHours := d.profile.minReadyHours
    clamp := d.profile.clamp }
  profileOk : 0 < d.profile.lam ∧ d.profile.lam < 1 ∧ 1 ≤ d.profile.minReadyHours ∧
    d.profile.minReadyHours ≤ 24 ∧ 0 < d.profile.clamp.1 ∧ d.profile.clamp.1 < 1 ∧ 1 < d.profile.clamp.2
  rest : d = { cold d.symbol d.config d.triggerConfig d.marketIsOpen with
    baseline := d.baseline, profile := d.profile }

/-- Nothing is learned yet, so nothing is apart. -/
theorem Fresh.scaled (h : Fresh d) (hmin : 1 ≤ d.profile.minSamples) : Scaled c d d where
  same := rfl
  baseline := by
    have hn : d.baseline.n = 0 := by rw [h.baseline]; rfl
    have hvar : d.baseline.var = 0 := by rw [h.baseline]; rfl
    refine ⟨rfl, fun hpos => ?_, fun _ => hvar, hn.ge⟩
    omega
  profile := by
    have hn : ∀ hour, d.profile.hourN hour = 0 := fun hour => by rw [h.profile]; rfl
    refine ⟨rfl, fun hour hpos => ?_, fun hour => (hn hour).ge, hmin, h.profileOk.2.2.1⟩
    have := hn hour
    omega

/-- One bar of a run. -/
noncomputable def next (d : RegimeDetector ℝ) (bar : SealedBar ℝ) : Option (RegimeDetector ℝ) :=
  (d.update bar).map Prod.fst

theorem Scaled.readings (hc : 0 < c) (h : Scaled c d d') {bars : List (SealedBar ℝ)}
    (hbars : Lts.Meets next (SeesAboveFloor c) d bars) :
    ∃ shown : List (Reading ℝ), shown.length = bars.length ∧ d.readings bars = shown.map some ∧
      d'.readings (bars.map (SealedBar.scaled c)) = (shown.map (Reading.scaled c)).map some := by
  induction bars generalizing d d' with
  | nil => exact ⟨[], rfl, rfl, rfl⟩
  | cons bar bars ih =>
    obtain ⟨u, u', o, hu, hu', hscaled, hz⟩ := h.update hc hbars.1
    obtain ⟨shown, hlen, hshown, hshown'⟩ := ih hscaled (hbars.2 u (by rw [next, hu]; rfl))
    have hregime : u'.regime = u.regime := by rw [hscaled.same]; rfl
    refine ⟨⟨o, u.lastZscore, u.regime⟩ :: shown, congrArg (· + 1) hlen, ?_, ?_⟩
    · unfold RegimeDetector.readings
      rw [hu]
      dsimp only
      rw [hshown]
      rfl
    · rw [List.map_cons]
      unfold RegimeDetector.readings
      rw [hu']
      dsimp only
      rw [hshown', hz, hregime]
      rfl

/--
**Scale invariance.** A fresh detector fed `c` times the volatilities shows, bar by bar, the same
score, the same regime and the same transition at `c` times the volatility, and raises nothing, as
long as each volatility is 0 or above the floor under both scales, deseasonalised too.
-/
theorem readings_scaled (hd : Fresh d) (hmin : 1 ≤ d.profile.minSamples) (hc : 0 < c)
    {bars : List (SealedBar ℝ)} (hbars : Lts.Meets next (SeesAboveFloor c) d bars) :
    ∃ shown : List (Reading ℝ), shown.length = bars.length ∧ d.readings bars = shown.map some ∧
      d.readings (bars.map (SealedBar.scaled c)) = (shown.map (Reading.scaled c)).map some :=
  (hd.scaled hmin).readings hc hbars

/-! ### A detector for a run on fixed inputs -/

noncomputable def realTrigger : TriggerConfig ℝ where
  enterZ := 3
  exitZ := 1
  accepted := by
    unfold TriggerFields.postInit
    norm_num

/-- Evaluates from the first bar on. -/
noncomputable def realDetector : RegimeDetector ℝ :=
  cold "EURUSD" promptConfig realTrigger fun _ => true

theorem fresh_realDetector : Fresh realDetector where
  baseline := rfl
  baselineOk := by
    refine ⟨?_, by decide⟩
    show VolatilityBaseline.lamOk ((9942 : ℕ) / (10000 : ℕ) : ℝ) = true
    unfold VolatilityBaseline.lamOk
    norm_num
  profile := rfl
  profileOk := by
    show (0 : ℝ) < (99885 : ℕ) / (100000 : ℕ) ∧ ((99885 : ℕ) / (100000 : ℕ) : ℝ) < 1 ∧ _ ∧ _ ∧
      (0 : ℝ) < (1 : ℕ) / (4 : ℕ) ∧ ((1 : ℕ) / (4 : ℕ) : ℝ) < 1 ∧ (1 : ℝ) < (4 : ℕ)
    refine ⟨by norm_num, by norm_num, by decide, by decide, by norm_num, by norm_num, by norm_num⟩
  rest := rfl

theorem minSigma_lt_one : (minSigma : ℝ) < 1 := by
  unfold minSigma
  norm_num

/-- One that scores from its third bar on. -/
noncomputable def eagerDetector : RegimeDetector ℝ :=
  { realDetector with baseline := { VolatilityBaseline.cold with minSamples := 2 } }

theorem deseasonalize_of_few {p : DiurnalProfile ℝ} {hour : Fin 24} (h : p.hourN hour < p.minSamples) (sigma : ℝ) :
    p.deseasonalize sigma hour = some sigma := by
  have hfactor : p.factor hour = some 1 := by
    unfold DiurnalProfile.factor
    cases p.referenceLevel with
    | none => exact congrArg some Nat.cast_one
    | some reference =>
      dsimp only
      rw [if_pos h, Nat.cast_one]
  rw [DiurnalProfile.deseasonalize, hfactor, Option.map_some, div_one]

/-- The profile once `n` bars of the first hour are in. -/
noncomputable def profileOf (mean : ℝ) (n : Int) : DiurnalProfile ℝ :=
  { DiurnalProfile.cold with
    hourMean := Function.update (fun _ => 0) (hourOf 0) mean
    hourN := Function.update (fun _ => 0) (hourOf 0) n }

/-- The detector then, while it cannot say. -/
noncomputable def warming (baseline : VolatilityBaseline ℝ) (mean : ℝ) (n : Int) : RegimeDetector ℝ :=
  { eagerDetector with
    baseline
    profile := profileOf mean n
    trigger := { eagerDetector.trigger with unobservedSince := some 0, gateReason := "baseline not ready" }
    wasOpen := some true
    contiguousOk := n }

noncomputable def afterOne : VolatilityBaseline ℝ :=
  { VolatilityBaseline.cold with minSamples := 2, mean := 0, var := 0, n := 1, debias := 1 - 9942 / 10000 }

theorem log_one : FloatOps.log (1 : ℝ) = some 0 := by rw [log_eq one_pos, Real.log_one]

theorem update_one : eagerDetector.update ⟨1, 0, false, false, false⟩ = some (warming afterOne 0 1, none) := by
  have hone : ¬ (1 : ℝ) ≤ minSigma := not_le.mpr minSigma_lt_one
  simp [eagerDetector, realDetector, cold, update, gate, noteSession, gateReason, warmingUp, promptConfig,
    evaluate, DiurnalProfile.deseasonalize, DiurnalProfile.factor, DiurnalProfile.referenceLevel,
    DiurnalProfile.cold, VolatilityBaseline.zscore, VolatilityBaseline.ready, VolatilityBaseline.cold, rebaseline,
    SchmittTrigger.baselineShouldThaw, decideRegime, SchmittTrigger.update, SchmittTrigger.hold,
    SchmittTrigger.lose, learn, learnBaseline, learnProfile, regime, VolatilityBaseline.thaw,
    VolatilityBaseline.observe, DiurnalProfile.observe, measurable, hone, log_one, warming, afterOne, profileOf,
    FloatMath.isFinite]

attribute [local instance] atLeastTwo_two in
noncomputable def afterTwo : VolatilityBaseline ℝ :=
  { VolatilityBaseline.cold with
    minSamples := 2
    mean := (1 - 9942 / 10000) * Real.log 2
    var := 9942 / 10000 * (Real.log 2 * ((1 - 9942 / 10000) * Real.log 2))
    n := 2
    debias := 9942 / 10000 * (1 - 9942 / 10000) + (1 - 9942 / 10000) }

theorem update_two : ∃ mean, (warming afterOne 0 1).update ⟨2, 60000000, false, false, false⟩
    = some (warming afterTwo mean 2, none) := by
  have htwo : ¬ (2 : ℝ) ≤ minSigma := not_le.mpr (minSigma_lt_one.trans one_lt_two)
  have hhour : hourOf 60000000 = hourOf 0 := by decide
  have hadj : (profileOf 0 1).deseasonalize 2 (hourOf 0) = some 2 :=
    deseasonalize_of_few (by simp [profileOf, DiurnalProfile.cold]) 2
  let mean : ℝ := 0 + (1 - 99885 / 100000) * (Real.log 2 - 0)
  have hobserve : (profileOf 0 1).observe 2 (hourOf 0) = some (profileOf mean 2) := by
    simp [DiurnalProfile.observe, measurable, htwo, log_eq, FloatMath.isFinite, profileOf, DiurnalProfile.cold, mean]
  refine ⟨mean, ?_⟩
  simp [update, gate, noteSession, gateReason, warmingUp, promptConfig, warming, eagerDetector, realDetector, cold,
    evaluate, hhour, hadj, hobserve, VolatilityBaseline.zscore, VolatilityBaseline.ready, VolatilityBaseline.cold, rebaseline,
    SchmittTrigger.baselineShouldThaw, decideRegime, SchmittTrigger.update, SchmittTrigger.hold,
    SchmittTrigger.lose, learn, learnBaseline, learnProfile, regime, VolatilityBaseline.thaw,
    VolatilityBaseline.observe, measurable, htwo, log_eq, afterOne, afterTwo, FloatMath.isFinite]

/-- The third bar is scored. -/
theorem zscore_afterTwo : ∃ z, afterTwo.zscore 1 = some (some z) := by
  have hone : ¬ (1 : ℝ) ≤ minSigma := not_le.mpr minSigma_lt_one
  have hlog : 0 < Real.log 2 := Real.log_pos one_lt_two
  have hvar : 0 < afterTwo.var := by
    show 0 < 9942 / 10000 * (Real.log 2 * ((1 - 9942 / 10000) * Real.log 2))
    positivity
  have hdebias : 0 < afterTwo.debias := by
    show (0 : ℝ) < 9942 / 10000 * (1 - 9942 / 10000) + (1 - 9942 / 10000)
    norm_num
  have hready : afterTwo.ready = true := decide_eq_true ⟨(le_refl 2 : (2 : Int) ≤ 2), hvar⟩
  have hstdev : 0 < afterTwo.stdev := by
    unfold VolatilityBaseline.stdev
    rw [if_neg (not_le.mpr hdebias)]
    refine Real.sqrt_pos.mpr ?_
    have := div_pos hvar hdebias
    rw [pyMax, if_neg (not_lt.mpr this.le)]
    exact this
  refine ⟨(0 - afterTwo.mean) / afterTwo.stdev, ?_⟩
  unfold VolatilityBaseline.zscore
  rw [if_neg (by simp [hready, measurable, hone, FloatMath.isFinite]), if_neg (not_le.mpr hstdev), log_one]
  rfl

theorem lastZscore_of_evaluate {d d' : RegimeDetector ℝ} {bar : SealedBar ℝ} {o : Option (RegimeTransition ℝ)}
    (h : d.evaluate bar = some (d', o)) : ∃ adjusted zscore,
      d.profile.deseasonalize bar.sigma (hourOf bar.ts) = some adjusted ∧
      d.baseline.zscore adjusted = some zscore ∧ d'.lastZscore = zscore := by
  obtain ⟨adjusted, zscore, u, hadj, hz, hu, hlearn⟩ := evaluate_eq_some h
  obtain ⟨baseline, profile, rfl, -, -⟩ := learn_eq_some hlearn
  refine ⟨adjusted, zscore, hadj, hz, ?_⟩
  unfold rebaseline at hu
  split at hu <;> cases hu <;> rfl

attribute [local instance] atLeastTwo_two in
def varied : List (SealedBar ℝ) :=
  [⟨1, 0, false, false, false⟩, ⟨2, 60000000, false, false, false⟩, ⟨1, 120000000, false, false, false⟩]

theorem aboveFloor_of_one_le {σ : ℝ} (h : 1 ≤ σ) : AboveFloor 2 σ :=
  Or.inr ⟨minSigma_lt_one.trans_le h, by linarith [minSigma_lt_one]⟩

theorem seesAboveFloor_of_few {d : RegimeDetector ℝ} {bar : SealedBar ℝ} (hσ : 1 ≤ bar.sigma)
    (hfew : d.profile.hourN (hourOf bar.ts) < d.profile.minSamples) : SeesAboveFloor 2 d bar := by
  refine ⟨aboveFloor_of_one_le hσ, fun adjusted hadj => ?_⟩
  rw [deseasonalize_of_few hfew, Option.mem_some_iff] at hadj
  exact hadj ▸ aboveFloor_of_one_le hσ

theorem seesAboveFloor_varied : Lts.Meets next (SeesAboveFloor 2) eagerDetector varied := by
  obtain ⟨mean, htwo⟩ := update_two
  have hfew : ∀ baseline mean n bar, n < 120 → 1 ≤ bar.sigma → hourOf bar.ts = hourOf 0 →
      SeesAboveFloor 2 (warming baseline mean n) bar := by
    intro baseline mean n bar hn hσ hhour
    refine seesAboveFloor_of_few hσ ?_
    rw [hhour]
    simpa [warming, profileOf, DiurnalProfile.cold] using hn
  refine ⟨seesAboveFloor_of_few le_rfl ?_, ?_⟩
  · simp [eagerDetector, realDetector, cold, DiurnalProfile.cold]
  · intro d₁ hd₁
    rw [next, update_one] at hd₁
    cases hd₁
    refine ⟨hfew _ _ _ _ (by norm_num) one_le_two (by decide), fun d₂ hd₂ => ?_⟩
    rw [next, htwo] at hd₂
    cases hd₂
    exact ⟨hfew _ _ _ _ (by norm_num) le_rfl (by decide), fun _ _ => trivial⟩

theorem fresh_eagerDetector : Fresh eagerDetector where
  baseline := rfl
  baselineOk := ⟨fresh_realDetector.baselineOk.1, by decide⟩
  profile := rfl
  profileOk := fresh_realDetector.profileOk
  rest := rfl

/-- The third bar is scored. -/
theorem lastZscore_three {mean : ℝ} {d : RegimeDetector ℝ} {o : Option (RegimeTransition ℝ)}
    (h : (warming afterTwo mean 2).update ⟨1, 120000000, false, false, false⟩ = some (d, o)) :
    d.lastZscore ≠ none := by
  have hevaluates : (warming afterTwo mean 2).Evaluates ⟨1, 120000000, false, false, false⟩ := by
    simp [Evaluates, gate, noteSession, gateReason, warmingUp, warming, eagerDetector, realDetector, cold,
      promptConfig]
  rw [update_of_evaluates hevaluates] at h
  obtain ⟨adjusted, zscore, hadj, hz, hlast⟩ := lastZscore_of_evaluate h
  have hsame := samePath_gate (warming afterTwo mean 2) ⟨1, 120000000, false, false, false⟩
  have hfew : (profileOf mean 2).hourN (hourOf 120000000) < (profileOf mean 2).minSamples := by
    rw [show hourOf 120000000 = hourOf 0 by decide]
    simp [profileOf, DiurnalProfile.cold]
  obtain ⟨z, hz'⟩ := zscore_afterTwo
  rw [hsame.profile] at hadj
  cases (deseasonalize_of_few hfew 1).symm.trans hadj
  rw [hsame.baseline] at hz
  cases hz'.symm.trans hz
  rw [hlast]
  exact Option.some_ne_none z

theorem readings_scaled_eagerDetector : ∃ shown : List (Reading ℝ),
    eagerDetector.readings varied = shown.map some ∧
    eagerDetector.readings (varied.map (SealedBar.scaled 2)) = (shown.map (Reading.scaled 2)).map some ∧
    ∃ r, shown[2]? = some r ∧ r.zscore ≠ none := by
  obtain ⟨shown, -, hshown, hscaled⟩ :=
    readings_scaled fresh_eagerDetector (by decide) two_pos seesAboveFloor_varied
  refine ⟨shown, hshown, hscaled, ?_⟩
  obtain ⟨mean, htwo⟩ := update_two
  have hthird := congrArg (fun readings => readings[2]?) hshown
  rw [List.getElem?_map, varied] at hthird
  simp only [readings, update_one, htwo] at hthird
  cases hthree : (warming afterTwo mean 2).update ⟨1, 120000000, false, false, false⟩ with
  | none =>
    rw [hthree] at hthird
    obtain ⟨r, -, hr⟩ := Option.map_eq_some_iff.mp hthird.symm
    cases hr
  | some r =>
    rw [hthree] at hthird
    obtain ⟨reading, hreading, heq⟩ := Option.map_eq_some_iff.mp hthird.symm
    cases heq
    exact ⟨_, hreading, lastZscore_three hthree⟩

end RegimeDetector

end FxTracker.Alerts
