import FxTracker.Alerts.Warmup

/-!
# What a restore leaves of the past

`restore` replaces the trigger, the baseline and the profile. What the gates and the re-arm count
remember, and whether a re-baselining is in progress, stay as they were.

* `Alike.update` — detectors that differ in nothing an update reads go on alike
* `readings_restore` — after a restore of one snapshot, detectors whose gates agree read alike
-/

namespace FxTracker.Alerts.RegimeDetector

variable {K : Type} [LE K] [DecidableLE K]

/-- The same symbol, configuration and calendar. -/
structure SameSetup (d d' : RegimeDetector K) : Prop where
  symbol : d'.symbol = d.symbol
  config : d'.config = d.config
  triggerConfig : d'.triggerConfig = d.triggerConfig
  marketIsOpen : d'.marketIsOpen = d.marketIsOpen
  minSamples : d'.baseline.minSamples = d.baseline.minSamples
  hourSamples : d'.profile.minSamples = d.profile.minSamples
  readyHours : d'.profile.minReadyHours = d.profile.minReadyHours

/-- The gates and the re-arm count remember the same, as far as an update reads it: of the last bar's
session that the market was closed, and of a count past `rearm_bars` that it is. -/
structure GatesAgree (d d' : RegimeDetector K) : Prop where
  wasClosed : d'.wasOpen = some false ↔ d.wasOpen = some false
  contiguousOk : d'.contiguousOk = d.contiguousOk ∨
    d.config.rearmBars ≤ d'.contiguousOk ∧ d.config.rearmBars ≤ d.contiguousOk

/-- The detector with another session state and another re-arm count. -/
def withGates (d : RegimeDetector K) (wasOpen : Option Bool) (count : Int) : RegimeDetector K :=
  { d with wasOpen, contiguousOk := count }

/-- The detectors differ in nothing an update reads. -/
structure Alike (d d' : RegimeDetector K) : Prop where
  same : d' = { d.withGates d'.wasOpen d'.contiguousOk with lastZscore := d'.lastZscore }
  gates : GatesAgree d d'

/-- What a detector shows after a bar. -/
structure Reading (K : Type) where
  transition : Option (RegimeTransition K)
  zscore : Option K
  regime : Regime
  deriving DecidableEq

variable [LT K] [DecidableLT K] [FloatMath K] {d d' : RegimeDetector K} {bar : SealedBar K}

/-- What a detector shows over a run of bars, up to an exception (`none`). -/
def readings (d : RegimeDetector K) : List (SealedBar K) → List (Option (Reading K))
  | [] => []
  | bar :: bars =>
    match d.update bar with
    | none => [none]
    | some (d, transition) =>
      some { transition, zscore := d.lastZscore, regime := d.regime } :: d.readings bars

/-! ## Alike detectors go on alike -/

section Gates

variable (d : RegimeDetector K) (wasOpen : Option Bool) (count : Int)

omit [LT K] [DecidableLT K] [FloatMath K] in
theorem rebaseline_withGates (ts : Int) :
    (d.withGates wasOpen count).rebaseline ts = (d.rebaseline ts).withGates wasOpen count := by
  unfold rebaseline withGates
  by_cases h : d.trigger.baselineShouldThaw ts ∧ d.rebaselining = false
  · rw [if_pos h, if_pos h]
  · rw [if_neg h, if_neg h]

omit [LT K] [DecidableLT K] [FloatMath K] in
theorem decideRegime_withGates (zscore : Option K) (adjusted : K) (ts : Int) :
    (d.withGates wasOpen count).decideRegime zscore adjusted ts =
      ((d.decideRegime zscore adjusted ts).1.withGates wasOpen count,
        (d.decideRegime zscore adjusted ts).2) :=
  rfl

omit [LT K] [DecidableLT K] in
theorem learn_withGates (sigma adjusted : K) (ts : Int) :
    (d.withGates wasOpen count).learn sigma adjusted ts =
      (d.learn sigma adjusted ts).map fun u => u.withGates wasOpen count := by
  have hb : (d.withGates wasOpen count).learnBaseline adjusted = d.learnBaseline adjusted := rfl
  have hp : (d.withGates wasOpen count).learnProfile sigma ts = d.learnProfile sigma ts := rfl
  unfold learn
  rw [hb, hp]
  cases d.learnBaseline adjusted with
  | none => rfl
  | some b => cases d.learnProfile sigma ts <;> rfl

/-- Once a bar is evaluated the gates are not read again, nor the last score. -/
theorem evaluate_withGates (z : Option K) (bar : SealedBar K) :
    ({ d.withGates wasOpen count with lastZscore := z } : RegimeDetector K).evaluate bar =
      (d.evaluate bar).map fun r => (r.1.withGates wasOpen count, r.2) := by
  generalize hd : ({ d.withGates wasOpen count with lastZscore := z } : RegimeDetector K) = e
  have hprofile : e.profile = d.profile := by rw [← hd]; rfl
  have hbaseline : e.baseline = d.baseline := by rw [← hd]; rfl
  have hwith : ∀ z, ({ e with lastZscore := z } : RegimeDetector K) =
      ({ d with lastZscore := z } : RegimeDetector K).withGates wasOpen count := by
    intro z
    rw [← hd]
    rfl
  cases hadj : d.profile.deseasonalize bar.sigma (hourOf bar.ts) with
  | none => simp [evaluate, hprofile, hadj]
  | some adjusted =>
    cases hz : d.baseline.zscore adjusted with
    | none => simp [evaluate, hprofile, hbaseline, hadj, hz]
    | some zscore =>
      obtain ⟨⟨u, o⟩, hu⟩ : ∃ r, (({ d with lastZscore := zscore } : RegimeDetector K).rebaseline
          bar.ts).decideRegime zscore adjusted bar.ts = r := ⟨_, rfl⟩
      have hu' : (({ e with lastZscore := zscore } : RegimeDetector K).rebaseline bar.ts).decideRegime
          zscore adjusted bar.ts = (u.withGates wasOpen count, o) := by
        rw [hwith, rebaseline_withGates, decideRegime_withGates, hu]
      rw [evaluate_eq hadj hz hu, evaluate_eq (hprofile ▸ hadj) (hbaseline ▸ hz) hu',
        learn_withGates, Option.map_map, Option.map_map]
      rfl

end Gates

omit [LT K] [DecidableLT K] [FloatMath K] in
/-- Alike detectors note the session alike. -/
theorem Alike.noteSession (h : Alike d d') (ts : Int) :
    d'.noteSession ts = { d.noteSession ts with
      contiguousOk := d'.contiguousOk, lastZscore := d'.lastZscore } := by
  obtain ⟨hsame, hclosed, -⟩ := h
  have hopened : (d'.wasOpen = some false ∧ d'.marketIsOpen ts = true) ↔
      (d.wasOpen = some false ∧ d.marketIsOpen ts = true) := by
    rw [hclosed, hsame]
    rfl
  unfold RegimeDetector.noteSession
  rw [if_congr hopened rfl rfl, hsame]
  rfl

omit [LT K] [DecidableLT K] [FloatMath K] in
/-- The gates give alike detectors one answer, and leave them alike. -/
theorem Alike.gate (h : Alike d d') (bar : SealedBar K) :
    (d'.gate bar).2 = (d.gate bar).2 ∧ Alike (d.gate bar).1 (d'.gate bar).1 := by
  have hnote := h.noteSession bar.ts
  have hcount := h.gates.contiguousOk
  have hreason : (d'.noteSession bar.ts).gateReason bar = (d.noteSession bar.ts).gateReason bar := by
    rw [hnote]
    rfl
  unfold RegimeDetector.gate
  dsimp only
  rw [hreason, hnote]
  cases (d.noteSession bar.ts).gateReason bar with
  | some gate => exact ⟨rfl, rfl, Iff.rfl, .inl rfl⟩
  | none =>
    have hconfig : (d.noteSession bar.ts).config = d.config := rfl
    have hok : (d.noteSession bar.ts).contiguousOk = d.contiguousOk := rfl
    dsimp only
    rw [hconfig, hok]
    -- the counts are equal, or both past the threshold
    by_cases hle : d.contiguousOk + 1 ≤ d.config.rearmBars
    · have heq : d'.contiguousOk = d.contiguousOk := by omega
      rw [if_pos hle, if_pos (by omega), heq]
      exact ⟨rfl, rfl, Iff.rfl, .inl rfl⟩
    · rw [if_neg hle, if_neg (by omega)]
      refine ⟨rfl, rfl, Iff.rfl, ?_⟩
      show d'.contiguousOk + 1 = d.contiguousOk + 1 ∨
        d.config.rearmBars ≤ d'.contiguousOk + 1 ∧ d.config.rearmBars ≤ d.contiguousOk + 1
      omega

omit [LT K] [DecidableLT K] [FloatMath K] in
/-- A bar that is not evaluated has no score. -/
theorem lastZscore_of_refused (h : ¬ d.Evaluates bar) : (d.gate bar).1.lastZscore = none := by
  unfold Evaluates RegimeDetector.gate at h
  unfold RegimeDetector.gate
  dsimp only at h ⊢
  cases hg : (d.noteSession bar.ts).gateReason bar with
  | some gate => rfl
  | none =>
    rw [hg] at h
    dsimp only at h ⊢
    split
    · rfl
    · next hlt => exact absurd (by rw [if_neg hlt]) h

/-- What an evaluated bar leaves of the gates. -/
theorem evaluate_gates {u : RegimeDetector K} {o : Option (RegimeTransition K)}
    (h : d.evaluate bar = some (u, o)) :
    u.wasOpen = d.wasOpen ∧ u.contiguousOk = d.contiguousOk ∧ u.config = d.config := by
  obtain ⟨adjusted, zscore, v, -, -, hv, hlearn⟩ := evaluate_eq_some h
  obtain ⟨baseline, profile, rfl, -, -⟩ := learn_eq_some hlearn
  unfold rebaseline at hv
  split at hv <;> cases hv <;> exact ⟨rfl, rfl, rfl⟩

/-- **Alike detectors answer a bar alike**, and stay alike. -/
theorem Alike.update (h : Alike d d') (bar : SealedBar K) :
    (d.update bar = none ∧ d'.update bar = none) ∨
      ∃ u u' o, d.update bar = some (u, o) ∧ d'.update bar = some (u', o) ∧ Alike u u' ∧
        u'.lastZscore = u.lastZscore := by
  obtain ⟨hreason, hgated⟩ := h.gate bar
  by_cases he : d.Evaluates bar
  · rw [update_of_evaluates he, update_of_evaluates (hreason.trans he), hgated.same,
      evaluate_withGates]
    cases hu : (d.gate bar).1.evaluate bar with
    | none => exact .inl ⟨rfl, rfl⟩
    | some r =>
      obtain ⟨hopen, hcount, hconfig⟩ := evaluate_gates (u := r.1) (o := r.2) hu
      refine .inr ⟨r.1, _, r.2, rfl, rfl, ⟨rfl, ?_, ?_⟩, rfl⟩
      · rw [hopen]
        exact hgated.gates.wasClosed
      · rw [hcount, hconfig]
        exact hgated.gates.contiguousOk
  · have he' : ¬ d'.Evaluates bar := fun hn => he (hreason.symm.trans hn)
    obtain ⟨reason, hr, hu⟩ := update_of_refused he
    obtain ⟨reason', hr', hu'⟩ := update_of_refused he'
    rw [hr, hr', Option.some.injEq] at hreason
    have htrigger : d'.trigger = d.trigger := by rw [h.same]; rfl
    rw [hreason, htrigger] at hu'
    have hz : (d'.gate bar).1.lastZscore = (d.gate bar).1.lastZscore :=
      (lastZscore_of_refused he').trans (lastZscore_of_refused he).symm
    refine .inr ⟨_, _, _, hu, hu', ⟨?_, hgated.gates.wasClosed, hgated.gates.contiguousOk⟩, hz⟩
    rw [hgated.same]
    rfl

/-- Alike detectors show the same over every run of bars. -/
theorem Alike.readings (h : Alike d d') (bars : List (SealedBar K)) :
    d'.readings bars = d.readings bars := by
  induction bars generalizing d d' with
  | nil => rfl
  | cons bar bars ih =>
    unfold RegimeDetector.readings
    rcases h.update bar with ⟨hn, hn'⟩ | ⟨u, u', o, hu, hu', halike, hz⟩
    · rw [hn, hn']
    · have hregime : u'.regime = u.regime := by rw [halike.same]; rfl
      rw [hu, hu']
      dsimp only
      rw [hz, hregime, ih halike]

/-! ## Restored detectors -/

/-- Two detectors remember alike what `restore` does not replace. -/
structure PastsAgree (d d' : RegimeDetector K) : Prop where
  gates : GatesAgree d d'
  openedAt : d'.openedAt = d.openedAt
  rebaselining : d'.rebaselining = d.rebaselining

/-- A snapshot is restored where both estimators take their parts. -/
theorem restore_of_some {s : DetectorSnapshot K} {baseline : VolatilityBaseline K}
    {profile : DiurnalProfile K}
    (hb : VolatilityBaseline.restore s.baseline d.baseline.minSamples = some baseline)
    (hp : DiurnalProfile.restore s.profile d.profile.minSamples d.profile.minReadyHours =
      some profile) :
    d.restore s = ({ d with
      trigger := SchmittTrigger.restore d.symbol s.trigger d.triggerConfig
      baseline
      profile }, true) := by
  unfold restore
  dsimp only
  rw [hb]
  dsimp only
  rw [hp]

theorem exists_of_restore {s : DetectorSnapshot K} (h : (d.restore s).2 = true) :
    ∃ baseline profile,
      VolatilityBaseline.restore s.baseline d.baseline.minSamples = some baseline ∧
      DiurnalProfile.restore s.profile d.profile.minSamples d.profile.minReadyHours =
        some profile := by
  unfold restore at h
  dsimp only at h
  cases hb : VolatilityBaseline.restore s.baseline d.baseline.minSamples with
  | none => rw [hb] at h; cases h
  | some baseline =>
    rw [hb] at h
    dsimp only at h
    cases hp : DiurnalProfile.restore s.profile d.profile.minSamples d.profile.minReadyHours with
    | none => rw [hp] at h; cases h
    | some profile => exact ⟨baseline, profile, rfl, rfl⟩

/-- One snapshot makes detectors of one setup alike if their pasts agree. -/
theorem alike_restore {s : DetectorSnapshot K} (hsetup : SameSetup d d') (hpast : PastsAgree d d')
    (hvalid : (d.restore s).2 = true) : Alike (d.restore s).1 (d'.restore s).1 := by
  obtain ⟨baseline, profile, hb, hp⟩ := exists_of_restore hvalid
  have hb' : VolatilityBaseline.restore s.baseline d'.baseline.minSamples = some baseline := by
    rw [hsetup.minSamples, hb]
  have hp' : DiurnalProfile.restore s.profile d'.profile.minSamples d'.profile.minReadyHours =
      some profile := by
    rw [hsetup.hourSamples, hsetup.readyHours, hp]
  rw [restore_of_some hb hp, restore_of_some hb' hp']
  refine ⟨?_, hpast.gates.wasClosed, hpast.gates.contiguousOk⟩
  unfold withGates
  dsimp only
  rw [hsetup.symbol, hsetup.config, hsetup.triggerConfig, hsetup.marketIsOpen, hpast.openedAt,
    hpast.rebaselining]

/-- **A restored detector depends only on the snapshot where the pasts agree** on whether the last bar
was fed with the market closed, on the remembered opening, on the re-arm count as far as `rearm_bars`,
and on whether a re-baselining is in progress. -/
theorem readings_restore (d d' : RegimeDetector K) (s : DetectorSnapshot K)
    (hsetup : SameSetup d d') (hpast : PastsAgree d d') (hvalid : (d.restore s).2 = true)
    (bars : List (SealedBar K)) :
    (d'.restore s).1.readings bars = (d.restore s).1.readings bars :=
  (alike_restore hsetup hpast hvalid).readings bars

/-- A baseline that is ready, and a profile that is not. -/
def sampleSnapshot : DetectorSnapshot ℚ where
  trigger :=
    { regime := .normal, seq := 0, regimeSince := none, lastEscalation := none, thawed := false }
  baseline := { lam := 1 / 2, mean := 0, var := 1, n := 30, debias := 1, frozen := false }
  profile := { lam := 1 / 2, hourMean := List.replicate 24 0, hourN := List.replicate 24 0 }

/-- In a market that never closes. -/
def sampleFresh : RegimeDetector ℚ := sampleDetector fun _ => true

/-- The same after `count` bars in a row. -/
def sampleFed (count : Int) : RegimeDetector ℚ :=
  { sampleFresh with
    wasOpen := some true
    contiguousOk := count
    trigger := sampleFresh.trigger.lose 1 "re-arming after gate" }

/-- Three bars and four are both enough to re-arm. -/
theorem readings_restore_rearmed :
    ((sampleFed 4).restore sampleSnapshot).1.readings [sampleBar 5] =
      ((sampleFed 3).restore sampleSnapshot).1.readings [sampleBar 5] :=
  readings_restore (sampleFed 3) (sampleFed 4) sampleSnapshot ⟨rfl, rfl, rfl, rfl, rfl, rfl, rfl⟩
    ⟨⟨Iff.rfl, .inr (by decide)⟩, rfl, rfl⟩ (by decide +kernel) [sampleBar 5]

/-- **The re-arm count outlives a restore.** Of two detectors one has been fed three bars: after a
restore of one snapshot the next bar has a score in it, and none in the other. -/
theorem rearm_outlives_restore :
    sampleFresh.feed [sampleBar 1, sampleBar 2, sampleBar 3] = some (sampleFed 3) ∧
      SameSetup sampleFresh (sampleFed 3) ∧ (sampleFresh.restore sampleSnapshot).2 = true ∧
      (sampleFresh.restore sampleSnapshot).1.readings [sampleBar 4] =
        [some { transition := none, zscore := none, regime := .normal }] ∧
      ((sampleFed 3).restore sampleSnapshot).1.readings [sampleBar 4] =
        [some { transition := none, zscore := some 0, regime := .normal }] := by
  refine ⟨rfl, ⟨rfl, rfl, rfl, rfl, rfl, rfl, rfl⟩, ?_, ?_, ?_⟩ <;> decide +kernel

end FxTracker.Alerts.RegimeDetector
