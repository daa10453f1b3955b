import FxTracker.Alerts.Restore
import FxTracker.Lib.Lts
import Mathlib.Data.List.OfFn

/-!
# What a detector may learn from

The baseline rests from the bar that escalates until the regime is normal again or a bar is evaluated
`thaw_after` later. The profile learns on evaluated bars that leave the regime normal. Both hold across
restarts from any snapshot.

* `update_learning` — what an evaluated bar does to the baseline, the profile and a re-baselining
* `learning_isolated` — every run, with the baseline the last escalation found as a ghost
-/

namespace FxTracker.Alerts.RegimeDetector

variable {K : Type} [LE K] [DecidableLE K] [LT K] [DecidableLT K] [FloatMath K]
  {d d' : RegimeDetector K} {bar : SealedBar K} {o : Option (RegimeTransition K)}

/-! ## One bar -/

omit [LT K] [DecidableLT K] in
theorem learnBaseline_of_resting {adjusted : K} {baseline : VolatilityBaseline K}
    (h : d.learnBaseline adjusted = some baseline) (hregime : d.regime ≠ .normal)
    (hrest : d.rebaselining = false) : baseline = d.baseline := by
  unfold learnBaseline at h
  rw [if_neg (by simp [hregime, hrest])] at h
  exact (Option.some.inj h).symm

omit [LT K] [DecidableLT K] in
theorem learnProfile_of_stressed {sigma : K} {ts : Int} {profile : DiurnalProfile K}
    (h : d.learnProfile sigma ts = some profile) (hregime : d.regime ≠ .normal) :
    profile = d.profile := by
  unfold learnProfile at h
  rw [if_neg hregime] at h
  exact (Option.some.inj h).symm

omit [LT K] [DecidableLT K] [FloatMath K] in
/-- The freeze and the thaw leave the moments alone. -/
theorem moments_decideRegime (zscore : Option K) (adjusted : K) (ts : Int) :
    (d.decideRegime zscore adjusted ts).1.baseline.moments = d.baseline.moments := by
  unfold decideRegime
  simp only [apply_ite VolatilityBaseline.moments, VolatilityBaseline.moments_freeze,
    VolatilityBaseline.moments_thaw, ite_self]

omit [LT K] [DecidableLT K] [FloatMath K] in
theorem moments_rebaseline (ts : Int) : (d.rebaseline ts).baseline.moments = d.baseline.moments := by
  unfold rebaseline
  split
  · exact VolatilityBaseline.moments_thaw _
  · rfl

omit [LT K] [DecidableLT K] [FloatMath K] in
theorem rebaselining_rebaseline (ts : Int) :
    (d.rebaseline ts).rebaselining = (d.rebaselining || d.trigger.baselineShouldThaw ts) := by
  unfold rebaseline
  split
  · next h => simp [h.1]
  · next h =>
    cases hr : d.rebaselining with
    | true => rfl
    | false =>
      simp only [hr, and_true, Bool.not_eq_true] at h
      simp [h]

omit [LT K] [DecidableLT K] [FloatMath K] in
/-- A transition ends a re-baselining. -/
theorem rebaselining_decideRegime (zscore : Option K) (adjusted : K) (ts : Int) :
    (d.decideRegime zscore adjusted ts).1.rebaselining =
      (!(d.decideRegime zscore adjusted ts).2.isSome && d.rebaselining) := by
  unfold decideRegime
  dsimp only
  cases (d.trigger.update zscore adjusted ts true "").2 <;> rfl

/-- **What an evaluated bar does.** Outside the normal regime it leaves the profile alone, and the
moments too unless a re-baselining is in progress; and that one is in progress afterwards only if it
was before or the stress has lasted long enough. -/
theorem update_learning (h : d.update bar = some (d', o)) (he : d.Evaluates bar) :
    (d'.regime ≠ .normal → d'.profile = d.profile) ∧
    (d'.regime ≠ .normal → d'.rebaselining = false → d'.baseline.moments = d.baseline.moments) ∧
    d'.rebaselining =
      (!o.isSome && (d.rebaselining || d.trigger.baselineShouldThaw bar.ts)) := by
  have hsame := samePath_gate d bar
  rw [update_of_evaluates he] at h
  obtain ⟨adjusted, zscore, u, -, -, hu, hlearn⟩ := evaluate_eq_some h
  obtain ⟨baseline, profile, rfl, hb, hp⟩ := learn_eq_some hlearn
  have hmoments : u.baseline.moments = d.baseline.moments := by
    have hdec := moments_decideRegime (d := ({ (d.gate bar).1 with lastZscore := zscore } :
      RegimeDetector K).rebaseline bar.ts) zscore adjusted bar.ts
    rw [hu, moments_rebaseline] at hdec
    rw [hdec]
    exact congrArg VolatilityBaseline.moments hsame.baseline
  have hprofile : u.profile = d.profile := by
    have hreb : (({ (d.gate bar).1 with lastZscore := zscore } :
        RegimeDetector K).rebaseline bar.ts).profile = (d.gate bar).1.profile := by
      unfold rebaseline
      split <;> rfl
    rw [← hsame.profile, ← hreb]
    exact congrArg (fun r => r.1.profile) hu.symm
  have hrest : u.rebaselining =
      (!o.isSome && (d.rebaselining || d.trigger.baselineShouldThaw bar.ts)) := by
    have hreb := rebaselining_rebaseline (d := ({ (d.gate bar).1 with lastZscore := zscore } :
      RegimeDetector K)) bar.ts
    rw [hsame.rebaselining, hsame.trigger] at hreb
    have hdec := rebaselining_decideRegime (d := ({ (d.gate bar).1 with lastZscore := zscore } :
      RegimeDetector K).rebaseline bar.ts) zscore adjusted bar.ts
    rw [hu, hreb] at hdec
    exact hdec
  refine ⟨fun hregime => ?_, fun hregime hr => ?_, hrest⟩
  · exact (learnProfile_of_stressed hp hregime).trans hprofile
  · dsimp only at hr ⊢
    rw [learnBaseline_of_resting hb hregime hr, hmoments]

/-- A bar that is not evaluated teaches nothing. -/
theorem update_of_not_evaluates (h : d.update bar = some (d', o)) (he : ¬ d.Evaluates bar) :
    d'.baseline = d.baseline ∧ d'.profile = d.profile ∧ d'.rebaselining = d.rebaselining := by
  obtain ⟨u, o', hu, hb, hp, hr, -⟩ := exists_update_of_refused he
  rw [hu] at h
  cases h
  exact ⟨hb, hp, hr⟩

/-! ## What an escalation pins -/

/-- The moments an escalation found, and when it was committed. -/
structure Pin (K : Type) where
  moments : K × K × Int × K
  escalated : Int

/-- An evaluated bar arrives at least `thaw_after` after the escalation. -/
def Thaws (d : RegimeDetector K) (bar : SealedBar K) (pin : Pin K) : Prop :=
  d.Evaluates bar ∧ d.triggerConfig.thawAfter ≤ bar.ts - pin.escalated

instance (d : RegimeDetector K) (bar : SealedBar K) (pin : Pin K) : Decidable (d.Thaws bar pin) :=
  inferInstanceAs (Decidable (_ ∧ _))

/-- What is pinned after a bar: from an escalation on, until the regime is normal or a bar thaws. -/
def pinAfter (d : RegimeDetector K) (bar : SealedBar K) (d' : RegimeDetector K)
    (o : Option (RegimeTransition K)) (pin : Option (Pin K)) : Option (Pin K) :=
  if o.any fun tr => tr.newRegime = .stressed then
    some { moments := d.baseline.moments, escalated := bar.ts }
  else if d'.regime = .normal then none
  else pin.filter fun pin => ¬ d.Thaws bar pin

/-- The baseline rests as the escalation found it. -/
structure Pinned (d : RegimeDetector K) (pin : Pin K) : Prop where
  regime : d.regime = .stressed
  since : d.trigger.regimeSince = some pin.escalated
  rest : d.rebaselining = false
  moments : d.baseline.moments = pin.moments

/-- The trigger runs under the detector's configuration. -/
def Configured (d : RegimeDetector K) : Prop := d.trigger.config = d.triggerConfig

theorem configured_update (hc : d.Configured) (h : d.update bar = some (d', o)) : d'.Configured := by
  have hstep := update_step h
  obtain ⟨-, -, htrigger, -⟩ := update_fixed h
  unfold Configured at *
  cases o with
  | none => rw [hstep.2.2, htrigger, hc]
  | some tr => rw [hstep.fixed.2, htrigger, hc]

omit [LT K] [DecidableLT K] [FloatMath K] in
/-- Lost observation can only end the stress. -/
theorem newRegime_hold {t : SchmittTrigger K} {ts : Int} {why : String} {tr : RegimeTransition K}
    (h : (t.hold ts why).2 = some tr) : tr.newRegime = .normal := by
  unfold SchmittTrigger.hold at h
  dsimp only at h
  split at h
  · cases h
    rfl
  · cases h

/-- Only an evaluated bar escalates. -/
theorem evaluates_of_escalation (h : d.update bar = some (d', o)) {tr : RegimeTransition K}
    (htr : tr ∈ o) (hnew : tr.newRegime = .stressed) : d.Evaluates bar := by
  by_contra he
  obtain ⟨reason, -, heq⟩ := update_of_refused he
  rw [heq] at h
  cases h
  have hnormal := newRegime_hold (t := d.trigger) htr
  rw [hnew] at hnormal
  cases hnormal

/-- An escalation pins the moments it found. -/
theorem pinned_escalation (h : d.update bar = some (d', o)) {tr : RegimeTransition K} (htr : tr ∈ o)
    (hnew : tr.newRegime = .stressed) :
    d'.Pinned { moments := d.baseline.moments, escalated := bar.ts } := by
  obtain ⟨-, hmoments, hrest⟩ := update_learning h (evaluates_of_escalation h htr hnew)
  have hcommit := update_step h
  cases htr
  have hregime : d'.regime = .stressed :=
    (congrArg TriggerSnapshot.regime hcommit.snapshot).trans hnew
  have hr : d'.rebaselining = false := by rw [hrest]; rfl
  refine ⟨hregime, congrArg TriggerSnapshot.regimeSince hcommit.snapshot, hr, ?_⟩
  refine hmoments ?_ hr
  rw [hregime]
  decide

/-- A bar that neither ends the stress nor thaws leaves a pin as it is. -/
theorem Pinned.update {pin : Pin K} (hp : d.Pinned pin) (hc : d.Configured)
    (h : d.update bar = some (d', o)) (ho : ¬ o.any fun tr => tr.newRegime = .stressed)
    (hstressed : d'.regime ≠ .normal) (hthaw : ¬ d.Thaws bar pin) : d'.Pinned pin := by
  have hstep := update_step h
  cases o with
  | some tr =>
    -- a transition that is no escalation ends the stress
    refine absurd ?_ hstressed
    rw [Option.any_some, decide_eq_true_eq] at ho
    have hregime : d'.regime = tr.newRegime := congrArg TriggerSnapshot.regime hstep.snapshot
    rw [hregime]
    cases hnew : tr.newRegime with
    | normal => rfl
    | stressed => exact absurd hnew ho
  | none =>
    have hregime : d'.regime = d.regime := congrArg TriggerSnapshot.regime hstep.1
    have hsince : d'.trigger.regimeSince = d.trigger.regimeSince :=
      congrArg TriggerSnapshot.regimeSince hstep.1
    by_cases he : d.Evaluates bar
    · obtain ⟨-, hmoments, hrest⟩ := update_learning h he
      have hr : d'.rebaselining = false := by
        have hno : d.trigger.baselineShouldThaw bar.ts = false := by
          unfold SchmittTrigger.baselineShouldThaw
          rw [show d.trigger.regime = .stressed from hp.regime, hp.since]
          dsimp only
          rw [decide_eq_false_iff_not, hc]
          exact fun hle => hthaw ⟨he, hle⟩
        rw [hrest, hp.rest, hno]
        rfl
      exact ⟨hregime.trans hp.regime, hsince.trans hp.since, hr,
        (hmoments hstressed hr).trans hp.moments⟩
    · obtain ⟨hb, -, hr⟩ := update_of_not_evaluates h he
      exact ⟨hregime.trans hp.regime, hsince.trans hp.since, hr.trans hp.rest,
        (congrArg VolatilityBaseline.moments hb).trans hp.moments⟩

/-- **One bar keeps what is pinned.** -/
theorem pinned_update (hc : d.Configured) (h : d.update bar = some (d', o)) {pin : Option (Pin K)}
    (hpin : ∀ p ∈ pin, d.Pinned p) : ∀ p ∈ d.pinAfter bar d' o pin, d'.Pinned p := by
  intro p hp
  unfold pinAfter at hp
  split at hp
  · next hesc =>
    obtain ⟨tr, htr, hnew⟩ := (Option.any_eq_true ..).mp hesc
    cases hp
    exact pinned_escalation h htr (of_decide_eq_true hnew)
  · next hesc =>
    split at hp
    · cases hp
    · next hstressed =>
      obtain ⟨hp, hthaw⟩ := Option.mem_filter_iff.mp hp
      exact (hpin p hp).update hc h hesc hstressed (of_decide_eq_true hthaw)

/-! ## Runs -/

/-- A detector freshly built with the configuration of `d`. -/
def rebuilt (d : RegimeDetector K) : RegimeDetector K :=
  { cold d.symbol d.config d.triggerConfig d.marketIsOpen with
    baseline := { VolatilityBaseline.cold with minSamples := d.baseline.minSamples }
    profile := { DiurnalProfile.cold with
      minSamples := d.profile.minSamples
      minReadyHours := d.profile.minReadyHours } }

/-- The moments and the hours of the profile. -/
def learned (d : RegimeDetector K) : (K × K × Int × K) × (Fin 24 → K) × (Fin 24 → Int) :=
  (d.baseline.moments, d.profile.hourMean, d.profile.hourN)

/-- What a detector restored from a snapshot of `d` has of it. -/
theorem restore_snapshot {e : RegimeDetector K} (h : d.rebuilt.restore d.snapshot = (e, true)) :
    e.learned = d.learned ∧ e.Configured ∧ ∀ p, d.Pinned p → e.Pinned p := by
  have hvalid : (d.rebuilt.restore d.snapshot).2 = true := by rw [h]
  obtain ⟨baseline, profile, hb, hp⟩ := exists_of_restore hvalid
  rw [restore_of_some hb hp] at h
  cases h
  have hmoments : baseline.moments = d.baseline.moments := by
    unfold VolatilityBaseline.restore at hb
    split at hb
    · cases hb
      rfl
    · cases hb
  have hhours : profile.hourMean = d.profile.hourMean ∧ profile.hourN = d.profile.hourN := by
    unfold DiurnalProfile.restore at hp
    split at hp
    · split at hp
      · cases hp
        constructor <;> funext hour <;> exact List.get_ofFn ..
      · cases hp
    · cases hp
  refine ⟨?_, rfl, fun p hp => ⟨hp.regime, hp.since, rfl, hmoments.trans hp.moments⟩⟩
  unfold learned
  rw [hmoments, hhours.1, hhours.2]

/-- A detector at some point of a run, with what is pinned (a ghost), and the detectors whose snapshots
have been taken. -/
structure Course (K : Type) [LE K] [DecidableLE K] where
  detector : RegimeDetector K
  pin : Option (Pin K) := none
  taken : List (RegimeDetector K × Option (Pin K)) := []

inductive CourseAction (K : Type)
  | bar (bar : SealedBar K)
  | snapshot
  /-- Snapshot `i` into a freshly built detector. -/
  | restore (i : Nat)

def Course.step (s : Course K) : CourseAction K → Option (Course K)
  | .bar bar => (s.detector.update bar).map fun r =>
    { s with
      detector := r.1
      pin := s.detector.pinAfter bar r.1 r.2 s.pin }
  | .snapshot => some { s with taken := (s.detector, s.pin) :: s.taken }
  | .restore i => s.taken[i]?.bind fun old =>
    match old.1.rebuilt.restore old.1.snapshot with
    | (d, true) => some { s with detector := d, pin := old.2 }
    | (_, false) => none

/-- A detector of any past, with nothing pinned. -/
def learningLts (K : Type) [LE K] [DecidableLE K] [LT K] [DecidableLT K] [FloatMath K] :
    Lts (Course K) (CourseAction K) where
  init s := s.detector.Configured ∧ s.pin = none ∧ s.taken = []
  step s a t := s.step a = some t

/-- What is pinned rests, now and in every snapshot. -/
structure Course.Inv (s : Course K) : Prop where
  configured : s.detector.Configured
  pinned : ∀ p ∈ s.pin, s.detector.Pinned p
  taken : ∀ old ∈ s.taken, old.1.Configured ∧ ∀ p ∈ old.2, old.1.Pinned p

theorem Course.Inv.step {s t : Course K} {a : CourseAction K} (hi : s.Inv) (h : s.step a = some t) :
    t.Inv := by
  cases a with
  | bar bar =>
    obtain ⟨⟨d, o⟩, hu, rfl⟩ := Option.map_eq_some_iff.mp h
    exact ⟨configured_update hi.configured hu, pinned_update hi.configured hu hi.pinned, hi.taken⟩
  | snapshot =>
    cases h
    refine ⟨hi.configured, hi.pinned, fun old hold => ?_⟩
    rcases List.mem_cons.mp hold with rfl | hold
    · exact ⟨hi.configured, hi.pinned⟩
    · exact hi.taken old hold
  | restore i =>
    obtain ⟨old, hold, hs⟩ := Option.bind_eq_some_iff.mp h
    split at hs
    · next e he =>
      cases hs
      obtain ⟨-, hc, hpin⟩ := restore_snapshot he
      have hp := (hi.taken old (List.mem_of_getElem? hold)).2
      exact ⟨hc, fun p hmem => hpin p (hp p hmem), hi.taken⟩
    · cases hs

theorem inv_of_reachable {s : Course K} (hr : (learningLts K).Reachable s) : s.Inv :=
  hr.invariant (fun s hs => by
    obtain ⟨hc, hpin, htaken⟩ := hs
    refine ⟨hc, fun p hp => ?_, fun old hold => ?_⟩
    · rw [hpin] at hp
      cases hp
    · rw [htaken] at hold
      cases hold) fun _ _ _ hi h => hi.step h

/-- **Learning is isolated.** In every run of a detector, with restarts from any of its snapshots: while
an escalation pins them the moments are what it found; the profile changes only on an evaluated bar that
leaves the regime normal; a bar that is not evaluated changes neither; and a restart brings back what
the snapshot was taken of. -/
theorem learning_isolated {s : Course K} (hr : (learningLts K).Reachable s) :
    (∀ pin ∈ s.pin, s.detector.baseline.moments = pin.moments) ∧
    (∀ bar d' o, s.detector.update bar = some (d', o) →
      (d'.profile = s.detector.profile ∨ s.detector.Evaluates bar ∧ d'.regime = .normal) ∧
      (¬ s.detector.Evaluates bar →
        d'.baseline = s.detector.baseline ∧ d'.profile = s.detector.profile)) ∧
    ∀ old ∈ s.taken, ∀ e, old.1.rebuilt.restore old.1.snapshot = (e, true) →
      e.learned = old.1.learned := by
  have hi := inv_of_reachable hr
  refine ⟨fun p hp => (hi.pinned p hp).moments, fun bar d' o hu => ⟨?_, fun he => ?_⟩,
    fun old _ e he => (restore_snapshot he).1⟩
  · by_cases he : s.detector.Evaluates bar
    · by_cases hregime : d'.regime = .normal
      · exact .inr ⟨he, hregime⟩
      · exact .inl ((update_learning hu he).1 hregime)
    · exact .inl (update_of_not_evaluates hu he).2.1
  · obtain ⟨hb, hp, -⟩ := update_of_not_evaluates hu he
    exact ⟨hb, hp⟩

/-- A detector that escalates on its next bar. -/
def sampleReady : RegimeDetector ℚ :=
  { sampleFresh with
    baseline :=
      { lam := 1 / 2, minSamples := 30, mean := -5, var := 1, n := 30, frozen := false, debias := 1 }
    contiguousOk := 3 }

/-- An escalation, a restart, a bar that re-arms. -/
def escalateAndRestart : List (CourseAction ℚ) :=
  [.bar (sampleBar 1), .snapshot, .restore 0, .bar (sampleBar 2)]

theorem learning_isolated_escalateAndRestart :
    ∃ s, Lts.exec Course.step { detector := sampleReady } escalateAndRestart = some s ∧
      ∃ pin ∈ s.pin, pin.escalated = 1 ∧ s.detector.baseline.moments = pin.moments := by
  have h : (Lts.exec Course.step { detector := sampleReady } escalateAndRestart).any
      (fun s => s.pin.any fun pin => pin.escalated = 1) = true := by decide +kernel
  obtain ⟨s, hs, hpin⟩ := (Option.any_eq_true ..).mp h
  obtain ⟨pin, hmem, hescalated⟩ := (Option.any_eq_true ..).mp hpin
  have hinit : (learningLts ℚ).init { detector := sampleReady } := ⟨rfl, rfl, rfl⟩
  have hr : (learningLts ℚ).Reachable s := Lts.Reachable.exec (fun _ _ _ h => h) (.init hinit) hs
  exact ⟨s, hs, pin, hmem, of_decide_eq_true hescalated, (learning_isolated hr).1 pin hmem⟩

end FxTracker.Alerts.RegimeDetector
