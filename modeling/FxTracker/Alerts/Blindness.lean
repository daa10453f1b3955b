import FxTracker.Alerts.CommitRule
import Mathlib.Data.List.DropRight

/-!
# How long a stressed trigger may go without a sample

`_hold` gives a stressed regime up once `observation_timeout` has gone by without a sample to evaluate.
The time is counted from the first update that was held, not from the last one that was evaluated, and
between these two there may be no update at all.

* `unobservedSince_after` — the timer stands at the first of the held updates a history ends with
* `bounded_iff` — so a held update finds the stress bounded exactly when that one is as far back as the
  bound, or the last evaluated one is not
-/

namespace FxTracker.Alerts.SchmittTrigger

variable {K : Type*} [LE K] [DecidableLE K]

/-! ## Held updates -/

namespace Sample

/-- The update is armed and has a z-score. -/
def evaluated (x : Sample K) : Bool := x.armed && x.z.isSome

end Sample

/-- When a history was last evaluated. -/
def lastEvaluated (xs : List (Sample K)) : Option Int :=
  (xs.filter Sample.evaluated).getLast?.map Sample.ts

/-- The first of the held updates a history ends with. -/
def heldSince (xs : List (Sample K)) : Option Int :=
  (xs.rtakeWhile fun x => !x.evaluated).head?.map Sample.ts

omit [LE K] [DecidableLE K] in
theorem heldSince_concat (xs : List (Sample K)) (x : Sample K) :
    heldSince (xs ++ [x]) =
      if x.evaluated = true then none else some ((heldSince xs).getD x.ts) := by
  unfold heldSince
  cases hx : x.evaluated with
  | true => simp [hx]
  | false =>
    rw [List.rtakeWhile_concat_pos _ xs x (by simp [hx]), List.head?_append]
    cases (xs.rtakeWhile fun x => !x.evaluated).head? <;> rfl

/-! ## The timer -/

theorem unobservedSince_accumulate (t : SchmittTrigger K) (target : Regime) (z sigma : K) (ts : Int) :
    (t.accumulate target z sigma ts).1.unobservedSince = t.unobservedSince := by
  unfold accumulate
  simp only
  split
  · rfl
  · split <;> rfl

theorem unobservedSince_hold (t : SchmittTrigger K) (ts : Int) (why : String) :
    (t.hold ts why).1.unobservedSince = some (t.unobservedSince.getD ts) := by
  unfold hold
  simp only
  split <;> rfl

theorem unobservedSince_feed (t : SchmittTrigger K) (x : Sample K) :
    (t.feed x).1.unobservedSince =
      if x.evaluated = true then none else some (t.unobservedSince.getD x.ts) := by
  have hupdate : ∀ u : SchmittTrigger K, u.unobservedSince = t.unobservedSince →
      (u.update x.z x.sigma x.ts x.armed x.gateReason).1.unobservedSince =
        if x.evaluated = true then none else some (t.unobservedSince.getD x.ts) := by
    intro u hu
    unfold update Sample.evaluated
    split
    · next z harmed hz =>
      rw [harmed, hz, if_pos (show (true && (some z).isSome) = true from rfl)]
      simp only
      split
      · rfl
      · rw [unobservedSince_accumulate]
        rfl
    · next hheld =>
      have hne : ¬ (x.armed && x.z.isSome) = true := by
        intro h
        obtain ⟨harmed, hz⟩ := Bool.and_eq_true_iff.mp h
        obtain ⟨z, hz⟩ := Option.isSome_iff_exists.mp hz
        exact hheld z harmed hz
      rw [if_neg hne, unobservedSince_hold, hu]
  unfold feed
  split
  · exact hupdate _ rfl
  · exact hupdate _ rfl

/-- **The timer** stands at the first of the held updates the history ends with. -/
theorem unobservedSince_after (symbol : String) (config : TriggerConfig K)
    (state : Option TriggerSnapshot) (xs : List (Sample K)) :
    ((start symbol config state).after xs).unobservedSince = heldSince xs := by
  induction xs using List.reverseRecOn with
  | nil => cases state <;> rfl
  | append_singleton xs x ih =>
    rw [after_concat, unobservedSince_feed, heldSince_concat, ih]

/-- What a held update does to the regime. -/
theorem feed_of_held {t : SchmittTrigger K} {x : Sample K} (h : x.evaluated = false) :
    ∃ why, t.feed x = (if x.thaw then t.markThawed else t).hold x.ts why := by
  unfold feed update
  split
  · next z harmed hz =>
    rw [Sample.evaluated, harmed, hz] at h
    cases h
  · exact ⟨_, rfl⟩

/-- A held update gives a stressed regime up exactly when the timer has reached the bound. -/
theorem regime_feed_of_held {t : SchmittTrigger K} {x : Sample K} (h : x.evaluated = false) :
    (t.feed x).1.regime = .stressed ↔
      t.regime = .stressed ∧ x.ts - t.unobservedSince.getD x.ts < t.config.observationTimeout := by
  obtain ⟨why, hfeed⟩ := feed_of_held (t := t) h
  have hhold : ∀ u : SchmittTrigger K, u.regime = t.regime → u.config = t.config →
      u.unobservedSince = t.unobservedSince → ((u.hold x.ts why).1.regime = .stressed ↔
        t.regime = .stressed ∧ x.ts - t.unobservedSince.getD x.ts < t.config.observationTimeout) := by
    intro u hr hc hs
    rw [← hr, ← hc, ← hs]
    unfold hold lose
    simp only [Option.getD_some]
    split
    · next hlost =>
      refine ⟨fun hn => (nomatch hn), fun hlt => ?_⟩
      exact absurd hlost.2 (by omega)
    · next hkept =>
      refine ⟨fun hstressed => ⟨hstressed, ?_⟩, And.left⟩
      by_contra hle
      exact hkept ⟨hstressed, by omega⟩
  rw [hfeed]
  split
  · exact hhold _ rfl rfl rfl
  · exact hhold _ rfl rfl rfl

/-! ## The bound -/

theorem config_after (symbol : String) (config : TriggerConfig K) (state : Option TriggerSnapshot)
    (xs : List (Sample K)) : ((start symbol config state).after xs).config = config := by
  have hidle : (start symbol config state).candidate = none := by cases state <;> rfl
  rw [(tracks_trace (start symbol config state) hidle xs).config]
  cases state <;> rfl

/-- The update `x`, fed after `xs`, leaves no regime stressed that was last evaluated
`observation_timeout` ago or longer. -/
def Bounded (t : SchmittTrigger K) (xs : List (Sample K)) (x : Sample K) : Prop :=
  ∀ last ∈ lastEvaluated xs, (t.feed x).1.regime = .stressed →
    x.ts - last < t.config.observationTimeout

/-- A held update that keeps the bound gives a stressed regime up in time, and says so. -/
theorem bounded_iff_lost {t : SchmittTrigger K} {xs : List (Sample K)} {x : Sample K}
    (hheld : x.evaluated = false) :
    Bounded t xs x ↔ ∀ last ∈ lastEvaluated xs, t.regime = .stressed →
      t.config.observationTimeout ≤ x.ts - last →
        ∃ tr ∈ (t.feed x).2, tr.cause = .observationLost := by
  have hgiven : t.regime = .stressed →
      ((∃ tr ∈ (t.feed x).2, tr.cause = .observationLost) ↔ (t.feed x).1.regime ≠ .stressed) := by
    intro hstressed
    obtain ⟨why, hfeed⟩ := feed_of_held (t := t) hheld
    have hu : (if x.thaw then t.markThawed else t).regime = .stressed := by split <;> exact hstressed
    rw [hfeed]
    rcases hold_step (if x.thaw then t.markThawed else t) x.ts why with
      ⟨hnone, heq⟩ | ⟨tr, hsome, hcause, hc⟩
    · rw [hnone, heq]
      exact ⟨fun ⟨tr, htr, _⟩ => (nomatch htr), fun hne => absurd hu hne⟩
    · have hregime := congrArg TriggerSnapshot.regime hc.snapshot
      rw [hsome]
      refine ⟨fun _ => ?_, fun _ => ⟨tr, rfl, hcause⟩⟩
      show (SchmittTrigger.snapshot _).regime ≠ .stressed
      rw [hregime, hc.new, hu]
      nofun
  unfold Bounded
  refine forall₂_congr fun last _ => ?_
  constructor
  · intro h hstressed hlast
    refine (hgiven hstressed).mpr fun hleft => ?_
    have hlt := h hleft
    omega
  · intro h hleft
    have hstressed := ((regime_feed_of_held hheld).mp hleft).1
    by_contra hlast
    exact (hgiven hstressed).mp (h hstressed (by omega)) hleft

/--
**When the bound holds.** For every accepted configuration, every start that is fresh or restored
from a snapshot, and every sequence of updates `xs` followed by a held update `x`: no regime is left
stressed `observation_timeout` after the last evaluated update, if and only if, where `x` finds the
regime stressed and comes so long after the last evaluated update, it comes so long after the first
held one too. To keep the bound is to commit the loss of observation in time.
-/
theorem bounded_iff (symbol : String) (config : TriggerConfig K) (state : Option TriggerSnapshot)
    (xs : List (Sample K)) (x : Sample K) (hheld : x.evaluated = false) :
    (Bounded ((start symbol config state).after xs) xs x ↔
      ∀ last ∈ lastEvaluated xs, ((start symbol config state).after xs).regime = .stressed →
        config.observationTimeout ≤ x.ts - last →
          config.observationTimeout ≤ x.ts - (heldSince xs).getD x.ts) ∧
    (Bounded ((start symbol config state).after xs) xs x ↔
      ∀ last ∈ lastEvaluated xs, ((start symbol config state).after xs).regime = .stressed →
        config.observationTimeout ≤ x.ts - last →
          ∃ tr ∈ (((start symbol config state).after xs).feed x).2, tr.cause = .observationLost) := by
  have hlost : Bounded ((start symbol config state).after xs) xs x ↔ _ := bounded_iff_lost hheld
  rw [config_after] at hlost
  refine ⟨?_, hlost⟩
  unfold Bounded
  rw [regime_feed_of_held hheld, unobservedSince_after, config_after]
  refine forall₂_congr fun last _ => ?_
  constructor
  · intro h hstressed hlast
    by_contra hlt
    have hbound := h ⟨hstressed, by omega⟩
    omega
  · rintro h ⟨hstressed, hsince⟩
    by_contra hlast
    have hbound := h hstressed (by omega)
    omega

/-! ## An hour without updates -/

/-- Whole numbers as z-scores, and the durations of the source. -/
def sampleConfig : TriggerConfig Int := ⟨{ enterZ := 3, exitZ := 1 }, rfl⟩

/-- An update at a minute. -/
def sampleAt (minute : Int) (z : Option Int) : Sample Int :=
  { z, sigma := 1, ts := minute * 60000000, armed := z.isSome }

/-- Four evaluated updates that escalate. -/
def escalated : List (Sample Int) := [0, 1, 2, 3].map fun minute => sampleAt minute (some 4)

theorem bounded_iff_prompt :
    Bounded ((start "EURUSD" sampleConfig none).after (escalated ++ [sampleAt 4 none]))
      (escalated ++ [sampleAt 4 none]) (sampleAt 34 none) :=
  (bounded_iff "EURUSD" sampleConfig none (escalated ++ [sampleAt 4 none]) (sampleAt 34 none) rfl).1.mpr
    (by decide +kernel)

/-- The first update after an hour without any is held, and the regime stays stressed. -/
theorem blind_after_silence :
    ¬ ∀ (xs : List (Sample Int)) (x : Sample Int),
      (xs ++ [x]).Pairwise (fun a b => a.ts < b.ts) → x.evaluated = false →
        Bounded ((start "EURUSD" sampleConfig none).after xs) xs x := by
  intro h
  have hbound := h escalated (sampleAt 63 none) (by decide +kernel) rfl (3 * 60000000)
    (by decide +kernel) (by decide +kernel)
  revert hbound
  decide +kernel

end FxTracker.Alerts.SchmittTrigger
