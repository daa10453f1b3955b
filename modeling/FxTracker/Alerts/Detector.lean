import FxTracker.Alerts.Baseline
import FxTracker.Alerts.Hysteresis
import FxTracker.Alerts.Seasonality

/-!
# One symbol's detection path

`fx_core/alerts/detector.py`: gate, normalise, score, decide, learn. The calendar is a parameter.
Times are instants in microseconds; `none` stands for an exception.

* `update_of_refused` — a bar that is not evaluated reaches the trigger alone
* `update_step` — an update commits nothing and leaves the regime and the count alone, or commits the
  flip under the next number
-/

namespace FxTracker.Alerts

/-- The whole detection path in one payload. -/
structure DetectorSnapshot (K : Type) where
  trigger : TriggerSnapshot
  baseline : BaselineSnapshot K
  profile : DiurnalSnapshot K
  deriving DecidableEq

/-- `DetectorConfig`, as `__post_init__` accepts it. -/
structure DetectorConfig where
  sessionWarmup : Int := 1800000000
  rearmBars : Int := 3
  sessionWarmup_nonneg : 0 ≤ sessionWarmup := by decide
  rearmBars_nonneg : 0 ≤ rearmBars := by decide

/-- What an update is given: a sealed bar's volatility and its gate flags. -/
structure SealedBar (K : Type) where
  sigma : K
  ts : Int
  isGapBar : Bool := false
  isBackfill : Bool := false
  feedIsStale : Bool := false

structure RegimeDetector (K : Type) [LE K] [DecidableLE K] where
  symbol : String
  config : DetectorConfig
  triggerConfig : TriggerConfig K
  baseline : VolatilityBaseline K
  profile : DiurnalProfile K
  trigger : SchmittTrigger K
  marketIsOpen : Int → Bool
  wasOpen : Option Bool
  openedAt : Option Int
  contiguousOk : Int
  lastZscore : Option K
  rebaselining : Bool

namespace RegimeDetector

variable {K : Type} [LE K] [DecidableLE K]

/-- A newly built detector. -/
def cold [FloatMath K] (symbol : String) (config : DetectorConfig) (triggerConfig : TriggerConfig K)
    (marketIsOpen : Int → Bool) : RegimeDetector K where
  symbol
  config
  triggerConfig
  baseline := .cold
  profile := .cold
  trigger := { symbol, config := triggerConfig }
  marketIsOpen
  wasOpen := none
  openedAt := none
  contiguousOk := 0
  lastZscore := none
  rebaselining := false

def regime (d : RegimeDetector K) : Regime := d.trigger.regime

def armed (d : RegimeDetector K) : Bool := d.trigger.armed

/-- The first half of `_gate`: whether the market is open, and since when. -/
def noteSession (d : RegimeDetector K) (ts : Int) : RegimeDetector K :=
  { d with
    openedAt := if d.wasOpen = some false ∧ d.marketIsOpen ts then some ts else d.openedAt
    wasOpen := some (d.marketIsOpen ts) }

/-- The bar is within the warm-up after the opening the detector remembers. -/
def warmingUp (d : RegimeDetector K) (ts : Int) : Bool :=
  d.openedAt.any fun opened => ts - opened < d.config.sessionWarmup

/-- The second half of `_gate`: the reason to suppress evaluation. -/
def gateReason (d : RegimeDetector K) (bar : SealedBar K) : Option String :=
  if d.marketIsOpen bar.ts = false then some "market closed"
  else if d.warmingUp bar.ts then some "session warm-up"
  else if bar.isGapBar then some "session gap bar"
  else if bar.isBackfill then some "backfilled bar"
  else if bar.feedIsStale then some "feed stale"
  else none

/-- The gates and the re-arm count, with the reason if the bar is not evaluated. -/
def gate (d : RegimeDetector K) (bar : SealedBar K) : RegimeDetector K × Option String :=
  let d := d.noteSession bar.ts
  match d.gateReason bar with
  | some gate => ({ d with contiguousOk := 0, lastZscore := none }, some gate)
  | none =>
    let d := { d with contiguousOk := d.contiguousOk + 1 }
    if d.contiguousOk ≤ d.config.rearmBars then
      ({ d with lastZscore := none }, some "re-arming after gate")
    else (d, none)

/-- The bounded freeze: once the stress has lasted long enough the baseline may learn again. -/
def rebaseline (d : RegimeDetector K) (ts : Int) : RegimeDetector K :=
  if d.trigger.baselineShouldThaw ts ∧ d.rebaselining = false then
    { d with
      rebaselining := true
      baseline := d.baseline.thaw
      trigger := d.trigger.markThawed }
  else d

/-- The trigger's answer to an evaluated bar, and what it does to the freeze. -/
def decideRegime (d : RegimeDetector K) (zscore : Option K) (adjusted : K) (ts : Int) :
    RegimeDetector K × Option (RegimeTransition K) :=
  let (trigger, transition) := d.trigger.update zscore adjusted ts true ""
  let rebaselining := if transition.isSome then false else d.rebaselining
  ({ d with
      trigger
      rebaselining
      baseline :=
        if trigger.regime = .stressed ∧ rebaselining = false then d.baseline.freeze
        else if trigger.regime = .normal then d.baseline.thaw
        else d.baseline },
    transition)

section Update

variable [LT K] [DecidableLT K] [FloatMath K]

omit [LT K] [DecidableLT K] in
/-- The baseline learns from normal conditions, and while re-baselining. -/
def learnBaseline (d : RegimeDetector K) (adjusted : K) : Option (VolatilityBaseline K) :=
  if d.regime = .normal ∨ d.rebaselining then d.baseline.observe adjusted else some d.baseline

omit [LT K] [DecidableLT K] in
/-- The profile learns from normal conditions alone. -/
def learnProfile (d : RegimeDetector K) (sigma : K) (ts : Int) : Option (DiurnalProfile K) :=
  if d.regime = .normal then d.profile.observe sigma (hourOf ts) else some d.profile

omit [LT K] [DecidableLT K] in
def learn (d : RegimeDetector K) (sigma adjusted : K) (ts : Int) : Option (RegimeDetector K) := do
  let baseline ← d.learnBaseline adjusted
  let profile ← d.learnProfile sigma ts
  return { d with baseline, profile }

/-- What happens to a bar that passed the gates and the re-arm count. -/
def evaluate (d : RegimeDetector K) (bar : SealedBar K) :
    Option (RegimeDetector K × Option (RegimeTransition K)) := do
  let adjusted ← d.profile.deseasonalize bar.sigma (hourOf bar.ts)
  let zscore ← d.baseline.zscore adjusted
  let d := { d with lastZscore := zscore }.rebaseline bar.ts
  let (d, transition) := d.decideRegime zscore adjusted bar.ts
  let d ← d.learn bar.sigma adjusted bar.ts
  return (d, transition)

/-- `update`: feed one sealed bar's volatility. -/
def update (d : RegimeDetector K) (bar : SealedBar K) :
    Option (RegimeDetector K × Option (RegimeTransition K)) :=
  match d.gate bar with
  | (d, some reason) =>
    let (trigger, transition) := d.trigger.update none bar.sigma bar.ts false reason
    some ({ d with trigger }, transition)
  | (d, none) => d.evaluate bar

def snapshot (d : RegimeDetector K) : DetectorSnapshot K where
  trigger := d.trigger.snapshot
  baseline := d.baseline.snapshot
  profile := d.profile.snapshot

/-- `restore`, and whether it returns. It assigns the parts one by one: what it assigned before an
exception stays. -/
def restore (d : RegimeDetector K) (state : DetectorSnapshot K) : RegimeDetector K × Bool :=
  let d := { d with trigger := SchmittTrigger.restore d.symbol state.trigger d.triggerConfig }
  match VolatilityBaseline.restore state.baseline d.baseline.minSamples with
  | none => (d, false)
  | some baseline =>
    let d := { d with baseline }
    match DiurnalProfile.restore state.profile d.profile.minSamples d.profile.minReadyHours with
    | none => (d, false)
    | some profile => ({ d with profile }, true)

end Update

/-! ## What a step leaves alone -/

/-- `d'` is `d` but for what the gates keep. -/
structure SamePath (d d' : RegimeDetector K) : Prop where
  symbol : d'.symbol = d.symbol
  config : d'.config = d.config
  triggerConfig : d'.triggerConfig = d.triggerConfig
  baseline : d'.baseline = d.baseline
  profile : d'.profile = d.profile
  trigger : d'.trigger = d.trigger
  marketIsOpen : d'.marketIsOpen = d.marketIsOpen
  rebaselining : d'.rebaselining = d.rebaselining

theorem samePath_gate (d : RegimeDetector K) (bar : SealedBar K) : SamePath d (d.gate bar).1 := by
  unfold gate
  dsimp only
  split
  · exact ⟨rfl, rfl, rfl, rfl, rfl, rfl, rfl, rfl⟩
  · split <;> exact ⟨rfl, rfl, rfl, rfl, rfl, rfl, rfl, rfl⟩

section Steps

variable [LT K] [DecidableLT K] [FloatMath K] {d d' : RegimeDetector K} {bar : SealedBar K}
  {o : Option (RegimeTransition K)}

/-- The bar is evaluated: it passes the gates and the re-arm count. -/
def Evaluates (d : RegimeDetector K) (bar : SealedBar K) : Prop := (d.gate bar).2 = none

instance (d : RegimeDetector K) (bar : SealedBar K) : Decidable (d.Evaluates bar) :=
  inferInstanceAs (Decidable (_ = none))

/-- **A bar that is not evaluated** reaches the trigger alone. -/
theorem update_of_refused (h : ¬ d.Evaluates bar) :
    ∃ reason, (d.gate bar).2 = some reason ∧
      d.update bar = some ({ (d.gate bar).1 with
        trigger := (d.trigger.update none bar.sigma bar.ts false reason).1 },
        (d.trigger.update none bar.sigma bar.ts false reason).2) := by
  obtain ⟨reason, hr⟩ := Option.ne_none_iff_exists'.mp h
  refine ⟨reason, hr, ?_⟩
  have hpair : d.gate bar = ((d.gate bar).1, some reason) := by rw [← hr]
  unfold update
  rw [hpair]
  dsimp only
  rw [(samePath_gate d bar).trigger]

theorem update_of_evaluates (h : d.Evaluates bar) : d.update bar = (d.gate bar).1.evaluate bar := by
  have hpair : d.gate bar = ((d.gate bar).1, none) := by rw [← h]
  unfold update
  rw [hpair]

/-- What such a bar leaves alone, and the only transition it can produce. -/
theorem exists_update_of_refused (h : ¬ d.Evaluates bar) :
    ∃ d' o, d.update bar = some (d', o) ∧ d'.baseline = d.baseline ∧ d'.profile = d.profile ∧
      d'.rebaselining = d.rebaselining ∧ ∀ tr ∈ o, tr.cause = .observationLost := by
  obtain ⟨reason, -, heq⟩ := update_of_refused h
  have hsame := samePath_gate d bar
  refine ⟨_, _, heq, hsame.baseline, hsame.profile, hsame.rebaselining, fun tr htr => ?_⟩
  unfold SchmittTrigger.update at htr
  rcases d.trigger.hold_step bar.ts
    (if reason ≠ "" then reason else if false then "baseline not ready" else "gated") with
    ⟨hnone, -⟩ | ⟨tr', hsome, hcause, -⟩
  · rw [hnone] at htr
    cases htr
  · rw [hsome] at htr
    cases htr
    exact hcause

omit [LT K] [DecidableLT K] [FloatMath K] in
/-- **When a bar is evaluated.** -/
theorem evaluates_iff : d.Evaluates bar ↔
    (d.noteSession bar.ts).gateReason bar = none ∧ d.config.rearmBars ≤ d.contiguousOk := by
  unfold Evaluates gate
  dsimp only
  cases (d.noteSession bar.ts).gateReason bar with
  | some gate => simp
  | none =>
    have hcount : (d.noteSession bar.ts).contiguousOk = d.contiguousOk := rfl
    have hrearm : (d.noteSession bar.ts).config = d.config := rfl
    simp only [hcount, hrearm, true_and]
    split
    · next hle => simp only [reduceCtorEq, false_iff]; omega
    · next hlt => simp only [true_iff]; omega

/-- An evaluated bar that can be scored. -/
theorem evaluate_eq {adjusted : K} {zscore : Option K}
    (hadj : d.profile.deseasonalize bar.sigma (hourOf bar.ts) = some adjusted)
    (hz : d.baseline.zscore adjusted = some zscore) {u : RegimeDetector K}
    (hu : ({ d with lastZscore := zscore }.rebaseline bar.ts).decideRegime zscore adjusted bar.ts =
      (u, o)) :
    d.evaluate bar = (u.learn bar.sigma adjusted bar.ts).map fun d => (d, o) := by
  unfold evaluate
  simp only [hadj, hz, hu, Option.bind_eq_bind, Option.bind_some, Option.pure_def]
  cases u.learn bar.sigma adjusted bar.ts <;> rfl

/-- What an evaluated bar comes to, part by part. -/
theorem evaluate_eq_some (h : d.evaluate bar = some (d', o)) :
    ∃ adjusted zscore u, d.profile.deseasonalize bar.sigma (hourOf bar.ts) = some adjusted ∧
      d.baseline.zscore adjusted = some zscore ∧
      (({ d with lastZscore := zscore }.rebaseline bar.ts).decideRegime zscore adjusted bar.ts) = (u, o) ∧
      u.learn bar.sigma adjusted bar.ts = some d' := by
  unfold evaluate at h
  simp only [Option.bind_eq_bind, Option.bind_eq_some_iff, Option.pure_def, Option.some.injEq] at h
  obtain ⟨adjusted, hadj, zscore, hz, u, hlearn, heq⟩ := h
  cases heq
  exact ⟨adjusted, zscore, _, hadj, hz, rfl, hlearn⟩

omit [LT K] [DecidableLT K] in
/-- Learning changes the baseline and the profile alone. -/
theorem learn_eq_some {sigma adjusted : K} {ts : Int} (h : d.learn sigma adjusted ts = some d') :
    ∃ baseline profile, d' = { d with baseline, profile } ∧
      d.learnBaseline adjusted = some baseline ∧ d.learnProfile sigma ts = some profile := by
  unfold learn at h
  simp only [Option.bind_eq_bind, Option.bind_eq_some_iff, Option.pure_def, Option.some.injEq] at h
  obtain ⟨baseline, hb, profile, hp, rfl⟩ := h
  exact ⟨baseline, profile, rfl, hb, hp⟩

/-- One update of a trigger, up to what a re-baselining marks: nothing happens to the regime and the
count, or the flip is committed. -/
def TriggerSteps (t : SchmittTrigger K) (ts : Int) (o : Option (RegimeTransition K))
    (t' : SchmittTrigger K) : Prop :=
  match o with
  | none => { t'.snapshot with thawed := t.wasThawed } = t.snapshot ∧
      t'.symbol = t.symbol ∧ t'.config = t.config
  | some tr => t.Commits ts tr t'

omit [LT K] [DecidableLT K] [FloatMath K] in
theorem triggerSteps_update (t : SchmittTrigger K) (zscore : Option K) (sigma : K) (ts : Int)
    (armed : Bool) (why : String) :
    TriggerSteps t ts (t.update zscore sigma ts armed why).2 (t.update zscore sigma ts armed why).1 := by
  rcases t.update_step zscore sigma ts armed why with ⟨hnone, hk⟩ | ⟨tr, hsome, hc⟩
  · rw [hnone]
    refine ⟨?_, hk.fixed⟩
    rw [hk.snapshot]
    rfl
  · rw [hsome]
    exact hc

omit [LT K] [DecidableLT K] [FloatMath K] in
/-- A thaw is not seen in what a commit or its absence says. -/
theorem triggerSteps_of_markThawed {t t' : SchmittTrigger K} {ts : Int}
    (h : TriggerSteps t.markThawed ts o t') : TriggerSteps t ts o t' := by
  cases o with
  | none => exact ⟨congrArg (fun s => { s with thawed := t.wasThawed }) h.1, h.2⟩
  | some tr =>
    exact ⟨h.symbol, h.time, h.seq, h.old, h.new, h.spaced, h.snapshot, h.fixed, h.idle⟩

/-- **An update** commits nothing and leaves the regime and the count alone, or commits the flip. -/
theorem update_step (h : d.update bar = some (d', o)) :
    TriggerSteps d.trigger bar.ts o d'.trigger := by
  by_cases he : d.Evaluates bar
  · rw [update_of_evaluates he] at h
    obtain ⟨adjusted, zscore, u, -, -, hu, hlearn⟩ := evaluate_eq_some h
    obtain ⟨baseline, profile, rfl, -, -⟩ := learn_eq_some hlearn
    rw [← (samePath_gate d bar).trigger]
    unfold rebaseline at hu
    split at hu
    · cases hu
      exact triggerSteps_of_markThawed (triggerSteps_update ..)
    · cases hu
      exact triggerSteps_update ..
  · obtain ⟨reason, -, heq⟩ := update_of_refused he
    rw [heq] at h
    cases h
    exact triggerSteps_update ..

/-- The session is noted on every bar. -/
theorem update_session (h : d.update bar = some (d', o)) :
    d'.wasOpen = (d.noteSession bar.ts).wasOpen ∧ d'.openedAt = (d.noteSession bar.ts).openedAt := by
  have hgated : (d.gate bar).1.wasOpen = (d.noteSession bar.ts).wasOpen ∧
      (d.gate bar).1.openedAt = (d.noteSession bar.ts).openedAt := by
    unfold gate
    dsimp only
    split
    · exact ⟨rfl, rfl⟩
    · split <;> exact ⟨rfl, rfl⟩
  by_cases he : d.Evaluates bar
  · rw [update_of_evaluates he] at h
    obtain ⟨adjusted, zscore, u, -, -, hu, hlearn⟩ := evaluate_eq_some h
    obtain ⟨baseline, profile, rfl, -, -⟩ := learn_eq_some hlearn
    unfold rebaseline at hu
    split at hu <;> cases hu <;> exact hgated
  · obtain ⟨reason, -, heq⟩ := update_of_refused he
    rw [heq] at h
    cases h
    exact hgated

/-- What an update leaves alone. -/
theorem update_fixed (h : d.update bar = some (d', o)) :
    d'.symbol = d.symbol ∧ d'.config = d.config ∧ d'.triggerConfig = d.triggerConfig ∧
      d'.marketIsOpen = d.marketIsOpen := by
  have hsame := samePath_gate d bar
  by_cases he : d.Evaluates bar
  · rw [update_of_evaluates he] at h
    obtain ⟨adjusted, zscore, u, -, -, hu, hlearn⟩ := evaluate_eq_some h
    obtain ⟨baseline, profile, rfl, -, -⟩ := learn_eq_some hlearn
    unfold rebaseline at hu
    split at hu <;> cases hu <;>
      exact ⟨hsame.symbol, hsame.config, hsame.triggerConfig, hsame.marketIsOpen⟩
  · obtain ⟨reason, -, heq⟩ := update_of_refused he
    rw [heq] at h
    cases h
    exact ⟨hsame.symbol, hsame.config, hsame.triggerConfig, hsame.marketIsOpen⟩

end Steps

/-! ## A detector for runs on fixed inputs -/

/-- Confirms at the first sample past the threshold. -/
def sampleTrigger : TriggerConfig ℚ where
  enterZ := 3
  exitZ := 1
  minConfirmSamples := 1
  confirmFor := 0
  accepted := rfl

/-- Evaluates from the first bar on. -/
def promptConfig : DetectorConfig := { rearmBars := 0 }

def sampleDetector (marketIsOpen : Int → Bool) : RegimeDetector ℚ :=
  cold "EURUSD" {} sampleTrigger marketIsOpen

/-- A bar of volatility 1. -/
def sampleBar (ts : Int) : SealedBar ℚ := { sigma := 1, ts }

end RegimeDetector

end FxTracker.Alerts
