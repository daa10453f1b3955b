import FxTracker.Alerts.Detector
import FxTracker.Core.Json
import FxTracker.Core.Wire

/-!
# A restore that fails half way

`RegimeDetector.restore` and what it calls, given any JSON value. The restored parts take what they are
given: only some of it is checked, and the rest may be any value. `fromisoformat` is a parameter, `none`
where it raises `ValueError`.

* `restore_cases` — which parts are assigned before an exception
* `restore_unchanged_iff` — when a failed restore changes nothing
-/

namespace FxTracker.Alerts.Loose

/-- A `SchmittTrigger` as `restore` builds it: `seq` and `_thawed` may be any value. -/
structure Trigger (K : Type) [LE K] [DecidableLE K] where
  symbol : String
  config : TriggerConfig K
  regime : Regime := .normal
  seq : Json K := .int 0
  regimeSince : Option IsoTime := none
  candidate : Option Candidate := none
  lastSampleTs : Option Int := none
  lastEscalation : Option IsoTime := none
  unobservedSince : Option Int := none
  wasThawed : Json K := .bool false
  gateReason : String := ""

/-- A `VolatilityBaseline` whose numbers may be any value. -/
structure Baseline (K : Type) where
  lam : K
  minSamples : Int
  mean : Json K
  var : Json K
  n : Json K
  frozen : Json K
  debias : Json K

/-- A `DiurnalProfile` whose hours may be any 24 values. -/
structure Profile (K : Type) where
  lam : K
  minSamples : Int
  minReadyHours : Int
  clamp : K × K
  hourMean : List (Json K)
  hourN : List (Json K)

/-- The parts of a `RegimeDetector` that `restore` reads or assigns. -/
structure Detector (K : Type) [LE K] [DecidableLE K] where
  symbol : String
  triggerConfig : TriggerConfig K
  baseline : Baseline K
  profile : Profile K
  trigger : Trigger K

section Definitions

variable {K : Type} [FloatMath K] [DecidableEq K] [LE K] [DecidableLE K] [LT K] [DecidableLT K]

/-- `Regime(value)`. -/
def regimeOf (value : Json K) : Except PyError Regime :=
  match value with
  | .str "normal" => .ok .normal
  | .str "stressed" => .ok .stressed
  | _ => .error .value

/-- `_dt` of `SchmittTrigger.restore`. -/
def timeOf (fromisoformat : String → Option IsoTime) (raw : Json K) :
    Except PyError (Option IsoTime) :=
  if raw.truthy then
    match raw with
    | .str text =>
      match fromisoformat text with
      | some time => .ok (some time)
      | none => .error .value
    | _ => .error .type
  else .ok none

/-- `SchmittTrigger.restore`. -/
def Trigger.restore (fromisoformat : String → Option IsoTime) (symbol : String) (state : Json K)
    (config : TriggerConfig K) : Except PyError (Trigger K) := do
  let regime ← regimeOf (← state.item "regime")
  let seq ← state.item "seq"
  let regimeSince ← timeOf fromisoformat (← state.item "regime_since")
  let lastEscalation ← timeOf fromisoformat (← state.item "last_escalation")
  let wasThawed ← state.item "thawed"
  return { symbol, config, regime, seq, regimeSince, lastEscalation, wasThawed }

/-- `0.0 < lam < 1.0` of `__post_init__`: no whole number is between, and what is not a number does not
compare. -/
def lamOf (value : Json K) : Except PyError K :=
  match value with
  | .float lam => if VolatilityBaseline.lamOk lam then .ok lam else .error .value
  | .int _ => .error .value
  | .bool _ => .error .value
  | _ => .error .type

/-- `VolatilityBaseline.restore`. -/
def Baseline.restore (state : Json K) (minSamples : Int) : Except PyError (Baseline K) := do
  let lam ← lamOf (← state.item "lam")
  if minSamples < 2 then throw .value
  let mean ← state.item "mean"
  let var ← state.item "var"
  let n ← state.item "n"
  let debias ← state.item "debias"
  let frozen ← state.item "frozen"
  return { lam, minSamples, mean, var, n, frozen, debias }

/-- Twenty-four values, or the `ValueError` that `DiurnalProfile.restore` raises. -/
def hoursOf (value : Json K) : Except PyError (List (Json K)) := do
  let hours ← value.toList
  if hours.length ≠ 24 then throw .value
  return hours

/-- `DiurnalProfile.restore`. The default `clamp` passes its check. -/
def Profile.restore (state : Json K) (minSamples minReadyHours : Int) : Except PyError (Profile K) := do
  let hourMean ← hoursOf (← state.item "hour_mean")
  let hourN ← hoursOf (← state.item "hour_n")
  let lam ← lamOf (← state.item "lam")
  if minReadyHours < 1 ∨ 24 < minReadyHours then throw .value
  return { lam, minSamples, minReadyHours, clamp := DiurnalProfile.defaultClamp, hourMean, hourN }

namespace Detector

variable (fromisoformat : String → Option IsoTime) (d : Detector K) (state : Json K)

/-- The trigger that a snapshot gives. -/
def triggerFrom : Except PyError (Trigger K) := do
  Trigger.restore fromisoformat d.symbol (← state.item "trigger") d.triggerConfig

def baselineFrom : Except PyError (Baseline K) := do
  Baseline.restore (← state.item "baseline") d.baseline.minSamples

def profileFrom : Except PyError (Profile K) := do
  Profile.restore (← state.item "profile") d.profile.minSamples d.profile.minReadyHours

/-- `RegimeDetector.restore`, and what it raises, if it does. It assigns the parts one by one: what it
assigned before an exception stays. -/
def restore : Detector K × Option PyError :=
  match d.triggerFrom fromisoformat state with
  | .error e => (d, some e)
  | .ok trigger =>
    let d := { d with trigger }
    match d.baselineFrom state with
    | .error e => (d, some e)
    | .ok baseline =>
      let d := { d with baseline }
      match d.profileFrom state with
      | .error e => (d, some e)
      | .ok profile => ({ d with profile }, none)

end Detector

end Definitions

/-! ## What a restore leaves -/

variable {K : Type} [FloatMath K] [DecidableEq K] [LE K] [DecidableLE K] [LT K] [DecidableLT K]

namespace Detector

variable {fromisoformat : String → Option IsoTime} {d : Detector K} {state : Json K}

/-- **What a restore assigns**, and where it ends. -/
theorem restore_cases (fromisoformat : String → Option IsoTime) (d : Detector K) (state : Json K) :
    (∃ e, d.triggerFrom fromisoformat state = .error e ∧ d.restore fromisoformat state = (d, some e)) ∨
    (∃ trigger e, d.triggerFrom fromisoformat state = .ok trigger ∧ d.baselineFrom state = .error e ∧
      d.restore fromisoformat state = ({ d with trigger }, some e)) ∨
    (∃ trigger baseline e, d.triggerFrom fromisoformat state = .ok trigger ∧
      d.baselineFrom state = .ok baseline ∧ d.profileFrom state = .error e ∧
      d.restore fromisoformat state = ({ d with trigger, baseline }, some e)) ∨
    ∃ trigger baseline profile, d.triggerFrom fromisoformat state = .ok trigger ∧
      d.baselineFrom state = .ok baseline ∧ d.profileFrom state = .ok profile ∧
      d.restore fromisoformat state = ({ d with trigger, baseline, profile }, none) := by
  unfold restore
  cases htrigger : d.triggerFrom fromisoformat state with
  | error e => exact .inl ⟨e, rfl, rfl⟩
  | ok trigger =>
    have hbaseline : ({ d with trigger } : Detector K).baselineFrom state = d.baselineFrom state := rfl
    have hprofile : ∀ baseline, ({ d with trigger, baseline } : Detector K).profileFrom state =
        d.profileFrom state := fun _ => rfl
    simp only [hbaseline, hprofile]
    cases d.baselineFrom state with
    | error e => exact .inr (.inl ⟨trigger, e, rfl, rfl, rfl⟩)
    | ok baseline =>
      cases d.profileFrom state with
      | error e => exact .inr (.inr (.inl ⟨trigger, baseline, e, rfl, rfl, rfl, rfl⟩))
      | ok profile => exact .inr (.inr (.inr ⟨trigger, baseline, profile, rfl, rfl, rfl, rfl⟩))

/--
**When a failed restore changes nothing.**

The parts before the first malformed one are those the detector holds already, or no part is malformed.
-/
theorem restore_unchanged_iff (fromisoformat : String → Option IsoTime) (d : Detector K) (state : Json K) :
    (∀ e, (d.restore fromisoformat state).2 = some e → (d.restore fromisoformat state).1 = d) ↔
      (∃ e, d.triggerFrom fromisoformat state = .error e) ∨
      (d.triggerFrom fromisoformat state = .ok d.trigger ∧
        ((∃ e, d.baselineFrom state = .error e) ∨ d.baselineFrom state = .ok d.baseline)) ∨
      ∃ trigger baseline profile, d.triggerFrom fromisoformat state = .ok trigger ∧
        d.baselineFrom state = .ok baseline ∧ d.profileFrom state = .ok profile := by
  rcases restore_cases fromisoformat d state with
    ⟨e, htrigger, hrestore⟩ | ⟨trigger, e, htrigger, hbaseline, hrestore⟩ |
    ⟨trigger, baseline, e, htrigger, hbaseline, hprofile, hrestore⟩ |
    ⟨trigger, baseline, profile, htrigger, hbaseline, hprofile, hrestore⟩
  · rw [hrestore]
    exact iff_of_true (fun _ _ => rfl) (.inl ⟨e, htrigger⟩)
  · rw [hrestore, htrigger, hbaseline]
    constructor
    · intro h
      have hsame : trigger = d.trigger := congrArg Detector.trigger (h e rfl)
      exact .inr (.inl ⟨by rw [hsame], .inl ⟨e, rfl⟩⟩)
    · rintro (⟨_, ⟨⟩⟩ | ⟨hheld, -⟩ | ⟨_, _, _, -, ⟨⟩, -⟩)
      intro _ _
      cases hheld
      rfl
  · rw [hrestore, htrigger, hbaseline, hprofile]
    constructor
    · intro h
      have htsame : trigger = d.trigger := congrArg Detector.trigger (h e rfl)
      have hbsame : baseline = d.baseline := congrArg Detector.baseline (h e rfl)
      exact .inr (.inl ⟨by rw [htsame], .inr (by rw [hbsame])⟩)
    · rintro (⟨_, ⟨⟩⟩ | ⟨hheld, ⟨_, ⟨⟩⟩ | hsame⟩ | ⟨_, _, _, -, -, ⟨⟩⟩)
      intro _ _
      cases hheld
      cases hsame
      rfl
  · rw [hrestore]
    exact iff_of_true nofun (.inr (.inr ⟨trigger, baseline, profile, htrigger, hbaseline, hprofile⟩))

end Detector

/-- A new detector. -/
def fresh (symbol : String) (triggerConfig : TriggerConfig K) : Detector K where
  symbol
  triggerConfig
  baseline := ⟨(9942 : ℕ) / (10000 : ℕ), 30, .float 0, .float 0, .int 0, .bool false, .float 0⟩
  profile := ⟨(99885 : ℕ) / (100000 : ℕ), 120, 12, DiurnalProfile.defaultClamp,
    List.replicate 24 (.float 0), List.replicate 24 (.int 0)⟩
  trigger := { symbol, config := triggerConfig }

/-- A trigger that is stressed, and a baseline without its fields. -/
def halfSnapshot : Json ℚ :=
  .dict [("trigger", .dict [("regime", .str "stressed"), ("seq", .int 7), ("regime_since", .null),
    ("last_escalation", .null), ("thawed", .bool false)]), ("baseline", .dict []), ("profile", .dict [])]

/-- The restore raises `KeyError`, and a new detector is stressed after it. -/
theorem restore_halfSnapshot :
    ¬ ∀ e, ((fresh "EURUSD" RegimeDetector.sampleTrigger).restore (fun _ => none) halfSnapshot).2 = some e →
      ((fresh "EURUSD" RegimeDetector.sampleTrigger).restore (fun _ => none) halfSnapshot).1 =
        fresh "EURUSD" RegimeDetector.sampleTrigger := by
  intro h
  have hsame := h .key (by decide +kernel)
  have hregime := congrArg (fun d => d.trigger.regime) hsame
  exact absurd hregime (by decide +kernel)

end FxTracker.Alerts.Loose
