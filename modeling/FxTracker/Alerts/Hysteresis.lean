import Mathlib.Data.Option.Basic
import Mathlib.Order.Defs.LinearOrder

/-!
# The Schmitt trigger

`fx_core/alerts/hysteresis.py`. A regime is committed once a run of samples past the threshold is
long enough, in samples and in time; escalations are rate-limited.

The z-scores and thresholds range over any type with a decidable `≤`, and no law of it is used, so
a comparison that a NaN answers `False` to is covered. Times and durations are microseconds.

* `SchmittTrigger.update_step` — an update commits nothing and leaves the persisted state alone, or
  commits the flip under the next number, an escalation no sooner than `cooldown` after the last
* `SchmittTrigger.accumulate_eq_none_iff` — when a sample past the threshold commits nothing
-/

namespace FxTracker.Alerts

/-- The committed state, which is what gets published and persisted. -/
inductive Regime
  | normal
  | stressed
  deriving DecidableEq, Repr

namespace Regime

def flip : Regime → Regime
  | normal => stressed
  | stressed => normal

@[simp] theorem flip_flip (r : Regime) : r.flip.flip = r := by cases r <;> rfl

@[simp] theorem flip_ne (r : Regime) : r.flip ≠ r := by cases r <;> decide

theorem eq_flip_of_ne {r s : Regime} (h : r ≠ s) : r = s.flip := by
  cases r <;> cases s <;> first | rfl | exact absurd rfl h

/-- The value of the `StrEnum` member. -/
def str : Regime → String
  | normal => "normal"
  | stressed => "stressed"

end Regime

/-- Why the regime changed. -/
inductive TransitionCause
  | threshold
  | baselineThaw
  | observationLost
  deriving DecidableEq, Repr

namespace TransitionCause

/-- The value of the `StrEnum` member. -/
def str : TransitionCause → String
  | threshold => "threshold"
  | baselineThaw => "baseline_thaw"
  | observationLost => "observation_lost"

end TransitionCause

/-- The `reason` of a transition, by what its text is built from. -/
inductive Reason (K : Type*)
  /-- `z=… >= … held …s over … samples`; a clear compares with `<=`. -/
  | held (z : K) (target : Regime) (threshold : K) (heldFor samples : Int)
  /-- `baseline thawed; elevated level accepted as normal (…)`. -/
  | thawed (held : Reason K)
  /-- `no evaluable samples for …s (…)`. -/
  | unobserved (since : Int) (gate : String)
  deriving DecidableEq

/-- One committed regime change. `triggerValue` and `sigma` are `none` for `float("nan")`. -/
structure RegimeTransition (K : Type*) where
  symbol : String
  ts : Int
  seq : Int
  oldRegime : Regime
  newRegime : Regime
  triggerValue : Option K
  thresholdValue : K
  sigma : Option K
  cause : TransitionCause
  reason : Reason K
  deriving DecidableEq

def RegimeTransition.isEscalation {K : Type*} (tr : RegimeTransition K) : Bool :=
  tr.newRegime = .stressed

/-! ## Configuration -/

section Config

variable (K : Type*)

/-- The fields of `TriggerConfig`, with the defaults of its durations. -/
structure TriggerFields where
  enterZ : K
  exitZ : K
  minConfirmSamples : Int := 3
  confirmFor : Int := 180000000
  sampleTimeout : Int := 900000000
  cooldown : Int := 300000000
  thawAfter : Int := 21600000000
  observationTimeout : Int := 1800000000

/-- The `ValueError`s of `__post_init__`, in its order. -/
inductive TriggerConfigError
  | exitNotBelowEnter (exitZ enterZ : K)
  | minConfirmSamplesBelowOne
  | confirmForNegative
  | sampleTimeoutNotPositive
  | sampleTimeoutNotAboveConfirmFor (sampleTimeout confirmFor : Int)

variable {K} [LE K] [DecidableLE K]

/-- `__post_init__`. -/
def TriggerFields.postInit (c : TriggerFields K) : Except (TriggerConfigError K) Unit :=
  if c.enterZ ≤ c.exitZ then .error (.exitNotBelowEnter c.exitZ c.enterZ)
  else if c.minConfirmSamples < 1 then .error .minConfirmSamplesBelowOne
  else if c.confirmFor < 0 then .error .confirmForNegative
  else if c.sampleTimeout ≤ 0 then .error .sampleTimeoutNotPositive
  else if c.sampleTimeout ≤ c.confirmFor then
    .error (.sampleTimeoutNotAboveConfirmFor c.sampleTimeout c.confirmFor)
  else .ok ()

variable (K) in
/-- A configuration that `__post_init__` accepts. -/
structure TriggerConfig extends TriggerFields K where
  accepted : toTriggerFields.postInit = .ok ()

end Config

/-! ## The machine -/

/-- The regime being confirmed. The source keeps the three fields apart, sets them together and
resets them together. -/
structure Candidate where
  regime : Regime
  since : Int
  samples : Int
  deriving DecidableEq

/-- The regime state machine of one symbol. -/
structure SchmittTrigger (K : Type*) [LE K] [DecidableLE K] where
  symbol : String
  config : TriggerConfig K
  regime : Regime := .normal
  seq : Int := 0
  regimeSince : Option Int := none
  candidate : Option Candidate := none
  lastSampleTs : Option Int := none
  lastEscalation : Option Int := none
  unobservedSince : Option Int := none
  wasThawed : Bool := false
  gateReason : String := ""

/-- Persisted shape. The two times are ISO strings in the source, read back by
`datetime.fromisoformat`. -/
structure TriggerSnapshot where
  regime : Regime
  seq : Int
  regimeSince : Option Int
  lastEscalation : Option Int
  thawed : Bool
  deriving DecidableEq

namespace SchmittTrigger

variable {K : Type*} [LE K] [DecidableLE K]

/-- True when the last update was evaluated. -/
def armed (t : SchmittTrigger K) : Bool := t.unobservedSince.isNone

/-- `baseline_should_thaw`: the stress has lasted `thaw_after`. -/
def baselineShouldThaw (t : SchmittTrigger K) (now : Int) : Bool :=
  match t.regime, t.regimeSince with
  | .stressed, some since => t.config.thawAfter ≤ now - since
  | _, _ => false

def markThawed (t : SchmittTrigger K) : SchmittTrigger K := { t with wasThawed := true }

def resetCandidate (t : SchmittTrigger K) : SchmittTrigger K := { t with candidate := none }

/-- `_commit`. Its callers never pass the current regime: see `update_step`. -/
def commit (t : SchmittTrigger K) (target : Regime) (z : Option K) (threshold : K)
    (sigma : Option K) (ts : Int) (cause : TransitionCause) (reason : Reason K) :
    SchmittTrigger K × RegimeTransition K :=
  ({ t with
      regime := target
      seq := t.seq + 1
      regimeSince := some ts
      candidate := none
      wasThawed := false
      lastEscalation := if target = .stressed then some ts else t.lastEscalation },
    { symbol := t.symbol
      ts
      seq := t.seq + 1
      oldRegime := t.regime
      newRegime := target
      triggerValue := z
      thresholdValue := threshold
      sigma
      cause
      reason })

/-- The first half of `_hold`: the candidate is dropped, and the gap starts if none is open. -/
def lose (t : SchmittTrigger K) (ts : Int) (reason : String) : SchmittTrigger K :=
  { t with
    gateReason := reason
    candidate := none
    unobservedSince := some (t.unobservedSince.getD ts) }

/-- `_hold`: cannot evaluate. -/
def hold (t : SchmittTrigger K) (ts : Int) (reason : String) :
    SchmittTrigger K × Option (RegimeTransition K) :=
  let t := t.lose ts reason
  let unobserved := ts - t.unobservedSince.getD ts
  if t.regime = .stressed ∧ t.config.observationTimeout ≤ unobserved then
    let (t, transition) := t.commit .normal none t.config.exitZ none ts .observationLost
      (.unobserved unobserved reason)
    (t, some transition)
  else (t, none)

/-- `_target_regime`. Which threshold applies depends on the regime we are in. -/
def targetRegime (t : SchmittTrigger K) (z : K) : Regime :=
  match t.regime with
  | .normal => if t.config.enterZ ≤ z then .stressed else .normal
  | .stressed => if z ≤ t.config.exitZ then .normal else .stressed

/-- The first half of `_accumulate`: the candidate with this sample counted. -/
def propose (t : SchmittTrigger K) (target : Regime) (ts : Int) : Candidate :=
  match t.candidate with
  | some c =>
    if c.regime = target then { c with samples := c.samples + 1 }
    else { regime := target, since := ts, samples := 1 }
  | none => { regime := target, since := ts, samples := 1 }

/-- An escalation within `cooldown` of the last one. -/
def rateLimited (t : SchmittTrigger K) (target : Regime) (ts : Int) : Bool :=
  match target, t.lastEscalation with
  | .stressed, some last => ts - last < t.config.cooldown
  | _, _ => false

/-- The cause of a commit on evidence: a clear after a thaw is tagged as such. -/
def causeOf (t : SchmittTrigger K) (target : Regime) : TransitionCause :=
  if target = .normal ∧ t.wasThawed then .baselineThaw else .threshold

/-- `_accumulate`. -/
def accumulate (t : SchmittTrigger K) (target : Regime) (z : K) (sigma : K) (ts : Int) :
    SchmittTrigger K × Option (RegimeTransition K) :=
  let c := t.propose target ts
  let t := { t with candidate := some c }
  let heldFor := ts - c.since
  if c.samples < t.config.minConfirmSamples ∨ heldFor < t.config.confirmFor then (t, none)
  else if t.rateLimited target ts then (t, none)
  else
    let threshold := if target = .stressed then t.config.enterZ else t.config.exitZ
    let held := Reason.held z target threshold heldFor c.samples
    let (t, transition) := t.commit target (some z) threshold (some sigma) ts
      (t.causeOf target) (if t.causeOf target = .baselineThaw then .thawed held else held)
    (t, some transition)

/-- What an evaluated sample does before its z-score is read: the observation gap ends, and a gap
above `sample_timeout` breaks the run of consecutive observations. -/
def observe (t : SchmittTrigger K) (ts : Int) : SchmittTrigger K :=
  { t with
    unobservedSince := none
    gateReason := ""
    candidate :=
      if t.lastSampleTs.any fun last => t.config.sampleTimeout < ts - last then none
      else t.candidate
    lastSampleTs := some ts }

/-- `update`: feed one observation. -/
def update (t : SchmittTrigger K) (zscore : Option K) (sigma : K) (ts : Int) (armed : Bool)
    (gateReason : String) : SchmittTrigger K × Option (RegimeTransition K) :=
  match armed, zscore with
  | true, some z =>
    let t := t.observe ts
    let target := t.targetRegime z
    if target = t.regime then (t.resetCandidate, none) else t.accumulate target z sigma ts
  | armed, _ =>
    t.hold ts (if gateReason ≠ "" then gateReason
      else if armed then "baseline not ready" else "gated")

def snapshot (t : SchmittTrigger K) : TriggerSnapshot where
  regime := t.regime
  seq := t.seq
  regimeSince := t.regimeSince
  lastEscalation := t.lastEscalation
  thawed := t.wasThawed

/-- `restore`: a half-finished confirmation and an open gap are not carried across. -/
def restore (symbol : String) (state : TriggerSnapshot) (config : TriggerConfig K) :
    SchmittTrigger K where
  symbol
  config
  regime := state.regime
  seq := state.seq
  regimeSince := state.regimeSince
  lastEscalation := state.lastEscalation
  wasThawed := state.thawed

@[simp] theorem snapshot_restore (symbol : String) (state : TriggerSnapshot)
    (config : TriggerConfig K) : (restore symbol state config).snapshot = state := rfl

/-! ## What a step commits -/

/-- The z-score is past the threshold that applies in `r`. -/
def Past (config : TriggerConfig K) (r : Regime) (z : K) : Prop :=
  match r with
  | .normal => config.enterZ ≤ z
  | .stressed => z ≤ config.exitZ

instance (config : TriggerConfig K) (z : K) : (r : Regime) → Decidable (Past config r z)
  | .normal => inferInstanceAs (Decidable (config.enterZ ≤ z))
  | .stressed => inferInstanceAs (Decidable (z ≤ config.exitZ))

theorem targetRegime_eq_regime_iff (t : SchmittTrigger K) (z : K) :
    t.targetRegime z = t.regime ↔ ¬ Past t.config t.regime z := by
  unfold targetRegime Past
  cases t.regime <;> simp

theorem targetRegime_of_past {t : SchmittTrigger K} {z : K} (h : Past t.config t.regime z) :
    t.targetRegime z = t.regime.flip :=
  Regime.eq_flip_of_ne fun he => (t.targetRegime_eq_regime_iff z).mp he h

/-- `t'` is `t` after it committed `tr` at `ts`. -/
structure Commits (t : SchmittTrigger K) (ts : Int) (tr : RegimeTransition K)
    (t' : SchmittTrigger K) : Prop where
  symbol : tr.symbol = t.symbol
  time : tr.ts = ts
  seq : tr.seq = t.seq + 1
  old : tr.oldRegime = t.regime
  new : tr.newRegime = t.regime.flip
  /-- An escalation respects the rate limit. -/
  spaced : tr.newRegime = .stressed → ∀ last ∈ t.lastEscalation, t.config.cooldown ≤ ts - last
  snapshot : t'.snapshot =
    { regime := tr.newRegime
      seq := tr.seq
      regimeSince := some ts
      lastEscalation := if tr.newRegime = .stressed then some ts else t.lastEscalation
      thawed := false }
  fixed : t'.symbol = t.symbol ∧ t'.config = t.config
  idle : t'.candidate = none

/-- `t'` is `t` up to what is not persisted. -/
structure Kept (t t' : SchmittTrigger K) : Prop where
  snapshot : t'.snapshot = t.snapshot
  fixed : t'.symbol = t.symbol ∧ t'.config = t.config

theorem rateLimited_eq_false_iff {t : SchmittTrigger K} {target : Regime} {ts : Int} :
    t.rateLimited target ts = false ↔
      (target = .stressed → ∀ last ∈ t.lastEscalation, t.config.cooldown ≤ ts - last) := by
  unfold rateLimited
  cases target with
  | normal => simp
  | stressed => cases t.lastEscalation <;> simp

/-- **When a sample past the threshold commits nothing.** -/
theorem accumulate_eq_none_iff {t : SchmittTrigger K} {target : Regime} {z sigma : K} {ts : Int} :
    (t.accumulate target z sigma ts).2 = none ↔
      ¬ (t.config.minConfirmSamples ≤ (t.propose target ts).samples ∧
        t.config.confirmFor ≤ ts - (t.propose target ts).since ∧
        t.rateLimited target ts = false) := by
  unfold accumulate
  simp only
  split
  · next h => simp only [true_iff]; omega
  · next h =>
    have hrl : ({ t with candidate := some (t.propose target ts) } :
        SchmittTrigger K).rateLimited target ts = t.rateLimited target ts := rfl
    rw [hrl]
    cases hr : t.rateLimited target ts with
    | true => simp
    | false =>
      simp only [Bool.false_eq_true, ↓reduceIte, and_true, reduceCtorEq, false_iff, not_not]
      omega

theorem causeOf_ne_observationLost (t : SchmittTrigger K) (target : Regime) :
    t.causeOf target ≠ .observationLost := by
  unfold causeOf
  split <;> exact fun h => by cases h

theorem accumulate_step (t : SchmittTrigger K) (target : Regime) (z sigma : K) (ts : Int)
    (htarget : target = t.regime.flip) :
    ((t.accumulate target z sigma ts).2 = none ∧
      (t.accumulate target z sigma ts).1 = { t with candidate := some (t.propose target ts) }) ∨
    ∃ tr, (t.accumulate target z sigma ts).2 = some tr ∧ tr.cause ≠ .observationLost ∧
      Commits t ts tr (t.accumulate target z sigma ts).1 := by
  unfold accumulate
  simp only
  split
  · exact Or.inl ⟨rfl, rfl⟩
  · split
    · exact Or.inl ⟨rfl, rfl⟩
    · next hr =>
      rw [Bool.not_eq_true] at hr
      exact Or.inr ⟨_, rfl, causeOf_ne_observationLost t target,
        rfl, rfl, rfl, rfl, htarget, rateLimited_eq_false_iff.mp hr, rfl, ⟨rfl, rfl⟩, rfl⟩

theorem hold_step (t : SchmittTrigger K) (ts : Int) (why : String) :
    ((t.hold ts why).2 = none ∧ (t.hold ts why).1 = t.lose ts why) ∨
    ∃ tr, (t.hold ts why).2 = some tr ∧ tr.cause = .observationLost ∧
      Commits t ts tr (t.hold ts why).1 := by
  unfold hold
  simp only
  split
  · next h =>
    have hnew : Regime.normal = t.regime.flip := by
      have hr : t.regime = .stressed := h.1
      rw [hr]; rfl
    refine Or.inr ⟨_, rfl, rfl, ?_⟩
    exact ⟨rfl, rfl, rfl, rfl, hnew, fun hs => (nomatch hs), rfl, ⟨rfl, rfl⟩, rfl⟩
  · exact Or.inl ⟨rfl, rfl⟩

/-- **One update** commits nothing and leaves the persisted state as it was, or commits the flip. -/
theorem update_step (t : SchmittTrigger K) (zscore : Option K) (sigma : K) (ts : Int)
    (armed : Bool) (why : String) :
    ((t.update zscore sigma ts armed why).2 = none ∧
      Kept t (t.update zscore sigma ts armed why).1) ∨
    ∃ tr, (t.update zscore sigma ts armed why).2 = some tr ∧
      Commits t ts tr (t.update zscore sigma ts armed why).1 := by
  unfold update
  split
  · next z =>
    simp only
    split
    · exact Or.inl ⟨rfl, rfl, rfl, rfl⟩
    · next hne =>
      have hflip := Regime.eq_flip_of_ne hne
      rcases accumulate_step _ _ z sigma ts hflip with ⟨hnone, heq⟩ | ⟨tr, hsome, -, hc⟩
      · exact Or.inl ⟨hnone, by rw [heq]; exact ⟨rfl, rfl, rfl⟩⟩
      · exact Or.inr ⟨tr, hsome, hc.symbol, hc.time, hc.seq, hc.old, hc.new, hc.spaced, hc.snapshot, hc.fixed, hc.idle⟩
  · rcases t.hold_step ts _ with ⟨hnone, heq⟩ | ⟨tr, hsome, -, hc⟩
    · exact Or.inl ⟨hnone, by rw [heq]; exact ⟨rfl, rfl, rfl⟩⟩
    · exact Or.inr ⟨tr, hsome, hc⟩

end SchmittTrigger

end FxTracker.Alerts
