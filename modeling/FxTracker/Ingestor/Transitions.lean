import FxTracker.Ingestor.Pipeline
import FxTracker.Worker.AlertConstraints

/-!
# Transitions on the wire

What `_queue_transition` of `fx_ingestor/pipeline.py` adds to `stream:alerts`, the fields of
`_transition_payload` as text, and what `AlertPersister._parse` reads out of it.

* `parseAlert_transitionFields` — a transition that changes the regime comes back as its row
-/

namespace FxTracker.Ingestor

open Alerts Worker

/-- How Python prints what a transition holds. -/
structure AlertPrinter (K : Type) extends Printer K where
  /-- `str(n)`. -/
  int : Int → String
  /-- `f"{x:.2f}"`. -/
  fixed2 : K → String
  /-- `f"{delta.total_seconds():.0f}"`. -/
  seconds : Int → String

variable {K : Type} [FloatMath K]

/-! ## Writing -/

/-- The `reason` as `SchmittTrigger` words it. -/
def reasonText (printer : AlertPrinter K) : Reason K → String
  | .held z target threshold heldFor samples =>
    "z=" ++ printer.fixed2 z ++ (if target = .stressed then " >= " else " <= ") ++
      printer.repr threshold ++ " held " ++ printer.seconds heldFor ++ "s over " ++
      printer.int samples ++ " samples"
  | .thawed held =>
    "baseline thawed; elevated level accepted as normal (" ++ reasonText printer held ++ ")"
  | .unobserved since gate =>
    "no evaluable samples for " ++ printer.seconds since ++ "s (" ++ gate ++ ")"

/-- A value of the payload. -/
inductive PayloadValue (K : Type)
  | none
  | str (s : String)
  | int (n : Int)
  | float (x : K)

/-- `x if math.isfinite(x) else None`. -/
def finiteOrNone (x : Option K) : PayloadValue K :=
  match x.filter (FloatMath.isFinite ·) with
  | some x => .float x
  | none => .none

/-- `_transition_payload`. -/
def transitionPayload (printer : AlertPrinter K) (tr : RegimeTransition K) :
    List (String × PayloadValue K) :=
  [("s", .str tr.symbol),
    ("seq", .int tr.seq),
    ("ts", .str (printer.isoformat tr.ts)),
    ("old_regime", .str tr.oldRegime.str),
    ("new_regime", .str tr.newRegime.str),
    ("trigger_value", finiteOrNone tr.triggerValue),
    ("threshold_value", .float tr.thresholdValue),
    ("sigma", finiteOrNone tr.sigma),
    ("cause", .str tr.cause.str),
    ("reason", .str (reasonText printer tr.reason))]

/-- `"" if v is None else str(v)`. -/
def fieldText (printer : AlertPrinter K) : PayloadValue K → String
  | .none => ""
  | .str s => s
  | .int n => printer.int n
  | .float x => printer.repr x

/-- The fields `_queue_transition` gives to `XADD`. -/
def transitionFields (printer : AlertPrinter K) (tr : RegimeTransition K) : Fields where
  entries := (transitionPayload printer tr).map fun p => (p.1, fieldText printer p.2)
  nodup := by
    simp [transitionPayload]

/-! ## Reading back -/

/-- The row of a transition: a value that is not finite is null. -/
def alertRow (printer : AlertPrinter K) (tr : RegimeTransition K) : AlertRow K where
  symbol := tr.symbol
  seq := tr.seq
  ts := tr.ts
  oldRegime := tr.oldRegime.str
  newRegime := tr.newRegime.str
  triggerValue := tr.triggerValue.filter (FloatMath.isFinite ·)
  thresholdValue := tr.thresholdValue
  sigma := tr.sigma.filter (FloatMath.isFinite ·)
  cause := tr.cause.str
  reason := reasonText printer tr.reason

/-- Python reads back the numbers and the times it writes. -/
structure ReadsBack (codec : Codec K) (printer : AlertPrinter K) : Prop where
  float : ∀ x, codec.float (printer.repr x) = some x
  /-- `float("")` is a `ValueError`. -/
  blank : codec.float "" = none
  int : ∀ n, codec.int (printer.int n) = some n
  time : ∀ t, IsTimestamptz t →
    (codec.fromisoformat (printer.isoformat t)).map IsoTime.instant = some t
  isFinite : ∀ x, codec.isFinite x = FloatMath.isFinite x

variable {codec : Codec K} {printer : AlertPrinter K} {tr : RegimeTransition K}

@[simp] theorem regime_str_mem (r : Regime) : r.str ∈ validRegimes := by
  cases r <;> simp [Regime.str, validRegimes]

@[simp] theorem cause_str_mem (c : TransitionCause) : c.str ∈ validCauses := by
  cases c <;> simp [TransitionCause.str, validCauses]

theorem regime_str_inj {r r' : Regime} (h : r.str = r'.str) : r = r' := by
  cases r <;> cases r' <;> first | rfl | simp [Regime.str] at h

/-- An optional number comes back if it is finite, and as null if it is not. -/
theorem optionalFloat_finiteOrNone (h : ReadsBack codec printer) (x : Option K) :
    optionalFloat codec (fieldText printer (finiteOrNone x)) =
      some (x.filter (FloatMath.isFinite ·)) := by
  unfold finiteOrNone
  split
  · next y hy =>
    -- the text of a number is not blank, for a blank one is no number
    have hne : printer.repr y ≠ "" := by
      intro hblank
      have hread := h.float y
      rw [hblank, h.blank] at hread
      cases hread
    have hfin : FloatMath.isFinite y = true := by
      rw [Option.filter_eq_some_iff] at hy
      exact hy.2
    rw [hy]
    simp [optionalFloat, fieldText, hne, h.float, h.isFinite, hfin]
  · next hnone =>
    rw [hnone]
    simp [optionalFloat, fieldText]

/-- **A transition comes back as its row.** -/
theorem parseAlert_transitionFields (h : ReadsBack codec printer) (hchange : tr.oldRegime ≠ tr.newRegime)
    (ht : IsTimestamptz tr.ts) :
    parseAlert codec (transitionFields printer tr) = some (alertRow printer tr) := by
  rw [parseAlert_eq_some_iff]
  exact {
    symbol := rfl
    seq := h.int tr.seq
    ts := h.time tr.ts ht
    oldRegime := rfl
    newRegime := rfl
    triggerValue := optionalFloat_finiteOrNone h tr.triggerValue
    thresholdValue := h.float tr.thresholdValue
    sigma := optionalFloat_finiteOrNone h tr.sigma
    cause := rfl
    reason := rfl
    validRegimes := ⟨regime_str_mem _, regime_str_mem _⟩
    changes := fun heq => hchange (regime_str_inj heq)
    validCause := cause_str_mem _ }

end FxTracker.Ingestor
