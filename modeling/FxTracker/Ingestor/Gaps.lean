import FxTracker.Ingestor.Numbering
import Mathlib.Data.List.Sort

/-!
# The alternation view

`alert_regime_gaps` of `003_alert_events.sql` over the rows that the written transitions become.

* `alertRegimeGaps_eq_nil` — a log whose transitions resume it has no gaps
* `gaps_empty` — the view is empty as long as each leader comes back in the regime last written
* `stressed_twice` — a switch while stressed to a provider without a detector state breaks the chain
-/

namespace FxTracker.Ingestor

open Alerts

variable {K : Type}

/-- The columns of the view. -/
structure RegimeGap where
  symbol : String
  seq : Int
  ts : Int
  expectedPreviousRegime : Regime
  actualPreviousRegime : Regime
  previousSeq : Int
  deriving DecidableEq

/-- The row of the view that a row and the one before it in the window give. -/
def RegimeGap.of (previous row : RegimeTransition K) : RegimeGap where
  symbol := row.symbol
  seq := row.seq
  ts := row.ts
  expectedPreviousRegime := row.oldRegime
  actualPreviousRegime := previous.newRegime
  previousSeq := previous.seq

/-- The `WHERE` of the view, over the rows of a partition in the window's order. -/
def gapsOf : List (RegimeTransition K) → List RegimeGap
  | previous :: row :: rows =>
    if previous.newRegime ≠ row.oldRegime ∨ row.seq ≠ previous.seq + 1 then
      .of previous row :: gapsOf (row :: rows)
    else gapsOf (row :: rows)
  | _ => []

/-- `ORDER BY seq`. -/
def SeqLE (tr tr' : RegimeTransition K) : Prop := tr.seq ≤ tr'.seq

instance : DecidableRel (SeqLE (K := K)) := fun tr tr' => inferInstanceAs (Decidable (tr.seq ≤ tr'.seq))

instance : IsTrans (RegimeTransition K) SeqLE := ⟨fun _ _ _ => Int.le_trans⟩

instance : Std.Total (SeqLE (K := K)) := ⟨fun tr tr' => Int.le_total tr.seq tr'.seq⟩

/-- `alert_regime_gaps`, the partition of one symbol. -/
def alertRegimeGaps (rows : List (RegimeTransition K)) (symbol : String) : List RegimeGap :=
  gapsOf ((rows.filter (·.symbol = symbol)).insertionSort SeqLE)

/-- The row goes on from the one before it. -/
def Alternates (previous row : RegimeTransition K) : Prop :=
  row.oldRegime = previous.newRegime ∧ row.seq = previous.seq + 1

theorem gapsOf_eq_nil {rows : List (RegimeTransition K)} (h : rows.IsChain Alternates) :
    gapsOf rows = [] := by
  induction rows with
  | nil => rfl
  | cons previous rows ih =>
    cases rows with
    | nil => rfl
    | cons row rows =>
      obtain ⟨halt, hchain⟩ := List.isChain_cons_cons.mp h
      have hfine : ¬ (previous.newRegime ≠ row.oldRegime ∨ row.seq ≠ previous.seq + 1) := by
        rintro (hregime | hseq)
        · exact hregime halt.1.symm
        · exact hseq halt.2
      rw [gapsOf, if_neg hfine]
      exact ih hchain

/-- Rows stored in any order come back in the order of the log. -/
theorem insertionSort_eq {log rows : List (RegimeTransition K)}
    (hseq : log.Pairwise fun tr tr' => tr.seq < tr'.seq) (hrows : rows.Perm log) :
    rows.insertionSort SeqLE = log := by
  have hperm := (List.perm_insertionSort SeqLE rows).trans hrows
  refine hperm.eq_of_pairwise (fun tr tr' htr htr' hle hle' => ?_) (List.pairwise_insertionSort SeqLE rows)
    (hseq.imp fun hlt => Int.le_of_lt hlt)
  by_contra hne
  -- two transitions of the log have two numbers
  have hsymm : Std.Symm fun tr tr' : RegimeTransition K => tr.seq ≠ tr'.seq := ⟨fun _ _ h => h.symm⟩
  have hdistinct := (hseq.imp fun hlt => Int.ne_of_lt hlt).forall
  exact hdistinct (hperm.mem_iff.mp htr) htr' hne (Int.le_antisymm hle hle')

/-- **A log whose transitions resume it has no gaps**, however its rows were stored. -/
theorem alertRegimeGaps_eq_nil {alerts rows : List (RegimeTransition K)} {symbol : String}
    (hrows : rows.Perm alerts)
    (hlog : Log.Follows Standing.next Standing.Resumes .initial (logOf alerts symbol)) :
    alertRegimeGaps rows symbol = [] := by
  have hchain : (logOf alerts symbol).IsChain Alternates :=
    hlog.isChain fun s tr tr' _ hnext => ⟨hnext.old, hnext.numbered⟩
  unfold alertRegimeGaps
  rw [insertionSort_eq (seq_pairwise_of_numbers (hlog.mono fun _ _ hr => hr.numbered))
    (hrows.filter _)]
  exact gapsOf_eq_nil hchain

/-! ## Every run -/

variable [LE K] [DecidableLE K] [LT K] [DecidableLT K] [FloatMath K] {setup : Setup K} {κ : Type}
  [DecidableEq κ] {s : State setup κ}

/-- What is known of the regimes and the numbers. -/
def regimeAndSeq (st : Standing) : Regime × Int := (st.regime, st.seq)

omit [LE K] [DecidableLE K] [LT K] [DecidableLT K] [FloatMath K] in
theorem knows_regimeAndSeq (cooldown : Int) : Knows (K := K) regimeAndSeq Standing.Resumes cooldown where
  ok s s' tr hview hc := by
    obtain ⟨hregime, hseq⟩ := Prod.mk.inj hview
    have hnum : tr.seq = s.seq + 1 := hc.numbered
    rw [hseq] at hnum
    exact ⟨hnum, hc.old.trans hregime, hregime ▸ hc.new⟩
  next _ _ _ _ := rfl

/-- The log resumes in every run of leaders that come back in the regime last written. -/
theorem led_of_reachable (h : ((leaderships setup κ).guard (Returns Standing.regime)).Reachable s) :
    Led regimeAndSeq Standing.Resumes s := by
  induction h with
  | init hs => exact hs.led
  | @step u _ a hr hstep ih =>
    have hseq := returns_seq (counted_of_reachable hr.of_guard).1 hstep.1
    refine ih.step (knows_regimeAndSeq _) hstep.1 ?_
    cases a with
    | restore k scanned =>
      exact fun p hp symbol hmem => Prod.ext (hstep.2 p hp symbol hmem) (hseq p hp symbol hmem)
    | _ => trivial

/-- **The view is empty** in every run, whatever the switches, as long as at each restore the detector
of each of the leader's symbols comes back in the regime that the last transition written for it ended
in. -/
theorem gaps_empty (h : ((leaderships setup κ).guard (Returns Standing.regime)).Reachable s)
    {rows : List (RegimeTransition K)} (hrows : rows.Perm s.alerts) (symbol : String) :
    alertRegimeGaps rows symbol = [] :=
  alertRegimeGaps_eq_nil hrows ((led_of_reachable h).log symbol)

/-- After the escalation and the crash the same provider leads again. -/
def sampleReturned : State sampleSetup Nat :=
  sampleEscalated.led 1 tiingo ["EURUSD"] (List.nodup_singleton "EURUSD")
    [("tiingo", "EURUSD"), ("another", "EURUSD")]

theorem reachable_sampleReturned :
    ((leaderships sampleSetup Nat).guard (Returns Standing.regime)).Reachable sampleReturned := by
  have hidle : sampleEscalated.process 1 = none := rfl
  have hfree : sampleEscalated.leader = none := rfl
  have hok : (adoptProvider sampleEscalated.store ["EURUSD"] tiingo.name).2 = .ok none := rfl
  have hscan : ∀ p symbol v, (adoptProvider sampleEscalated.store ["EURUSD"] tiingo.name).1.value
      (.archive p .regime symbol) = some v → (p, symbol) ∈ [("tiingo", "EURUSD"), ("another", "EURUSD")] :=
    fun _ _ _ h => archive_sampleEscalated h
  have hview : ∀ symbol ∈ ["EURUSD"], Standing.regime (sampleEscalated.ledDetector tiingo ["EURUSD"]
      [("tiingo", "EURUSD"), ("another", "EURUSD")] symbol).trigger.standing =
        (standingOf sampleEscalated.alerts symbol).regime := by
    decide +kernel
  exact reachable_led step_returns reachable_sampleEscalated (by decide) hidle hfree hok hscan trivial
    (fun _ => ⟨trivial, trivial⟩) (returns_adoptedBy hview)

/-- It is shown a bar that is held back, and an hour later another one. -/
def returnedHeld : RegimeDetector ℚ × Option (RegimeTransition ℚ) :=
  ((sampleEscalated.ledDetector tiingo ["EURUSD"] [("tiingo", "EURUSD"), ("another", "EURUSD")]
    "EURUSD").update (gapBar 2)).get (by decide +kernel)

def returnedLost : RegimeDetector ℚ × Option (RegimeTransition ℚ) :=
  (returnedHeld.1.update (gapBar 3600000002)).get (by decide +kernel)

theorem built_returnedHeld : Built sampleSetup "EURUSD" returnedHeld.1 :=
  built_update (((Process.fresh sampleSetup tiingo ["EURUSD"] (List.nodup_singleton "EURUSD")).rehydrated
    (adoptProvider sampleEscalated.store ["EURUSD"] tiingo.name).1 [("tiingo", "EURUSD"),
      ("another", "EURUSD")]).built "EURUSD") (Option.some_get _).symm

/-- After its transition. -/
def sampleRelaxed : State sampleSetup Nat :=
  sampleEscalated.shift 1 tiingo ["EURUSD"] (List.nodup_singleton "EURUSD")
    [("tiingo", "EURUSD"), ("another", "EURUSD")] "EURUSD" built_returnedHeld returnedHeld.2 returnedLost.1
    returnedLost.2

theorem reachable_sampleRelaxed :
    ((leaderships sampleSetup Nat).guard (Returns Standing.regime)).Reachable sampleRelaxed :=
  reachable_shift step_returns (by decide) reachable_sampleReturned (by decide) (Option.some_get _).symm
    (Option.some_get _).symm built_returnedHeld (fun _ => trivial) fun _ => trivial

theorem gaps_empty_sampleRelaxed : sampleRelaxed.alerts.map (fun tr => (tr.seq, tr.newRegime)) =
      [(1, .stressed), (2, .normal)] ∧ alertRegimeGaps sampleRelaxed.alerts "EURUSD" = [] :=
  ⟨by decide +kernel, gaps_empty reachable_sampleRelaxed (.refl _) "EURUSD"⟩

/-- **Stressed twice.** The first provider's detector escalates, and after a switch so does the other's,
which had never escalated. -/
theorem stressed_twice : (leaderships sampleSetup Nat).Reachable sampleSwitched ∧
    alertRegimeGaps sampleSwitched.alerts "EURUSD" =
      [{ symbol := "EURUSD"
         seq := 2
         ts := 2
         expectedPreviousRegime := .normal
         actualPreviousRegime := .stressed
         previousSeq := 1 }] :=
  ⟨reachable_sampleSwitched, by decide +kernel⟩

end FxTracker.Ingestor
