import FxTracker.Alerts.Detector
import Mathlib.Data.List.Chain
import Mathlib.Data.List.Induction

/-!
# The warm-up after an opening

The detector learns of an opening from the bars it is fed: a bar while the market is closed, then one
while it is open. Where the bar before an opening was fed while the market was open the opening goes
unseen.

* `warmup_enforced` — where no opening goes unseen, no bar within the warm-up after it is evaluated
-/

namespace FxTracker.Alerts

variable {K : Type} [LE K] [DecidableLE K]

/-- The market opens at the instant `o`. -/
def OpensAt (isOpen : Int → Bool) (o : Int) : Prop := isOpen o = true ∧ isOpen (o - 1) = false

instance (isOpen : Int → Bool) (o : Int) : Decidable (OpensAt isOpen o) :=
  inferInstanceAs (Decidable (_ ∧ _))

/-- Before each opening that a later bar follows within the warm-up, the last bar fed was fed while the
market was closed. -/
def OpeningsSeen (isOpen : Int → Bool) (warmup : Int) (bars : List (SealedBar K)) : Prop :=
  bars.IsChain fun p b =>
    (∃ o, OpensAt isOpen o ∧ p.ts < o ∧ o ≤ b.ts ∧ b.ts < o + warmup) → isOpen p.ts = false

namespace RegimeDetector

variable [LT K] [DecidableLT K] [FloatMath K] {d d' : RegimeDetector K} {bars : List (SealedBar K)}

/-- The detector after a run of bars. -/
def feed (d : RegimeDetector K) : List (SealedBar K) → Option (RegimeDetector K)
  | [] => some d
  | bar :: bars => (d.update bar).bind fun r => r.1.feed bars

theorem feed_concat (d : RegimeDetector K) (bars : List (SealedBar K)) (bar : SealedBar K) :
    d.feed (bars ++ [bar]) = (d.feed bars).bind fun d => (d.update bar).map Prod.fst := by
  induction bars generalizing d with
  | nil =>
    simp only [List.nil_append, feed, Option.bind_some]
    cases d.update bar <;> rfl
  | cons b bars ih =>
    simp only [List.cons_append, feed]
    cases d.update b with
    | none => rfl
    | some r => exact ih r.1

theorem feed_concat_eq_some {bar : SealedBar K} (h : d.feed (bars ++ [bar]) = some d') :
    ∃ d₁ o, d.feed bars = some d₁ ∧ d₁.update bar = some (d', o) := by
  rw [feed_concat] at h
  obtain ⟨d₁, hd₁, h⟩ := Option.bind_eq_some_iff.mp h
  obtain ⟨⟨d₂, o⟩, hr, rfl⟩ := Option.map_eq_some_iff.mp h
  exact ⟨d₁, o, hd₁, hr⟩

/-- What a run of bars leaves alone. -/
theorem feed_fixed (h : d.feed bars = some d') :
    d'.config = d.config ∧ d'.marketIsOpen = d.marketIsOpen := by
  induction bars using List.reverseRecOn generalizing d' with
  | nil => cases h; exact ⟨rfl, rfl⟩
  | append_singleton bars bar ih =>
    obtain ⟨d₁, o, hd₁, hr⟩ := feed_concat_eq_some h
    obtain ⟨hc, hm⟩ := ih hd₁
    obtain ⟨-, hc', -, hm'⟩ := update_fixed hr
    exact ⟨hc'.trans hc, hm'.trans hm⟩

/-- The last bar tells whether the market was open. -/
theorem wasOpen_feed {bar : SealedBar K} (h : d.feed (bars ++ [bar]) = some d') :
    d'.wasOpen = some (d.marketIsOpen bar.ts) := by
  obtain ⟨d₁, o, hd₁, hr⟩ := feed_concat_eq_some h
  rw [(update_session hr).1]
  show some (d₁.marketIsOpen bar.ts) = _
  rw [(feed_fixed hd₁).2]

/-! ## The opening the detector remembers -/

/-- While the market is open the detector remembers an opening that is not before `o`. -/
def Remembers (d : RegimeDetector K) (o ts : Int) : Prop :=
  d.marketIsOpen ts = true → ∃ opened, d.openedAt = some opened ∧ o ≤ opened

omit [LT K] [DecidableLT K] [FloatMath K] in
/-- A bar after a closed market at `o` or later. -/
theorem remembers_of_closed {o ts : Int} (hw : d.wasOpen = some false) (ho : o ≤ ts) :
    (d.noteSession ts).Remembers o ts := by
  intro hopen
  exact ⟨ts, if_pos ⟨hw, hopen⟩, ho⟩

omit [LT K] [DecidableLT K] [FloatMath K] in
/-- A later bar. -/
theorem Remembers.next {o last ts : Int} (h : d.Remembers o last)
    (hw : d.wasOpen = some (d.marketIsOpen last)) (ho : o ≤ ts) :
    (d.noteSession ts).Remembers o ts := by
  cases hopen : d.marketIsOpen last with
  | false => exact remembers_of_closed (hw.trans (congrArg some hopen)) ho
  | true =>
    intro _
    obtain ⟨opened, ho', hle⟩ := h hopen
    refine ⟨opened, ?_, hle⟩
    show (if _ then _ else d.openedAt) = _
    rw [if_neg, ho']
    rintro ⟨hclosed, -⟩
    rw [hw, hopen] at hclosed
    cases hclosed

/-- **An opening that is seen is remembered** for as long as its warm-up. -/
theorem remembers_noteSession {bar : SealedBar K} {o : Int} (hd : d.feed bars = some d')
    (hasc : (bars ++ [bar]).Pairwise fun p q => p.ts < q.ts)
    (hseen : OpeningsSeen d.marketIsOpen d.config.sessionWarmup (bars ++ [bar]))
    (ho : OpensAt d.marketIsOpen o) (hbefore : ∃ p ∈ bars, p.ts < o) (hle : o ≤ bar.ts)
    (hlt : bar.ts < o + d.config.sessionWarmup) : (d'.noteSession bar.ts).Remembers o bar.ts := by
  induction bars using List.reverseRecOn generalizing d' bar with
  | nil =>
    obtain ⟨p, hp, -⟩ := hbefore
    cases hp
  | append_singleton bars last ih =>
    have hw := wasOpen_feed hd
    by_cases hlast : last.ts < o
    · -- the opening is between the two bars
      have hclosed := (List.isChain_append.mp hseen).2.2 last (by simp) bar rfl
        ⟨o, ho, hlast, hle, hlt⟩
      rw [hclosed] at hw
      exact remembers_of_closed hw hle
    · have hlt' : last.ts < bar.ts := by
        refine (List.pairwise_append.mp hasc).2.2 last ?_ bar (List.mem_singleton_self bar)
        exact List.mem_append_right _ (List.mem_singleton_self last)
      obtain ⟨d₁, tr, hd₁, hr⟩ := feed_concat_eq_some hd
      have hbefore' : ∃ p ∈ bars, p.ts < o := by
        obtain ⟨p, hp, hpo⟩ := hbefore
        rcases List.mem_append.mp hp with hp | hp
        · exact ⟨p, hp, hpo⟩
        · rw [List.mem_singleton.mp hp] at hpo
          exact absurd hpo hlast
      have hrem := ih hd₁ (List.pairwise_append.mp hasc).1 hseen.left_of_append hbefore'
        (not_lt.mp hlast) (by omega)
      have hrem' : d'.Remembers o last.ts := by
        intro hopen
        rw [(update_session hr).2]
        refine hrem ?_
        show d₁.marketIsOpen last.ts = true
        rw [← (update_fixed hr).2.2.2]
        exact hopen
      refine hrem'.next ?_ hle
      rw [hw, (feed_fixed hd).2]

/-- **Where no opening goes unseen, no bar within the warm-up after it is evaluated**: none changes the
baseline or the profile, or produces a transition other than for lost observation. -/
theorem warmup_enforced (d : RegimeDetector K) (bars : List (SealedBar K))
    (hasc : bars.Pairwise fun p q => p.ts < q.ts)
    (hseen : OpeningsSeen d.marketIsOpen d.config.sessionWarmup bars)
    {pre post : List (SealedBar K)} {bar : SealedBar K} (hsplit : bars = pre ++ bar :: post)
    {d' : RegimeDetector K} (hd : d.feed pre = some d') {o : Int}
    (ho : OpensAt d.marketIsOpen o) (hbefore : ∃ p ∈ pre, p.ts < o) (hle : o ≤ bar.ts)
    (hlt : bar.ts < o + d.config.sessionWarmup) :
    ¬ d'.Evaluates bar ∧ ∃ d'' tr, d'.update bar = some (d'', tr) ∧ d''.baseline = d'.baseline ∧
      d''.profile = d'.profile ∧ ∀ t ∈ tr, t.cause = .observationLost := by
  have happ : bars = (pre ++ [bar]) ++ post := by simp [hsplit]
  rw [happ] at hasc hseen
  have hrem := remembers_noteSession hd (List.pairwise_append.mp hasc).1
    hseen.left_of_append ho hbefore hle hlt
  obtain ⟨hconfig, hmarket⟩ := feed_fixed hd
  have hrefused : ¬ d'.Evaluates bar := by
    rw [evaluates_iff]
    rintro ⟨hgate, -⟩
    unfold gateReason at hgate
    cases hopen : (d'.noteSession bar.ts).marketIsOpen bar.ts with
    | false => simp [hopen] at hgate
    | true =>
      obtain ⟨opened, hopened, hle'⟩ := hrem hopen
      have hwarm : (d'.noteSession bar.ts).warmingUp bar.ts = true := by
        unfold warmingUp
        rw [hopened]
        simp only [Option.any_some, decide_eq_true_eq]
        show bar.ts - opened < d'.config.sessionWarmup
        rw [hconfig]
        omega
      simp [hopen, hwarm] at hgate
  obtain ⟨d'', tr, hu, hb, hp, -, htr⟩ := exists_update_of_refused hrefused
  exact ⟨hrefused, d'', tr, hu, hb, hp, htr⟩

/-- Closed from 100 to 200. -/
def closedFor (ts : Int) : Bool := ts < 100 || 200 ≤ ts

theorem opensAt_closedFor {o : Int} (h : OpensAt closedFor o) : o = 200 := by
  obtain ⟨hnow, hbefore⟩ := h
  simp only [closedFor, Bool.or_eq_true, decide_eq_true_eq, Bool.or_eq_false_iff,
    decide_eq_false_iff_not] at hnow hbefore
  omega

/-- Four bars, one of them while the market is closed. -/
def barsAcross : List (SealedBar ℚ) := [sampleBar 98, sampleBar 99, sampleBar 150, sampleBar 201]

/-- A bar while the market is closed shows the opening. -/
theorem warmup_enforced_acrossClosure : ∃ d, (sampleDetector closedFor).feed barsAcross = some d ∧
    ¬ d.Evaluates (sampleBar 202) := by
  have hseen : OpeningsSeen closedFor 1800000000 (barsAcross ++ [sampleBar 202]) := by
    simp only [OpeningsSeen, barsAcross, List.cons_append, List.nil_append, List.isChain_cons_cons,
      List.isChain_singleton, and_true]
    refine ⟨?_, ?_, ?_, ?_⟩ <;> rintro ⟨o, ho, hp, hb, -⟩ <;> rw [opensAt_closedFor ho] at hp hb
    · exact absurd hb (by decide)
    · exact absurd hb (by decide)
    · rfl
    · exact absurd hp (by decide)
  have hsome : ((sampleDetector closedFor).feed barsAcross).isSome = true := by decide +kernel
  obtain ⟨d, hd⟩ := Option.isSome_iff_exists.mp hsome
  have hbefore : ∃ p ∈ barsAcross, p.ts < 200 :=
    ⟨sampleBar 98, List.mem_cons_self .., by decide⟩
  refine ⟨d, hd, ?_⟩
  exact (warmup_enforced _ _ (by decide) hseen rfl hd (by decide) hbefore (by decide) (by decide)).1

/-- **An opening that goes unseen.** Without a bar while the market is closed the first bar after the
opening is evaluated. -/
theorem unseen_opening_evaluated : OpensAt closedFor 200 ∧ ∃ d,
    (sampleDetector closedFor).feed [sampleBar 96, sampleBar 97, sampleBar 98, sampleBar 99] =
      some d ∧ d.Evaluates (sampleBar 201) := by
  have h : ((sampleDetector closedFor).feed [sampleBar 96, sampleBar 97, sampleBar 98,
      sampleBar 99]).any (fun d => d.Evaluates (sampleBar 201)) = true := by decide +kernel
  obtain ⟨d, hd, he⟩ := (Option.any_eq_true ..).mp h
  exact ⟨by decide, d, hd, of_decide_eq_true he⟩

end RegimeDetector

end FxTracker.Alerts
