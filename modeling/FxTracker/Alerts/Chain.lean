import FxTracker.Alerts.Detector
import FxTracker.Lib.Log
import Mathlib.Algebra.Order.Group.Unbundled.Int

/-!
# The transitions of a symbol as a log

* `continues_of_commits` — what a trigger commits continues the log it stands at the end of
* `Chained.seq_getElem`, `Chained.head`, `Chained.regimes`, `Chained.spaced` — what the log of an unbroken
  succession of triggers looks like
-/

namespace FxTracker.Alerts

variable {K : Type}

/-- What a log of transitions comes to: the regime it ends in, the number it used last and the time of
the last escalation. -/
@[ext] structure Standing where
  regime : Regime
  seq : Int
  lastEscalation : Option Int
  deriving DecidableEq

namespace Standing

/-- No transition yet. -/
def initial : Standing := ⟨.normal, 0, none⟩

def next (s : Standing) (tr : RegimeTransition K) : Standing where
  regime := tr.newRegime
  seq := tr.seq
  lastEscalation := if tr.newRegime = .stressed then some tr.ts else s.lastEscalation

/-- The transition is numbered next. -/
def Numbers (s : Standing) (tr : RegimeTransition K) : Prop := tr.seq = s.seq + 1

/-- The transition leads on from the regime the log ended in. -/
structure Resumes (s : Standing) (tr : RegimeTransition K) : Prop where
  numbered : s.Numbers tr
  old : tr.oldRegime = s.regime
  new : tr.newRegime = s.regime.flip

/-- And an escalation is no sooner than `cooldown` after the last. -/
structure Continues (cooldown : Int) (s : Standing) (tr : RegimeTransition K) : Prop
    extends s.Resumes tr where
  spaced : tr.newRegime = .stressed → ∀ last ∈ s.lastEscalation, cooldown ≤ tr.ts - last

end Standing

def TriggerSnapshot.standing (s : TriggerSnapshot) : Standing := ⟨s.regime, s.seq, s.lastEscalation⟩

namespace SchmittTrigger

variable [LE K] [DecidableLE K] {t t' : SchmittTrigger K} {ts : Int} {tr : RegimeTransition K}
  {o : Option (RegimeTransition K)}

def standing (t : SchmittTrigger K) : Standing := ⟨t.regime, t.seq, t.lastEscalation⟩

@[simp] theorem standing_snapshot (t : SchmittTrigger K) : t.snapshot.standing = t.standing := rfl

@[simp] theorem standing_restore (symbol : String) (state : TriggerSnapshot) (config : TriggerConfig K) :
    (restore symbol state config).standing = state.standing := rfl

/-- **A commit continues the log** its trigger stands at the end of. -/
theorem continues_of_commits (h : t.Commits ts tr t') :
    t.standing.Continues t.config.cooldown tr ∧ t'.standing = t.standing.next tr := by
  refine ⟨⟨⟨h.seq, h.old, h.new⟩, fun hnew last hlast => ?_⟩, ?_⟩
  · rw [h.time]
    exact h.spaced hnew last hlast
  · rw [← standing_snapshot, h.snapshot, Standing.next, h.time]
    rfl

/-- **One update and the log.** It commits nothing and stands where it stood, or commits what continues
the log. -/
theorem standing_of_steps (h : RegimeDetector.TriggerSteps t ts o t') :
    (∀ tr ∈ o, t.standing.Continues t.config.cooldown tr) ∧
      t'.standing = o.toList.foldl Standing.next t.standing := by
  cases o with
  | none =>
    refine ⟨fun _ hmem => (nomatch hmem), ?_⟩
    have hstanding := congrArg TriggerSnapshot.standing h.1
    rw [standing_snapshot] at hstanding
    exact hstanding
  | some tr =>
    obtain ⟨hc, hnext⟩ := continues_of_commits h
    refine ⟨fun tr' hmem => ?_, hnext⟩
    cases hmem
    exact hc

end SchmittTrigger

/-! ## What the log looks like -/

/-- Every transition continues the log before it. -/
def Chained (cooldown : Int) (log : List (RegimeTransition K)) : Prop :=
  Log.Follows Standing.next (Standing.Continues cooldown) .initial log

variable {cooldown : Int} {log : List (RegimeTransition K)}

/-- The numbers are 1, 2, 3, … -/
theorem seq_getElem_of_numbers (h : Log.Follows Standing.next Standing.Numbers .initial log) (i : Nat)
    (hi : i < log.length) : log[i].seq = i + 1 := by
  have hcount : ∀ (s : Standing) (n : Nat) (tr : RegimeTransition K), s.seq = n → s.Numbers tr →
      (s.next tr).seq = (n + 1 : Nat) := by
    intro s n tr hs hok
    rw [Int.natCast_succ, ← hs]
    exact hok
  obtain ⟨s, hs, hok⟩ := h.getElem (P := fun s n => s.seq = (n : Int)) (n := 0) rfl hcount i hi
  rw [hok, hs, Nat.zero_add]

/-- Numbers go up. -/
theorem seq_pairwise_of_numbers (h : Log.Follows Standing.next Standing.Numbers .initial log) :
    log.Pairwise fun tr tr' => tr.seq < tr'.seq := by
  refine List.pairwise_iff_getElem.mpr fun i j hi hj hlt => ?_
  rw [seq_getElem_of_numbers h i hi, seq_getElem_of_numbers h j hj]
  omega

theorem Chained.seq_getElem (h : Chained cooldown log) (i : Nat) (hi : i < log.length) :
    log[i].seq = i + 1 :=
  seq_getElem_of_numbers (h.mono fun _ _ hc => hc.numbered) i hi

/-- The first starts from normal. -/
theorem Chained.head (h : Chained cooldown log) : ∀ tr ∈ log.head?, tr.oldRegime = .normal := by
  cases log with
  | nil => exact fun _ hmem => (nomatch hmem)
  | cons tr log =>
    intro tr' hmem
    cases hmem
    exact h.1.old

/-- Each starts in the regime the one before it ended in. -/
theorem Chained.regimes (h : Chained cooldown log) :
    log.IsChain fun tr tr' => tr'.oldRegime = tr.newRegime :=
  Log.Follows.isChain h fun _ _ _ _ hc => hc.old

/-- The escalations of a log, each no sooner than `cooldown` after the one before. -/
theorem spaced_filter {s : Standing}
    (h : Log.Follows Standing.next (Standing.Continues cooldown) s log) :
    (∀ tr ∈ (log.filter (·.isEscalation)).head?, ∀ last ∈ s.lastEscalation, cooldown ≤ tr.ts - last) ∧
      (log.filter (·.isEscalation)).IsChain fun tr tr' => cooldown ≤ tr'.ts - tr.ts := by
  induction log generalizing s with
  | nil => exact ⟨fun _ hmem => (nomatch hmem), .nil⟩
  | cons tr log ih =>
    obtain ⟨hhead, hchain⟩ := ih h.2
    by_cases hstressed : tr.newRegime = .stressed
    · have hesc : tr.isEscalation = true := decide_eq_true hstressed
      rw [List.filter_cons_of_pos (by exact hesc)]
      refine ⟨fun tr' hmem => ?_, List.isChain_cons.mpr ⟨fun tr' hmem => ?_, hchain⟩⟩
      · cases hmem
        exact h.1.spaced hstressed
      · refine hhead tr' hmem tr.ts ?_
        rw [Standing.next, if_pos hstressed]
        rfl
    · have hesc : ¬ tr.isEscalation = true := fun he => hstressed (of_decide_eq_true he)
      rw [List.filter_cons_of_neg (by exact hesc)]
      refine ⟨fun tr' hmem last hlast => hhead tr' hmem last ?_, hchain⟩
      rw [Standing.next, if_neg hstressed]
      exact hlast

/-- **Any two escalations** are at least `cooldown` apart. -/
theorem Chained.spaced (h : Chained cooldown log) :
    (log.filter (·.isEscalation)).Pairwise fun tr tr' => cooldown ≤ |tr'.ts - tr.ts| := by
  rcases Int.lt_or_le cooldown 0 with hneg | hpos
  · refine List.pairwise_of_forall fun tr tr' => ?_
    have habs := abs_nonneg (tr'.ts - tr.ts)
    omega
  · have hchain := (spaced_filter h).2
    have htrans : IsTrans (RegimeTransition K) fun tr tr' => cooldown ≤ tr'.ts - tr.ts :=
      ⟨fun a b c hab hbc => by omega⟩
    refine (List.isChain_iff_pairwise.mp hchain).imp fun hle => ?_
    exact le_trans hle (le_abs_self _)

end FxTracker.Alerts
