import FxTracker.Alerts.Hysteresis
import Mathlib.Data.List.Chain
import Mathlib.Data.List.Induction

/-!
# The commit rule

What the trigger commits, said over the history of its updates and without its candidate fields.
An update commits on evidence exactly when the maximal run of consecutive updates that ends at it,
all evaluated, all past the threshold of the current regime, all after the last transition and no
two neighbours further apart than `sample_timeout`, is long enough; and an escalation must come
`cooldown` after the last one.

* `tracks_trace` — the candidate is the maximal run at the end of the history
* `commits_iff_commitRule` — the rule, for every configuration, start and sequence of updates
-/

namespace FxTracker.Alerts

namespace SchmittTrigger

variable {K : Type*} [LE K] [DecidableLE K]

/-! ## Histories -/

/-- One update. The caller may have marked the trigger thawed just before it. -/
structure Sample (K : Type*) where
  z : Option K
  sigma : K
  ts : Int
  armed : Bool
  gateReason : String := ""
  thaw : Bool := false

def feed (t : SchmittTrigger K) (s : Sample K) : SchmittTrigger K × Option (RegimeTransition K) :=
  (if s.thaw then t.markThawed else t).update s.z s.sigma s.ts s.armed s.gateReason

/-- A fresh trigger, or one restored from a snapshot. -/
def start (symbol : String) (config : TriggerConfig K) : Option TriggerSnapshot → SchmittTrigger K
  | none => { symbol, config }
  | some state => restore symbol state config

/-- The state after a sequence of updates. -/
def after (t : SchmittTrigger K) (xs : List (Sample K)) : SchmittTrigger K :=
  xs.foldl (fun t s => (t.feed s).1) t

variable (K) in
/-- The updates of a run with what each returned, oldest first. -/
abbrev Trace := List (Sample K × Option (RegimeTransition K))

/-- What a sequence of updates returned. -/
def trace (t : SchmittTrigger K) : List (Sample K) → Trace K
  | [] => []
  | s :: xs => (s, (t.feed s).2) :: trace (t.feed s).1 xs

theorem after_concat (t : SchmittTrigger K) (xs : List (Sample K)) (x : Sample K) :
    t.after (xs ++ [x]) = ((t.after xs).feed x).1 := by
  rw [after, List.foldl_append]; rfl

theorem trace_concat (t : SchmittTrigger K) (xs : List (Sample K)) (x : Sample K) :
    t.trace (xs ++ [x]) = t.trace xs ++ [(x, ((t.after xs).feed x).2)] := by
  induction xs generalizing t with
  | nil => rfl
  | cons y ys ih => rw [List.cons_append, trace, ih, trace, List.cons_append]; rfl

/-- The transitions of a history. -/
def transitions (hist : Trace K) : List (RegimeTransition K) := hist.filterMap Prod.snd

/-- The regime a history that began in `t` ends in. -/
def regimeAfter (t : SchmittTrigger K) (hist : Trace K) : Regime :=
  ((transitions hist).getLast?.map (·.newRegime)).getD t.regime

/-- When a history that began in `t` last escalated, as far as `t` or the history knows. -/
def lastEscalationAfter (t : SchmittTrigger K) (hist : Trace K) : Option Int :=
  (((transitions hist).filter (·.isEscalation)).getLast?.map (·.ts)).or t.lastEscalation

/-! ## The rule -/

section Rule

variable (config : TriggerConfig K) (r : Regime)

/-- Evaluated, and past the threshold that applies in `r`. -/
def OtherSide (s : Sample K) : Prop := s.armed = true ∧ ∃ z ∈ s.z, Past config r z

/-- Consecutive updates, all on the other side, no gap between neighbours above
`sample_timeout`. -/
structure IsRun (run : List (Sample K)) : Prop where
  otherSide : ∀ s ∈ run, OtherSide config r s
  gaps : run.IsChain fun a b => b.ts - a.ts ≤ config.sampleTimeout

/-- A run at the end of the history, after the last transition. -/
def Trailing (hist : Trace K) (run : List (Sample K)) : Prop :=
  ∃ later, later <:+ hist ∧ (∀ p ∈ later, p.2 = none) ∧ run = later.map Prod.fst ∧
    IsRun config r run

/-- A run that ends at the update `x`, which follows the history. -/
def RunEndingAt (hist : Trace K) (x : Sample K) (run : List (Sample K)) : Prop :=
  ∃ later, later <:+ hist ∧ (∀ p ∈ later, p.2 = none) ∧ run = later.map Prod.fst ++ [x] ∧
    IsRun config r run

/-- A longest list with a property. -/
def Longest (P : List (Sample K) → Prop) (run : List (Sample K)) : Prop :=
  P run ∧ ∀ run', P run' → run'.length ≤ run.length

end Rule

/-- The update `x`, fed after `hist` to a trigger that began as `t`, is to be committed. -/
def CommitRule (t : SchmittTrigger K) (hist : Trace K) (x : Sample K) : Prop :=
  ∃ run, Longest (RunEndingAt t.config (t.regimeAfter hist) hist x) run ∧
    t.config.minConfirmSamples ≤ run.length ∧
    (∃ first ∈ run.head?, t.config.confirmFor ≤ x.ts - first.ts) ∧
    (t.regimeAfter hist = .normal →
      ∀ last ∈ t.lastEscalationAfter hist, t.config.cooldown ≤ x.ts - last)

/-! ## Runs -/

section Runs

variable {config : TriggerConfig K} {r : Regime} {hist : Trace K} {x : Sample K}
  {run : List (Sample K)}

theorem isRun_nil : IsRun config r [] where
  otherSide := fun _ h => by cases h
  gaps := List.IsChain.nil

theorem isRun_concat_iff :
    IsRun config r (run ++ [x]) ↔ IsRun config r run ∧ OtherSide config r x ∧
      ∀ last ∈ run.getLast?, x.ts - last.ts ≤ config.sampleTimeout := by
  constructor
  · rintro ⟨hside, hgaps⟩
    obtain ⟨hl, -, hj⟩ := List.isChain_append.mp hgaps
    refine ⟨⟨fun s hs => hside s (List.mem_append_left _ hs), hl⟩, ?_, ?_⟩
    · exact hside x (List.mem_append_right _ (List.mem_singleton_self x))
    · exact fun last hlast => hj last hlast x rfl
  · rintro ⟨⟨hside, hgaps⟩, hx, hj⟩
    refine ⟨fun s hs => ?_, List.isChain_append.mpr ⟨hgaps, List.isChain_singleton x, ?_⟩⟩
    · rcases List.mem_append.mp hs with hs | hs
      · exact hside s hs
      · rw [List.mem_singleton.mp hs]; exact hx
    · intro last hlast y hy
      rw [List.head?_cons, Option.mem_some_iff] at hy
      exact hy ▸ hj last hlast

/-- Every nonempty suffix ends where the list ends. -/
theorem getLast?_of_suffix {α : Type*} {l₁ l₂ : List α} (h : l₁ <:+ l₂) (hne : l₁ ≠ []) :
    l₁.getLast? = l₂.getLast? := by
  obtain ⟨l, rfl⟩ := h
  rw [List.getLast?_append_of_ne_nil _ hne]

/-- A run that ends at an update which is held, in the band, or commits, is empty afterwards. -/
theorem longest_trailing_nil {out : Option (RegimeTransition K)}
    (h : out = none → ¬ OtherSide config r x) :
    Longest (Trailing config r (hist ++ [(x, out)])) [] := by
  refine ⟨⟨[], List.nil_suffix, fun _ hp => (nomatch hp), rfl, isRun_nil⟩, ?_⟩
  rintro run ⟨later, hsuf, hnone, rfl, hrun⟩
  rcases List.suffix_concat_iff.mp hsuf with rfl | ⟨later, rfl, -⟩
  · exact Nat.le_refl _
  · have hout : out = none := hnone (x, out) (by simp)
    rw [List.map_append] at hrun
    exact absurd (isRun_concat_iff.mp hrun).2.1 (h hout)

/-- A run that ends at an update which commits nothing trails the longer history. -/
theorem longest_trailing_of_ending (h : Longest (RunEndingAt config r hist x) run) :
    Longest (Trailing config r (hist ++ [(x, none)])) run := by
  obtain ⟨⟨later, hsuf, hnone, rfl, hrun⟩, hmax⟩ := h
  refine ⟨⟨later ++ [(x, none)], ?_, ?_, by rw [List.map_append]; rfl, hrun⟩, ?_⟩
  · exact List.suffix_concat_iff.mpr (Or.inr ⟨later, rfl, hsuf⟩)
  · intro p hp
    rcases List.mem_append.mp hp with hp | hp
    · exact hnone p hp
    · rw [List.mem_singleton.mp hp]
  · rintro run' ⟨later', hsuf', hnone', rfl, hrun'⟩
    rcases List.suffix_concat_iff.mp hsuf' with rfl | ⟨later', rfl, hshort⟩
    · exact Nat.zero_le _
    · rw [List.map_append] at hrun' ⊢
      exact hmax _ ⟨later', hshort, fun p hp => hnone' p (List.mem_append_left _ hp), rfl, hrun'⟩

/-- The run that `x` continues: the trailing one, unless the gap before `x` breaks it. -/
def joined (config : TriggerConfig K) (run : List (Sample K)) (x : Sample K) : List (Sample K) :=
  if run.getLast?.any fun last => config.sampleTimeout < x.ts - last.ts then [] else run

/-- **The run that ends at `x`** is the trailing run joined by `x`. -/
theorem longest_ending (h : Longest (Trailing config r hist) run) (hx : OtherSide config r x) :
    Longest (RunEndingAt config r hist x) (joined config run x ++ [x]) := by
  obtain ⟨⟨later, hsuf, hnone, rfl, hrun⟩, hmax⟩ := h
  unfold joined
  split
  · next hgap =>
    refine ⟨⟨[], List.nil_suffix, fun _ hp => (nomatch hp), rfl, ?_⟩, ?_⟩
    · exact isRun_concat_iff.mpr ⟨isRun_nil, hx, fun _ hl => (nomatch hl)⟩
    · rintro run' ⟨later', hsuf', -, rfl, hrun'⟩
      -- whatever run is tried, its update before `x` is the one too far back
      rcases eq_or_ne later' [] with rfl | hne'
      · exact Nat.le_refl _
      · obtain ⟨last, hlast, hfar⟩ := (Option.any_eq_true _ _).mp hgap
        have hne : later ≠ [] := by rintro rfl; cases hlast
        have hsame : (later'.map Prod.fst).getLast? = (later.map Prod.fst).getLast? := by
          rw [List.getLast?_map, List.getLast?_map, getLast?_of_suffix hsuf' hne',
            getLast?_of_suffix hsuf hne]
        have hnear := (isRun_concat_iff.mp hrun').2.2 last (hsame.trans hlast)
        have hfar := of_decide_eq_true hfar
        omega
  · next hgap =>
    have hnear : ∀ last ∈ (later.map Prod.fst).getLast?, x.ts - last.ts ≤ config.sampleTimeout := by
      intro last hlast
      rw [hlast, Option.any_some, decide_eq_true_iff] at hgap
      omega
    refine ⟨⟨later, hsuf, hnone, rfl, isRun_concat_iff.mpr ⟨hrun, hx, hnear⟩⟩, ?_⟩
    rintro run' ⟨later', hsuf', hnone', rfl, hrun'⟩
    have hlen := hmax _ ⟨later', hsuf', hnone', rfl, (isRun_concat_iff.mp hrun').1⟩
    rw [List.length_append, List.length_append]
    omega

end Runs

/-! ## The candidate is the trailing run -/

/-- The candidate fields, by the run they stand for. -/
def Confirming (t : SchmittTrigger K) (run : List (Sample K)) : Prop :=
  (run = [] ∧ t.candidate = none) ∨
    ∃ first ∈ run.head?, ∃ last ∈ run.getLast?,
      t.candidate = some { regime := t.regime.flip, since := first.ts, samples := run.length } ∧
        t.lastSampleTs = some last.ts

/-- What a trigger that began as `t₀` remembers of its history. -/
structure Tracks (t₀ : SchmittTrigger K) (hist : Trace K) (t : SchmittTrigger K) : Prop where
  config : t.config = t₀.config
  regime : t.regime = t₀.regimeAfter hist
  lastEscalation : t.lastEscalation = t₀.lastEscalationAfter hist
  candidate : ∃ run, Longest (Trailing t₀.config (t₀.regimeAfter hist) hist) run ∧
    t.Confirming run

variable {t₀ t : SchmittTrigger K} {hist : Trace K} {x : Sample K} {run : List (Sample K)}

/-- The candidate once an update past the threshold is counted: the run that ends at it. -/
theorem propose_observe (h : t.Confirming run) (x : Sample K) :
    ∃ first ∈ (joined t.config run x ++ [x]).head?,
      (t.observe x.ts).propose t.regime.flip x.ts =
        { regime := t.regime.flip
          since := first.ts
          samples := (joined t.config run x ++ [x]).length } := by
  rcases h with ⟨rfl, hc⟩ | ⟨first, hfirst, last, hlast, hc, hl⟩
  · refine ⟨x, rfl, ?_⟩
    have hidle : (t.observe x.ts).candidate = none := by
      rw [observe, hc, ite_self]
    rw [propose, hidle]
    rfl
  · unfold joined
    rw [hlast, Option.any_some]
    split
    · next hfar =>
      refine ⟨x, rfl, ?_⟩
      have hidle : (t.observe x.ts).candidate = none := by
        rw [observe, hl, Option.any_some, if_pos hfar]
      rw [propose, hidle]
      rfl
    · next hnear =>
      have hkeep : (t.observe x.ts).candidate = t.candidate := by
        rw [observe, hl, Option.any_some, if_neg hnear]
      have hhead : (run ++ [x]).head? = some first := by
        rw [List.head?_append, hfirst, Option.some_or]
      refine ⟨first, hhead, ?_⟩
      rw [propose, hkeep, hc]
      simp

theorem regimeAfter_concat (t₀ : SchmittTrigger K) (hist : Trace K) (x : Sample K)
    (out : Option (RegimeTransition K)) :
    t₀.regimeAfter (hist ++ [(x, out)]) = (out.map (·.newRegime)).getD (t₀.regimeAfter hist) := by
  unfold regimeAfter transitions
  rw [List.filterMap_append]
  cases out <;> simp

theorem lastEscalationAfter_concat_none (t₀ : SchmittTrigger K) (hist : Trace K) (x : Sample K) :
    t₀.lastEscalationAfter (hist ++ [(x, none)]) = t₀.lastEscalationAfter hist := by
  unfold lastEscalationAfter transitions
  rw [List.filterMap_append, List.filterMap_cons_none rfl, List.filterMap_nil, List.append_nil]

theorem lastEscalationAfter_concat_some (t₀ : SchmittTrigger K) (hist : Trace K) (x : Sample K)
    (tr : RegimeTransition K) :
    t₀.lastEscalationAfter (hist ++ [(x, some tr)]) =
      if tr.newRegime = .stressed then some tr.ts else t₀.lastEscalationAfter hist := by
  unfold lastEscalationAfter transitions
  rw [List.filterMap_append, List.filter_append]
  by_cases h : tr.newRegime = .stressed
  · simp [RegimeTransition.isEscalation, h]
  · simp [RegimeTransition.isEscalation, h]

/-- After a commit nothing is being confirmed. -/
theorem Tracks.commit (h : Tracks t₀ hist t) {tr : RegimeTransition K} {t' : SchmittTrigger K}
    (hc : Commits t x.ts tr t') : Tracks t₀ (hist ++ [(x, some tr)]) t' where
  config := hc.fixed.2.trans h.config
  regime := by
    rw [regimeAfter_concat]
    exact congrArg TriggerSnapshot.regime hc.snapshot
  lastEscalation := by
    rw [lastEscalationAfter_concat_some, hc.time, ← h.lastEscalation]
    exact congrArg TriggerSnapshot.lastEscalation hc.snapshot
  candidate := ⟨[], longest_trailing_nil (fun hn => by cases hn), Or.inl ⟨rfl, hc.idle⟩⟩

/-- An update that commits nothing leaves the rest to the run it ends. -/
theorem Tracks.keep (h : Tracks t₀ hist t) {t' : SchmittTrigger K} (hk : Kept t t')
    (hrun : ∃ run, Longest (Trailing t₀.config (t₀.regimeAfter hist) (hist ++ [(x, none)])) run ∧
      t'.Confirming run) : Tracks t₀ (hist ++ [(x, none)]) t' where
  config := hk.fixed.2.trans h.config
  regime := by
    rw [regimeAfter_concat]
    exact (congrArg TriggerSnapshot.regime hk.snapshot).trans h.regime
  lastEscalation := by
    rw [lastEscalationAfter_concat_none, ← h.lastEscalation]
    exact congrArg TriggerSnapshot.lastEscalation hk.snapshot
  candidate := by rw [regimeAfter_concat]; exact hrun

theorem Tracks.markThawed (h : Tracks t₀ hist t) : Tracks t₀ hist t.markThawed :=
  ⟨h.config, h.regime, h.lastEscalation, h.candidate⟩

theorem tracks_nil (t₀ : SchmittTrigger K) (h : t₀.candidate = none) : Tracks t₀ [] t₀ where
  config := rfl
  regime := rfl
  lastEscalation := rfl
  candidate := by
    refine ⟨[], ⟨⟨[], List.nil_suffix, fun _ hp => (nomatch hp), rfl, isRun_nil⟩, ?_⟩,
      Or.inl ⟨rfl, h⟩⟩
    rintro run ⟨later, hsuf, -, rfl, -⟩
    rw [List.suffix_nil.mp hsuf]
    exact Nat.le_refl _

/-! ## One update -/

/-- An update that is held or in the band drops the candidate; it can only commit the loss of
observation. -/
theorem update_of_not_otherSide (h : ¬ OtherSide t.config t.regime x) :
    ((t.update x.z x.sigma x.ts x.armed x.gateReason).2 = none ∧
      Kept t (t.update x.z x.sigma x.ts x.armed x.gateReason).1 ∧
      (t.update x.z x.sigma x.ts x.armed x.gateReason).1.candidate = none) ∨
    ∃ tr, (t.update x.z x.sigma x.ts x.armed x.gateReason).2 = some tr ∧
      tr.cause = .observationLost ∧
      Commits t x.ts tr (t.update x.z x.sigma x.ts x.armed x.gateReason).1 := by
  unfold update
  split
  · next z ha hz =>
    have hpast : ¬ Past t.config t.regime z := fun hp => h ⟨ha, z, hz, hp⟩
    have hback : (t.observe x.ts).targetRegime z = (t.observe x.ts).regime :=
      (targetRegime_eq_regime_iff (t.observe x.ts) z).mpr hpast
    simp only [if_pos hback]
    exact Or.inl ⟨trivial, ⟨rfl, rfl, rfl⟩, rfl⟩
  · rcases t.hold_step x.ts _ with ⟨hnone, heq⟩ | ⟨tr, hsome, hcause, hc⟩
    · exact Or.inl ⟨hnone, by rw [heq]; exact ⟨rfl, rfl, rfl⟩, by rw [heq]; rfl⟩
    · exact Or.inr ⟨tr, hsome, hcause, hc⟩

theorem update_of_otherSide (h : OtherSide t.config t.regime x) :
    ∃ z, t.update x.z x.sigma x.ts x.armed x.gateReason =
      (t.observe x.ts).accumulate t.regime.flip z x.sigma x.ts := by
  obtain ⟨ha, z, hz, hp⟩ := h
  rw [Option.mem_def] at hz
  have htarget : (t.observe x.ts).targetRegime z = t.regime.flip :=
    targetRegime_of_past (t := t.observe x.ts) hp
  refine ⟨z, ?_⟩
  rw [ha, hz]
  simp only [update, htarget]
  exact if_neg (Regime.flip_ne _)

/-- **One update keeps the invariant.** -/
theorem Tracks.update (h : Tracks t₀ hist t) (x : Sample K) :
    Tracks t₀ (hist ++ [(x, (t.update x.z x.sigma x.ts x.armed x.gateReason).2)])
      (t.update x.z x.sigma x.ts x.armed x.gateReason).1 := by
  by_cases hx : OtherSide t.config t.regime x
  · obtain ⟨run, hrun, hconf⟩ := h.candidate
    obtain ⟨first, hfirst, hpropose⟩ := propose_observe hconf x
    obtain ⟨z, heq⟩ := update_of_otherSide hx
    rw [heq]
    rcases accumulate_step (t.observe x.ts) t.regime.flip z x.sigma x.ts rfl with
      ⟨hnone, hstate⟩ | ⟨tr, hsome, -, hc⟩
    · rw [hnone, hstate]
      rw [h.config, h.regime] at hx
      refine h.keep ⟨rfl, rfl, rfl⟩ ⟨_, longest_trailing_of_ending (longest_ending hrun hx), ?_⟩
      rw [h.config] at hfirst hpropose
      exact Or.inr ⟨first, hfirst, x, List.getLast?_concat, congrArg some hpropose, rfl⟩
    · rw [hsome]
      exact h.commit ⟨hc.symbol, hc.time, hc.seq, hc.old, hc.new, hc.spaced, hc.snapshot,
        hc.fixed, hc.idle⟩
  · rcases update_of_not_otherSide hx with ⟨hnone, hkept, hidle⟩ | ⟨tr, hsome, -, hc⟩
    · rw [hnone]
      rw [h.config, h.regime] at hx
      exact h.keep hkept ⟨[], longest_trailing_nil fun _ => hx, Or.inl ⟨rfl, hidle⟩⟩
    · rw [hsome]
      exact h.commit hc

theorem Tracks.feed (h : Tracks t₀ hist t) (x : Sample K) :
    Tracks t₀ (hist ++ [(x, (t.feed x).2)]) (t.feed x).1 := by
  unfold SchmittTrigger.feed
  split
  · exact h.markThawed.update x
  · exact h.update x

/-- **The candidate is the maximal run at the end of the history**, whatever the history. -/
theorem tracks_trace (t₀ : SchmittTrigger K) (h : t₀.candidate = none) (xs : List (Sample K)) :
    Tracks t₀ (t₀.trace xs) (t₀.after xs) := by
  induction xs using List.reverseRecOn with
  | nil => exact tracks_nil t₀ h
  | append_singleton xs x ih =>
    rw [trace_concat, after_concat]
    exact ih.feed x

/-! ## The rule holds -/

/-- There is one maximal run. -/
theorem longest_ending_unique {config : TriggerConfig K} {r : Regime} {run₁ run₂ : List (Sample K)}
    (h₁ : Longest (RunEndingAt config r hist x) run₁)
    (h₂ : Longest (RunEndingAt config r hist x) run₂) : run₁ = run₂ := by
  have hlen : run₁.length = run₂.length := Nat.le_antisymm (h₂.2 _ h₁.1) (h₁.2 _ h₂.1)
  obtain ⟨later₁, hsuf₁, -, rfl, -⟩ := h₁.1
  obtain ⟨later₂, hsuf₂, -, rfl, -⟩ := h₂.1
  simp only [List.length_append, List.length_map, Nat.add_right_cancel_iff] at hlen
  have hsub := List.suffix_of_suffix_length_le hsuf₁ hsuf₂ (Nat.le_of_eq hlen)
  rw [hsub.eq_of_length hlen]

/-- What an update past the threshold needs to commit, by the run that ends at it. -/
theorem commitRule_iff (h : Tracks t₀ hist t) (hx : OtherSide t.config t.regime x)
    (hrun : Longest (Trailing t₀.config (t₀.regimeAfter hist) hist) run) {first : Sample K}
    (hfirst : first ∈ (joined t.config run x ++ [x]).head?) :
    CommitRule t₀ hist x ↔
      t.config.minConfirmSamples ≤ (joined t.config run x ++ [x]).length ∧
        t.config.confirmFor ≤ x.ts - first.ts ∧
        t.rateLimited t.regime.flip x.ts = false := by
  have hflip : t.regime.flip = .stressed ↔ t₀.regimeAfter hist = .normal := by
    rw [← h.regime]
    cases t.regime <;> decide
  rw [rateLimited_eq_false_iff, hflip, h.lastEscalation]
  rw [h.config] at hfirst ⊢
  rw [h.config, h.regime] at hx
  have hlong := longest_ending hrun hx
  constructor
  · rintro ⟨run', hlong', hmin, ⟨first', hfirst', hfor⟩, hcool⟩
    obtain rfl := longest_ending_unique hlong' hlong
    obtain rfl := Option.mem_unique hfirst hfirst'
    exact ⟨hmin, hfor, hcool⟩
  · rintro ⟨hmin, hfor, hcool⟩
    exact ⟨_, hlong, hmin, ⟨first, hfirst, hfor⟩, hcool⟩

theorem Tracks.update_commits_iff (h : Tracks t₀ hist t) (x : Sample K) :
    (∃ tr ∈ (t.update x.z x.sigma x.ts x.armed x.gateReason).2,
        tr.cause = .threshold ∨ tr.cause = .baselineThaw) ↔ CommitRule t₀ hist x := by
  by_cases hx : OtherSide t.config t.regime x
  · obtain ⟨run, hrun, hconf⟩ := h.candidate
    obtain ⟨first, hfirst, hpropose⟩ := propose_observe hconf x
    obtain ⟨z, heq⟩ := update_of_otherSide hx
    have hnone : ((t.observe x.ts).accumulate t.regime.flip z x.sigma x.ts).2 = none ↔
        ¬ CommitRule t₀ hist x := by
      rw [commitRule_iff h hx hrun hfirst, accumulate_eq_none_iff, hpropose]
      exact Iff.rfl
    rw [heq]
    rcases accumulate_step (t.observe x.ts) t.regime.flip z x.sigma x.ts rfl with
      ⟨hout, -⟩ | ⟨tr, hout, hcause, -⟩
    · refine ⟨?_, fun hrule => absurd hrule (hnone.mp hout)⟩
      rintro ⟨tr, htr, -⟩
      rw [hout] at htr
      cases htr
    · constructor
      · intro _
        by_contra hrule
        rw [hnone.mpr hrule] at hout
        cases hout
      · refine fun _ => ⟨tr, hout, ?_⟩
        cases hk : tr.cause with
        | threshold => exact Or.inl rfl
        | baselineThaw => exact Or.inr rfl
        | observationLost => exact absurd hk hcause
  · constructor
    · rintro ⟨tr, htr, hcause⟩
      rcases update_of_not_otherSide hx with ⟨hout, -⟩ | ⟨tr', hout, hlost, -⟩
      · rw [hout] at htr
        cases htr
      · rw [hout, Option.mem_some_iff] at htr
        subst htr
        rw [hlost] at hcause
        rcases hcause with hcause | hcause <;> cases hcause
    · rintro ⟨run, ⟨⟨later, -, -, rfl, hrun⟩, -⟩, -⟩
      rw [h.config, h.regime] at hx
      exact absurd (isRun_concat_iff.mp hrun).2.1 hx

/--
**The commit rule, exact in both directions.**

For every accepted configuration, every start that is fresh or restored from a snapshot, and every
sequence of updates `xs` followed by an update `x`: `x` returns a transition on evidence, with cause
`threshold` or `baseline_thaw`, if and only if the rule over the history says so.
-/
theorem commits_iff_commitRule (symbol : String) (config : TriggerConfig K)
    (state : Option TriggerSnapshot) (xs : List (Sample K)) (x : Sample K) :
    (∃ tr ∈ (((start symbol config state).after xs).feed x).2,
        tr.cause = .threshold ∨ tr.cause = .baselineThaw) ↔
      CommitRule (start symbol config state) ((start symbol config state).trace xs) x := by
  have hidle : (start symbol config state).candidate = none := by cases state <;> rfl
  have h := tracks_trace (start symbol config state) hidle xs
  unfold feed
  split
  · exact h.markThawed.update_commits_iff x
  · exact h.update_commits_iff x

end SchmittTrigger

end FxTracker.Alerts
