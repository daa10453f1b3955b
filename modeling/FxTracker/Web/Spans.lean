import FxTracker.Alerts.Hysteresis
import FxTracker.Lib.Ascending
import FxTracker.Lib.Timeline
import Mathlib.Data.List.Find
import Mathlib.Data.List.Sort
import Mathlib.Data.Rat.Floor

/-!
# The spans between transitions

`apps/web/src/lib/regime.ts`: `spans` and `stressed`, and the shading of `PriceChart`.

* `spans_true_iff` — every instant of the window has its own regime exactly where a transition lies inside
  the window, or an even number of them at or after its end
-/

namespace FxTracker.Web.RegimeSpans

open Alerts (Regime)
open Timeline (Change Tiles valueAt settled)

/-- What of an alert the spans read. `ts` is in milliseconds, and neither regime is "unknown". -/
structure Transition where
  ts : Int
  oldRegime : Regime
  newRegime : Regime
  deriving DecidableEq, Repr

/-- `from` and `to` are `start` and `till` here. A regime that is `none` is "unknown". -/
structure Span where
  start : ℚ
  till : ℚ
  regime : Option Regime
  deriving DecidableEq, Repr

/-- `BAR_S`. -/
def barS : Int := 60

def secs (ts : Int) : Int := ts / 1000

/-- `{ at, old, next }`. -/
def mark (a : Transition) : Change ℚ (Option Regime) :=
  ⟨secs a.ts, some a.oldRegime, some a.newRegime⟩

/-- The loop over what is inside, with its cursor. The span after the last of them has its regime. -/
def cut (till cursor : ℚ) (next : Option Regime) : List (Change ℚ (Option Regime)) → List Span
  | [] => [⟨cursor, till, next⟩]
  | a :: rest => ⟨cursor, a.time, a.old⟩ :: cut till a.time a.new rest

def inside (alerts : List Transition) (start till : ℚ) : List (Change ℚ (Option Regime)) :=
  ((alerts.map mark).filter fun a => a.time > start ∧ a.time < till).insertionSort fun a b => a.time ≤ b.time

def spans (alerts : List Transition) (start till : ℚ) (current : Option Regime) : List Span :=
  if till ≤ start then []
  else
    match inside alerts start till with
    | [] => [⟨start, till, current⟩]
    | a :: rest => ⟨start, a.time, a.old⟩ :: cut till a.time a.new rest

def stressed (alerts : List Transition) (start till : ℚ) (current : Option Regime) : List Span :=
  (spans alerts start till current).filter fun s => s.regime = some .stressed

/-- The shading of `PriceChart`, over the opening times of its bars: the window is through the end of the
last bar, which is taken for a minute. -/
def shade (bars : List Int) (alerts : List Transition) (regime : Option Regime) : List Bool :=
  match bars.head?, bars.getLast? with
  | some first, some last =>
    let hot := stressed alerts first (last + barS : Int) regime
    bars.map fun t : Int => hot.any fun s => s.start ≤ (t : ℚ) ∧ (t : ℚ) < s.till
  | _, _ => []

/-! ## What was committed -/

/-- The regime committed at an instant: what the latest transition up to it went to, and what the earliest one
went from where all are later. The transitions are newest first. -/
def committedAt (alerts : List Transition) (current : Option Regime) (t : ℚ) : Option Regime :=
  match alerts.find? fun a => (a.ts : ℚ) / 1000 ≤ t with
  | some a => some a.newRegime
  | none => (alerts.getLast?.map fun a => some a.oldRegime).getD current

/-- Transitions as the server commits them, newest first, and the regime that is committed now. -/
structure Committed (alerts : List Transition) (current : Option Regime) : Prop where
  whole : ∀ a ∈ alerts, 1000 ∣ a.ts
  newest : alerts.Pairwise fun a b => b.ts < a.ts
  alternates : ∀ a ∈ alerts, a.oldRegime ≠ a.newRegime
  joined : alerts.IsChain fun a b => b.newRegime = a.oldRegime
  now : ∀ a ∈ alerts.head?, current = some a.newRegime

/-- The transitions in their order. -/
def marks (alerts : List Transition) : List (Change ℚ (Option Regime)) := (alerts.map mark).reverse

variable {alerts : List Transition} {current : Option Regime} {start till : ℚ}

theorem spans_of_lt (h : start < till) :
    spans alerts start till current = cut till start current (inside alerts start till) := by
  rw [spans, if_neg (not_le.mpr h)]
  cases inside alerts start till with
  | nil => rfl
  | cons a rest => rfl

namespace Committed

variable (h : Committed alerts current)
include h

theorem time_mark {a : Transition} (ha : a ∈ alerts) : (mark a).time = (a.ts : ℚ) / 1000 := by
  obtain ⟨k, hk⟩ := h.whole a ha
  have hsecs : secs a.ts = k := by rw [secs, hk, Int.mul_ediv_cancel_left _ (by decide)]
  show ((secs a.ts : Int) : ℚ) = _
  rw [hsecs, hk]
  push_cast
  ring

theorem ascending : (marks alerts).Pairwise fun a b => a.time < b.time := by
  rw [marks, List.pairwise_reverse, List.pairwise_map]
  refine (List.Pairwise.and_mem.mp h.newest).imp ?_
  intro a b ⟨ha, hb, hlt⟩
  rw [h.time_mark ha, h.time_mark hb]
  have hcast : (b.ts : ℚ) < a.ts := Int.cast_lt.mpr hlt
  linarith

theorem linked : Timeline.Linked (marks alerts) := by
  rw [Timeline.Linked, marks, List.isChain_reverse, List.isChain_map]
  exact h.joined.imp fun a b hab => congrArg some hab

theorem changes : ∀ c ∈ marks alerts, c.old ≠ c.new := by
  intro c hc
  obtain ⟨a, ha, rfl⟩ := List.mem_map.mp (List.mem_reverse.mp hc)
  exact fun heq => h.alternates a ha (Option.some.inj heq)

omit h in
theorem regimes : ∀ c ∈ marks alerts,
    c.old ∈ Set.range (some : Regime → _) ∧ c.new ∈ Set.range (some : Regime → _) := by
  intro c hc
  obtain ⟨a, ha, rfl⟩ := List.mem_map.mp (List.mem_reverse.mp hc)
  exact ⟨⟨_, rfl⟩, ⟨_, rfl⟩⟩

theorem settled_marks : settled (marks alerts) current = current := by
  cases alerts with
  | nil => rfl
  | cons a rest =>
    rw [settled, marks, List.map_cons, List.reverse_cons, List.foldl_append]
    exact (h.now a rfl).symm

/-- What was committed is the value of the timeline. -/
theorem committedAt_eq (t : ℚ) : committedAt alerts current t = valueAt t (marks alerts) current := by
  rw [Timeline.valueAt_eq_find h.linked h.ascending, marks, List.reverse_reverse, List.find?_map, List.head?_reverse,
    List.getLast?_map, committedAt]
  have hfind : alerts.find? ((fun c => decide (c.time ≤ t)) ∘ mark) = alerts.find? fun a => (a.ts : ℚ) / 1000 ≤ t :=
    List.find?_congr fun a ha => by simp [h.time_mark ha]
  rw [hfind]
  cases alerts.find? fun a => (a.ts : ℚ) / 1000 ≤ t with
  | some a => rfl
  | none => cases alerts.getLast? <;> rfl

/-- The sort puts what is inside back into its order. -/
theorem inside_eq : inside alerts start till = (marks alerts).filter fun a => start < a.time ∧ a.time < till := by
  have hascending := h.ascending.filter fun a => start < a.time ∧ a.time < till
  have hperm : (inside alerts start till).Perm ((marks alerts).filter fun a => start < a.time ∧ a.time < till) :=
    (List.perm_insertionSort _ _).trans ((List.reverse_perm _).symm.filter _)
  refine hperm.eq_of_pairwise ?_
    (List.pairwise_insertionSort (fun a b : Change ℚ (Option Regime) => a.time ≤ b.time) _)
    (hascending.imp fun hlt => hlt.le)
  intro a b ha hb hle hle'
  exact eq_of_key_eq h.ascending (List.mem_of_mem_filter (hperm.mem_iff.mp ha)) (List.mem_of_mem_filter hb)
    (le_antisymm hle hle')

/-- Before the window, inside it, and from its end on. -/
theorem marks_eq (hlt : start < till) :
    marks alerts = (marks alerts).filter (fun a => a.time ≤ start)
      ++ (inside alerts start till ++ (marks alerts).filter fun a => till ≤ a.time) := by
  have hbefore := filter_append_filter_not (p := fun a => decide (a.time ≤ start))
    (h.ascending.imp fun hab hb => by
      simp only [decide_eq_true_eq] at hb ⊢
      exact hab.le.trans hb)
  have hafter := filter_append_filter_not (p := fun a => decide (a.time < till))
    ((h.ascending.filter fun a => !decide (a.time ≤ start)).imp fun hab hb => by
      simp only [decide_eq_true_eq] at hb ⊢
      exact hab.trans hb)
  have hmid : ((marks alerts).filter fun a => !decide (a.time ≤ start)).filter (fun a => a.time < till)
      = inside alerts start till := by
    rw [h.inside_eq, List.filter_filter]
    refine List.filter_congr fun a _ => ?_
    rw [Bool.eq_iff_iff]
    simp [and_comm]
  have hlater : ((marks alerts).filter fun a => !decide (a.time ≤ start)).filter (fun a => !decide (a.time < till))
      = (marks alerts).filter fun a => till ≤ a.time := by
    rw [List.filter_filter]
    refine List.filter_congr fun a _ => ?_
    rw [Bool.eq_iff_iff]
    simpa using fun hle => hlt.trans_le hle
  rw [← hmid, ← hlater, hafter, hbefore]

end Committed

/-! ## The spans of a window -/

theorem tiles_cut {cs : List (Change ℚ (Option Regime))} {cursor : ℚ} {next : Option Regime}
    (hascending : cs.Pairwise fun a b => a.time < b.time) (hin : ∀ c ∈ cs, cursor < c.time ∧ c.time < till)
    (hlt : cursor < till) : Tiles cursor till ((cut till cursor next cs).map fun s => (s.start, s.till)) := by
  induction cs generalizing cursor next with
  | nil => exact ⟨rfl, hlt, rfl⟩
  | cons a rest ih =>
    obtain ⟨ha, htail⟩ := List.pairwise_cons.mp hascending
    have hhead := hin a List.mem_cons_self
    exact ⟨rfl, hhead.1, ih htail (fun c hc => ⟨ha c hc, (hin c (List.mem_cons_of_mem _ hc)).2⟩) hhead.2⟩

theorem regime_cut {cs : List (Change ℚ (Option Regime))} {cursor t : ℚ} {next : Option Regime}
    (hascending : cs.Pairwise fun a b => a.time < b.time) (hin : ∀ c ∈ cs, cursor < c.time ∧ c.time < till)
    (hlt : cursor < till) {s : Span} (hs : s ∈ cut till cursor next cs) (hstart : s.start ≤ t) (htill : t < s.till) :
    s.regime = valueAt t cs next := by
  induction cs generalizing cursor next with
  | nil => rw [List.mem_singleton.mp hs]; rfl
  | cons a rest ih =>
    obtain ⟨ha, htail⟩ := List.pairwise_cons.mp hascending
    have hrest : ∀ c ∈ rest, a.time < c.time ∧ c.time < till :=
      fun c hc => ⟨ha c hc, (hin c (List.mem_cons_of_mem _ hc)).2⟩
    have hend := (hin a List.mem_cons_self).2
    rw [valueAt]
    rcases List.mem_cons.mp hs with rfl | hs
    · rw [if_pos htill]
    · have hle : a.time ≤ s.start := (tiles_cut htail hrest hend).le_fst _ (List.mem_map_of_mem hs)
      rw [if_neg (not_lt.mpr (hle.trans hstart))]
      exact ih htail hrest hend hs

section Window

variable (h : Committed alerts current)
include h

theorem mem_inside {c : Change ℚ (Option Regime)} (hc : c ∈ inside alerts start till) :
    start < c.time ∧ c.time < till := by
  rw [h.inside_eq, List.mem_filter] at hc
  simpa using hc.2

theorem ascending_inside : (inside alerts start till).Pairwise fun a b => a.time < b.time := by
  rw [h.inside_eq]
  exact h.ascending.filter _

theorem exists_inside_iff :
    (∃ a ∈ alerts, start < (a.ts : ℚ) / 1000 ∧ (a.ts : ℚ) / 1000 < till) ↔ inside alerts start till ≠ [] := by
  rw [h.inside_eq, Ne, List.filter_eq_nil_iff]
  simp only [marks, List.mem_reverse, List.mem_map, forall_exists_index, and_imp, forall_apply_eq_imp_iff₂,
    decide_eq_true_eq, not_forall, Decidable.not_not]
  constructor
  · rintro ⟨a, ha, hin⟩
    exact ⟨a, ha, by rwa [h.time_mark ha]⟩
  · rintro ⟨a, ha, hin⟩
    exact ⟨a, ha, by rwa [h.time_mark ha] at hin⟩

variable (hlt : start < till)
include hlt

theorem tiles_spans : Tiles start till ((spans alerts start till current).map fun s => (s.start, s.till)) := by
  rw [spans_of_lt hlt]
  exact tiles_cut (ascending_inside h) (fun c hc => mem_inside h hc) hlt

theorem regime_spans {t : ℚ} {s : Span} (hs : s ∈ spans alerts start till current) (hstart : s.start ≤ t)
    (htill : t < s.till) : s.regime = valueAt t (inside alerts start till) current := by
  rw [spans_of_lt hlt] at hs
  exact regime_cut (ascending_inside h) (fun c hc => mem_inside h hc) hlt hs hstart htill

/-- What was committed at an instant of the window, from what is inside and what is later. -/
theorem committedAt_of_window {t : ℚ} (hstart : start ≤ t) :
    committedAt alerts current t
      = valueAt t (inside alerts start till ++ (marks alerts).filter fun a => till ≤ a.time)
          (settled ((marks alerts).filter fun a => a.time ≤ start) current) := by
  rw [h.committedAt_eq t]
  conv_lhs => rw [h.marks_eq hlt]
  refine Timeline.valueAt_append_of_le fun c hc => ?_
  have hle : c.time ≤ start := by simpa using (List.mem_filter.mp hc).2
  exact hle.trans hstart

/-- With a transition inside, the spans are right. -/
theorem committedAt_of_inside {t : ℚ} (hne : inside alerts start till ≠ []) (hstart : start ≤ t) (htill : t < till) :
    committedAt alerts current t = valueAt t (inside alerts start till) current := by
  rw [committedAt_of_window h hlt hstart]
  refine Timeline.valueAt_append_of_lt ?_ hne fun c hc => ?_
  · have hlinked := h.linked
    rw [h.marks_eq hlt] at hlinked
    exact List.IsChain.right_of_append hlinked
  · have hle : till ≤ c.time := by simpa using (List.mem_filter.mp hc).2
    exact htill.trans_le hle

/-- With none inside, the transitions after the window decide whether the current regime is the one it had. -/
theorem committedAt_eq_current_iff {t : ℚ} (hnone : inside alerts start till = []) (hstart : start ≤ t)
    (htill : t < till) :
    committedAt alerts current t = current ↔ Even (alerts.countP fun a => till ≤ (a.ts : ℚ) / 1000) := by
  have hmarks := h.marks_eq hlt
  rw [hnone, List.nil_append] at hmarks
  set earlier := (marks alerts).filter fun a => a.time ≤ start
  set later := (marks alerts).filter fun a => till ≤ a.time with hlater
  have hlength : later.length = alerts.countP fun a => till ≤ (a.ts : ℚ) / 1000 := by
    rw [hlater, ← List.countP_eq_length_filter, marks, List.countP_reverse, List.countP_map]
    refine List.countP_congr fun a ha => ?_
    simp [h.time_mark ha]
  have hsettled : settled later (settled earlier current) = current := by
    rw [← Timeline.settled_append, ← hmarks, h.settled_marks]
  have hlinked : Timeline.Linked later := by
    have hall := h.linked
    rw [hmarks] at hall
    exact List.IsChain.right_of_append hall
  have hafter : ∀ c ∈ later, t < c.time := by
    intro c hc
    have hle : till ≤ c.time := by simpa using (List.mem_filter.mp hc).2
    exact htill.trans_le hle
  rw [committedAt_of_window h hlt hstart, hnone, List.nil_append, Timeline.valueAt_of_lt hafter, ← hlength]
  have htwo : ∀ x ∈ Set.range (some : Regime → _), ∀ y ∈ Set.range (some : Regime → _),
      ∀ z ∈ Set.range (some : Regime → _), x ≠ y → y ≠ z → x = z := by
    rintro _ ⟨x, rfl⟩ _ ⟨y, rfl⟩ _ ⟨z, rfl⟩
    cases x <;> cases y <;> cases z <;> simp
  have heven := Timeline.old_eq_iff_even (v := settled earlier current) htwo hlinked
    (fun c hc => Committed.regimes c (List.mem_of_mem_filter hc)) fun c hc => h.changes c (List.mem_of_mem_filter hc)
  rwa [hsettled] at heven

theorem regime_eq_committedAt {t : ℚ}
    (hcond : (∃ a ∈ alerts, start < (a.ts : ℚ) / 1000 ∧ (a.ts : ℚ) / 1000 < till) ∨
      Even (alerts.countP fun a => till ≤ (a.ts : ℚ) / 1000))
    (hstart : start ≤ t) (htill : t < till) :
    ∀ s ∈ spans alerts start till current, s.start ≤ t → t < s.till → s.regime = committedAt alerts current t := by
  intro s hs hs₁ hs₂
  rw [regime_spans h hlt hs hs₁ hs₂]
  by_cases hnone : inside alerts start till = []
  · have heven := hcond.resolve_left fun hin => (exists_inside_iff h).mp hin hnone
    rw [hnone, (committedAt_eq_current_iff h hlt hnone hstart htill).mpr heven]
    rfl
  · exact (committedAt_of_inside h hlt hnone hstart htill).symm

/-- **Every instant of the window has its own regime exactly where a transition lies inside the window, or an
even number of transitions at or after its end.** -/
theorem spans_true_iff :
    (Tiles start till ((spans alerts start till current).map fun s => (s.start, s.till)) ∧
      ∀ t, start ≤ t → t < till → ∀ s ∈ spans alerts start till current, s.start ≤ t → t < s.till →
        s.regime = committedAt alerts current t) ↔
    (∃ a ∈ alerts, start < (a.ts : ℚ) / 1000 ∧ (a.ts : ℚ) / 1000 < till) ∨
      Even (alerts.countP fun a => till ≤ (a.ts : ℚ) / 1000) := by
  constructor
  · rintro ⟨-, htrue⟩
    by_cases hnone : inside alerts start till = []
    · right
      have hspans : spans alerts start till current = [⟨start, till, current⟩] := by
        rw [spans_of_lt hlt, hnone]
        rfl
      have hregime := htrue start le_rfl hlt ⟨start, till, current⟩ (by simp [hspans]) le_rfl hlt
      exact (committedAt_eq_current_iff h hlt hnone le_rfl hlt).mp hregime.symm
    · exact .inl ((exists_inside_iff h).mpr hnone)
  · intro hcond
    exact ⟨tiles_spans h hlt, fun t hstart htill => regime_eq_committedAt h hlt hcond hstart htill⟩

end Window

/-- An hour that was calm for a part of it. -/
theorem spans_true_in_hour :
    Tiles 0 3600 ((spans [⟨5000000, .stressed, .normal⟩, ⟨3000000, .normal, .stressed⟩] 0 3600 (some .normal)).map
        fun s => (s.start, s.till)) ∧
      ∀ t, 0 ≤ t → t < 3600 →
        ∀ s ∈ spans [⟨5000000, .stressed, .normal⟩, ⟨3000000, .normal, .stressed⟩] 0 3600 (some .normal),
          s.start ≤ t → t < s.till →
            s.regime = committedAt [⟨5000000, .stressed, .normal⟩, ⟨3000000, .normal, .stressed⟩] (some .normal) t :=
  (spans_true_iff ⟨by decide, by decide, by decide, by simp, by simp⟩ (by norm_num)).mpr
    (.inl ⟨⟨3000000, .normal, .stressed⟩, by simp, by norm_num, by norm_num⟩)

/-- **Bars of half an hour**, at 0:00 and 0:30, and a transition at 0:50: the window ends at 0:31, and with no
transition in it all of it is stressed, as the pair is now and was not before 0:50. -/
theorem half_hour_bars_all_stressed :
    Committed [⟨3000000, .normal, .stressed⟩] (some .stressed) ∧
    spans [⟨3000000, .normal, .stressed⟩] 0 1860 (some .stressed) = [⟨0, 1860, some .stressed⟩] ∧
    shade [0, 1800] [⟨3000000, .normal, .stressed⟩] (some .stressed) = [true, true] ∧
    (∀ t : ℚ, t < 1860 →
      committedAt [⟨3000000, .normal, .stressed⟩] (some .stressed) t = some .normal) ∧
    ¬ ∀ t : ℚ, 0 ≤ t → t < 1860 → ∀ s ∈ spans [⟨3000000, .normal, .stressed⟩] 0 1860 (some .stressed),
      s.start ≤ t → t < s.till → s.regime = committedAt [⟨3000000, .normal, .stressed⟩] (some .stressed) t := by
  have hspans : spans [⟨3000000, .normal, .stressed⟩] 0 1860 (some .stressed) = [⟨0, 1860, some .stressed⟩] := by
    decide +kernel
  have hcommitted : ∀ t : ℚ, t < 1860 →
      committedAt [⟨3000000, .normal, .stressed⟩] (some .stressed) t = some .normal := by
    intro t ht
    have hafter : ¬ (3000 : ℚ) ≤ t := by linarith
    norm_num [committedAt, hafter]
  refine ⟨⟨by decide, by decide, by decide, by simp, by simp⟩, hspans, by decide +kernel, hcommitted, fun htrue => ?_⟩
  have hzero := htrue 0 le_rfl (by norm_num) ⟨0, 1860, some .stressed⟩ (by simp [hspans]) le_rfl (by norm_num)
  rw [hcommitted 0 (by norm_num)] at hzero
  exact absurd hzero (by decide)

end FxTracker.Web.RegimeSpans
