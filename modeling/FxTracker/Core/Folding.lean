import FxTracker.Core.Calendar
import FxTracker.Lib.Grouping
import Mathlib.Order.Bounds.Defs

/-!
# The fold is grouping

`fold` compares a bar with the last candle only. The sort puts the bars in the order of time and
later times are in later buckets, so the bars of a bucket stand together and a candle is made of all
of them. What is folded once to a finer interval may be folded again.

* `fold_eq` — the fold is a roll-up by left edge, unless a time is out of range
* `mem_fold_iff` — the candles are the groups, joined
* `fold_groups` — what the candles say, and that folding composes
-/

namespace FxTracker.Intervals

variable {K : Type}

/-! ## The fold as a roll-up -/

/-- `sorted(bars, key=_fold_order)`. -/
def ordered (bars : List (Candle K)) : List (Candle K) :=
  bars.insertionSort fun a b => foldOrder a ≤ foldOrder b

theorem mem_ordered {bars : List (Candle K)} {bar : Candle K} : bar ∈ ordered bars ↔ bar ∈ bars :=
  List.mem_insertionSort _

theorem filter_ordered (bars : List (Candle K)) (p : Candle K → Bool) :
    (ordered bars).filter p = ordered (bars.filter p) :=
  filter_insertionSort bars

theorem t_le_of_foldOrder {a b : Candle K} (h : foldOrder a ≤ foldOrder b) : a.t ≤ b.t := by
  rcases Prod.Lex.toLex_le_toLex.mp h with hlt | ⟨heq, -⟩
  · exact le_of_lt hlt
  · exact le_of_eq heq

/-- In the order of the fold, times ascend. -/
theorem pairwise_ordered (bars : List (Candle K)) : (ordered bars).Pairwise fun a b => a.t ≤ b.t :=
  (List.pairwise_insertionSort _ bars).imp t_le_of_foldOrder

/-- Where times already ascend strictly, the sort changes nothing. -/
theorem ordered_eq_self {bars : List (Candle K)} (h : bars.Pairwise fun a b => a.t < b.t) :
    ordered bars = bars :=
  List.Pairwise.insertionSort_eq (h.imp fun hlt => Prod.Lex.toLex_le_toLex.mpr (.inl hlt))

/-- `bucket_start` raises at no other time. -/
def InRange (spec : Interval) (epoch : Int) : Prop :=
  spec.seconds = none → representable epoch = true

instance (spec : Interval) (epoch : Int) : Decidable (InRange spec epoch) :=
  inferInstanceAs (Decidable (_ → _))

theorem bucketStart_eq (spec : Interval) (epoch : Int) :
    bucketStart epoch spec = if InRange spec epoch then some (leftEdge spec epoch) else none :=
  bucketStart_eq_leftEdge epoch spec

theorem bucketStart_eq_some_iff {spec : Interval} {epoch start : Int} :
    bucketStart epoch spec = some start ↔ InRange spec epoch ∧ leftEdge spec epoch = start := by
  rw [bucketStart_eq]
  split <;> simp_all

/-- A bar as a candle of its own. -/
def under (spec : Interval) (bar : Candle K) : Candle K := { bar with t := leftEdge spec bar.t }

theorem find?_code {spec : Interval} (h : spec ∈ intervals) :
    intervals.find? (·.code = spec.code) = some spec := by
  have hall : ∀ spec ∈ intervals, intervals.find? (·.code = spec.code) = some spec := by decide
  exact hall spec h

section Fold

variable [LT K] [DecidableLT K]

theorem foldBar_eq (spec : Interval) (out : List (Candle K)) (bar : Candle K) :
    foldBar spec out bar =
      if InRange spec bar.t then some (rollStep Candle.t extend out (under spec bar)) else none := by
  unfold foldBar rollStep
  rw [bucketStart_eq]
  by_cases hin : InRange spec bar.t
  · rw [if_pos hin, if_pos hin]
    cases out.getLast? <;> rfl
  · rw [if_neg hin, if_neg hin, Option.map_none]

/-- **The fold is a roll-up** of the sorted bars by left edge, unless a time is out of range. -/
theorem fold_eq {spec : Interval} (hspec : spec ∈ intervals) (bars : List (Candle K)) :
    fold bars spec.code =
      if ∀ bar ∈ bars, InRange spec bar.t then
        some (rollup Candle.t extend ((ordered bars).map (under spec)))
      else none := by
  have hrun : ∀ out, (ordered bars).foldlM (foldBar spec) out =
      if ∀ bar ∈ ordered bars, InRange spec bar.t then
        some (((ordered bars).map (under spec)).foldl (rollStep Candle.t extend) out)
      else none := by
    generalize ordered bars = sorted
    induction sorted with
    | nil => simp
    | cons bar sorted ih =>
      intro out
      rw [List.foldlM_cons, foldBar_eq]
      by_cases hbar : InRange spec bar.t
      · rw [if_pos hbar]
        simp only [Option.bind_eq_bind, Option.bind_some, ih, List.mem_cons, forall_eq_or_imp, hbar,
          true_and, List.map_cons, List.foldl_cons]
      · simp [hbar]
  have hfold : fold bars spec.code = (ordered bars).foldlM (foldBar spec) [] := by
    unfold fold
    rw [find?_code hspec, Option.bind_some]
    rfl
  rw [hfold, hrun]
  simp only [mem_ordered]
  rfl

theorem fold_eq_some_iff {spec : Interval} (hspec : spec ∈ intervals) {bars out : List (Candle K)} :
    fold bars spec.code = some out ↔ (∀ bar ∈ bars, InRange spec bar.t) ∧
      rollup Candle.t extend ((ordered bars).map (under spec)) = out := by
  rw [fold_eq hspec]
  split <;> simp_all

omit [LT K] [DecidableLT K] in
theorem pairwise_under {spec : Interval} (hspec : spec ∈ intervals) (bars : List (Candle K)) :
    ((ordered bars).map (under spec)).Pairwise fun a b => a.t ≤ b.t :=
  List.pairwise_map.mpr ((pairwise_ordered bars).imp fun h => leftEdge_mono hspec h)

/-- The candles ascend strictly. -/
theorem pairwise_fold {spec : Interval} (hspec : spec ∈ intervals) {bars out : List (Candle K)}
    (h : fold bars spec.code = some out) : out.Pairwise fun a b => a.t < b.t := by
  obtain ⟨-, rfl⟩ := (fold_eq_some_iff hspec).mp h
  exact pairwise_rollup t_extend (pairwise_under hspec bars)

/-! ## Candles are groups -/

/-- The bars of one bucket, in the order of the fold. -/
def group (bars : List (Candle K)) (spec : Interval) (start : Int) : List (Candle K) :=
  ordered (bars.filter fun bar => bucketStart bar.t spec = some start)

omit [LT K] [DecidableLT K] in
theorem mem_group {bars : List (Candle K)} {spec : Interval} {start : Int} {bar : Candle K} :
    bar ∈ group bars spec start ↔ bar ∈ bars ∧ bucketStart bar.t spec = some start := by
  rw [group, mem_ordered, List.mem_filter, decide_eq_true_iff]

/-- **The candles are the groups, joined.** -/
theorem mem_fold_iff {spec : Interval} (hspec : spec ∈ intervals) {bars out : List (Candle K)}
    (h : fold bars spec.code = some out) {c : Candle K} :
    c ∈ out ↔ joined extend ((group bars spec c.t).map (under spec)) = some c := by
  obtain ⟨hin, rfl⟩ := (fold_eq_some_iff hspec).mp h
  have hgroup : (ordered bars).filter (fun bar => (under spec bar).t = c.t) = group bars spec c.t := by
    rw [filter_ordered, group]
    congr 1
    refine List.filter_congr fun bar hbar => ?_
    refine decide_eq_decide.mpr ?_
    rw [bucketStart_eq_some_iff]
    exact ⟨fun ht => ⟨hin bar hbar, ht⟩, And.right⟩
  rw [mem_rollup_iff t_extend (pairwise_under hspec bars), List.filter_map, ← hgroup]
  rfl

end Fold

variable [LinearOrder K]

/-- What a candle says of the bars it is made of. -/
structure Describes (c : Candle K) (g : List (Candle K)) : Prop where
  opening : g.head?.map Candle.o = some c.o
  close : g.getLast?.map Candle.c = some c.c
  high : IsGreatest {p | ∃ bar ∈ g, bar.h = p} c.h
  low : IsLeast {p | ∃ bar ∈ g, bar.l = p} c.l
  count : c.n = (g.map Candle.n).sum
  src : (∀ bar ∈ g, bar.src = c.src) ∨ c.src = "mixed" ∧ ∃ bar ∈ g, ∃ bar' ∈ g, bar.src ≠ bar'.src

theorem describes_under (spec : Interval) (bar : Candle K) : Describes (under spec bar) [bar] where
  opening := rfl
  close := rfl
  high := ⟨⟨bar, by simp, rfl⟩, by rintro p ⟨b, hb, rfl⟩; rw [List.mem_singleton.mp hb]; rfl⟩
  low := ⟨⟨bar, by simp, rfl⟩, by rintro p ⟨b, hb, rfl⟩; rw [List.mem_singleton.mp hb]; rfl⟩
  count := by simp [under]
  src := .inl fun b hb => by rw [List.mem_singleton.mp hb]; rfl

/-- **One more bar.** -/
theorem Describes.extend {c : Candle K} {g : List (Candle K)} (h : Describes c g) (spec : Interval)
    (bar : Candle K) : Describes (extend c (under spec bar)) (g ++ [bar]) := by
  obtain ⟨hopen, -, ⟨⟨bh, hbh, hh⟩, hle⟩, ⟨⟨bl, hbl, hl⟩, hge⟩, hcount, hsrc⟩ := h
  have hnew : bar ∈ g ++ [bar] := List.mem_append_right _ (List.mem_singleton_self _)
  have hold : ∀ b ∈ g, b ∈ g ++ [bar] := fun b hb => List.mem_append_left _ hb
  refine ⟨?_, ?_, ?_, ?_, ?_, ?_⟩
  · cases g with
    | nil => cases hopen
    | cons b g => exact hopen
  · rw [List.getLast?_concat]
    rfl
  · show IsGreatest _ (pyMax c.h bar.h)
    rw [pyMax_eq_max]
    refine ⟨?_, ?_⟩
    · rcases max_choice c.h bar.h with hmax | hmax <;> rw [hmax]
      · exact ⟨bh, hold bh hbh, hh⟩
      · exact ⟨bar, hnew, rfl⟩
    · rintro p ⟨b, hb, rfl⟩
      rcases List.mem_append.mp hb with hb | hb
      · exact le_max_of_le_left (hle ⟨b, hb, rfl⟩)
      · rw [List.mem_singleton.mp hb]
        exact le_max_right ..
  · show IsLeast _ (pyMin c.l bar.l)
    rw [pyMin_eq_min]
    refine ⟨?_, ?_⟩
    · rcases min_choice c.l bar.l with hmin | hmin <;> rw [hmin]
      · exact ⟨bl, hold bl hbl, hl⟩
      · exact ⟨bar, hnew, rfl⟩
    · rintro p ⟨b, hb, rfl⟩
      rcases List.mem_append.mp hb with hb | hb
      · exact min_le_of_left_le (hge ⟨b, hb, rfl⟩)
      · rw [List.mem_singleton.mp hb]
        exact min_le_right ..
  · show c.n + bar.n = _
    rw [hcount, List.map_append, List.sum_append]
    simp
  · obtain ⟨first, hfirst⟩ : ∃ first, first ∈ g := ⟨bh, hbh⟩
    show (∀ b ∈ g ++ [bar], b.src = if c.src ≠ bar.src then "mixed" else c.src) ∨
      (if c.src ≠ bar.src then "mixed" else c.src) = "mixed" ∧ _
    by_cases heq : c.src = bar.src
    · rw [if_neg (not_not.mpr heq)]
      rcases hsrc with hall | ⟨hmixed, b, hb, b', hb', hne⟩
      · refine .inl fun b hb => ?_
        rcases List.mem_append.mp hb with hb | hb
        · exact hall b hb
        · rw [List.mem_singleton.mp hb, heq]
      · exact .inr ⟨hmixed, b, hold b hb, b', hold b' hb', hne⟩
    · rw [if_pos heq]
      refine .inr ⟨rfl, ?_⟩
      rcases hsrc with hall | ⟨-, b, hb, b', hb', hne⟩
      · exact ⟨first, hold first hfirst, bar, hnew, by rw [hall first hfirst]; exact heq⟩
      · exact ⟨b, hold b hb, b', hold b' hb', hne⟩

theorem describes_joined {spec : Interval} {g : List (Candle K)} {c : Candle K}
    (h : joined Intervals.extend (g.map (under spec)) = some c) : Describes c g := by
  induction g using List.reverseRecOn generalizing c with
  | nil => cases h
  | append_singleton g bar ih =>
    rw [List.map_append, List.map_singleton, joined_concat] at h
    cases hg : joined Intervals.extend (g.map (under spec)) with
    | none =>
      have hnil := List.map_eq_nil_iff.mp (joined_eq_none_iff.mp hg)
      rw [hg] at h
      cases h
      rw [hnil]
      exact describes_under spec bar
    | some cur =>
      rw [hg] at h
      cases h
      exact (ih hg).extend spec bar

/-- The candles of some bars: one for each bucket that has any. -/
structure Grouped (bars : List (Candle K)) (spec : Interval) (out : List (Candle K)) : Prop where
  ascending : out.Pairwise fun c d => c.t < d.t
  describes : ∀ c ∈ out, Describes c (group bars spec c.t)
  placed : ∀ bar ∈ bars, ∃! c, c ∈ out ∧ bucketStart bar.t spec = some c.t

theorem grouped_fold {spec : Interval} (hspec : spec ∈ intervals) {bars out : List (Candle K)}
    (h : fold bars spec.code = some out) : Grouped bars spec out := by
  have hasc := pairwise_fold hspec h
  refine ⟨hasc, fun c hc => describes_joined ((mem_fold_iff hspec h).mp hc), fun bar hbar => ?_⟩
  have hstart : bucketStart bar.t spec = some (leftEdge spec bar.t) :=
    bucketStart_eq_some_iff.mpr ⟨((fold_eq_some_iff hspec).mp h).1 bar hbar, rfl⟩
  obtain ⟨c, hc, hct⟩ : ∃ c ∈ out, c.t = leftEdge spec bar.t := by
    obtain ⟨-, rfl⟩ := (fold_eq_some_iff hspec).mp h
    exact exists_mem_rollup t_extend (pairwise_under hspec bars)
      (List.mem_map_of_mem (mem_ordered.mpr hbar))
  refine ⟨c, ⟨hc, by rw [hct]; exact hstart⟩, ?_⟩
  rintro d ⟨hd, hdt⟩
  rw [hstart, ← hct] at hdt
  exact eq_of_key_eq hasc hd hc (Option.some.inj hdt).symm

/-! ## Folding again -/

/-- **A coarser fold of a fold** is that of the bars. -/
theorem fold_fold {a b : Interval} (ha : a ∈ intervals) (hb : b ∈ intervals) (hfiner : Finer a b)
    (bars : List (Candle K)) :
    (fold bars a.code).bind (fold · b.code) = fold bars b.code := by
  obtain ⟨s, hs, hdvd⟩ := id hfiner
  have hfixed : ∀ bar ∈ bars, InRange a bar.t := by
    intro bar _ hnone
    rw [hs] at hnone
    cases hnone
  have hout := (fold_eq_some_iff ha).mpr ⟨hfixed, rfl⟩
  have hasc := pairwise_fold ha hout
  generalize hc : rollup Candle.t extend ((ordered bars).map (under a)) = candles at hout hasc
  have hstamp : under b ∘ under a = (under b : Candle K → Candle K) := by
    funext bar
    exact congrArg (fun t => { bar with t := t }) (leftEdge_leftEdge ha hb hfiner bar.t)
  have hroll : rollup Candle.t extend (candles.map (under b)) =
      rollup Candle.t extend ((ordered bars).map (under b)) := by
    rw [← hc, rollup_map_rollup (under b) extend_assoc t_extend (fun _ _ => rfl)
      (fun c d h => congrArg (leftEdge b) h), List.map_map, hstamp]
  have hrange : (∀ c ∈ candles, InRange b c.t) ↔ ∀ bar ∈ bars, InRange b bar.t := by
    have hedge : ∀ bar : Candle K, InRange b (leftEdge a bar.t) ↔ InRange b bar.t := by
      intro bar
      unfold InRange
      refine imp_congr_right fun hcal => ?_
      rw [hcal, Option.getD_none] at hdvd
      rw [representable_leftEdge ha hs hdvd]
    refine ⟨fun h bar hbar => ?_, fun h c hcin => ?_⟩
    · obtain ⟨c, ⟨hcin, hct⟩, -⟩ := (grouped_fold ha hout).placed bar hbar
      rw [← hedge, (bucketStart_eq_some_iff.mp hct).2]
      exact h c hcin
    · obtain ⟨x, hx, hct⟩ := key_joined t_extend ((mem_fold_iff ha hout).mp hcin)
      obtain ⟨bar, hbar, rfl⟩ := List.mem_map.mp hx
      rw [hct]
      exact (hedge bar).mpr (h bar (mem_group.mp hbar).1)
  rw [hout, Option.bind_some, fold_eq hb, fold_eq hb, ordered_eq_self hasc, hroll]
  simp only [hrange]

/-- **Roll-up is grouping, and composes.** The fold returns wherever the calendar has a date for each
bar. -/
theorem fold_groups {spec : Interval} (hspec : spec ∈ intervals) (bars : List (Candle K)) :
    ((∃ out, fold bars spec.code = some out) ↔
      ∀ bar ∈ bars, spec.seconds = none → representable bar.t = true) ∧
    (∀ out, fold bars spec.code = some out → Grouped bars spec out) ∧
    ∀ a ∈ intervals, Finer a spec →
      (fold bars a.code).bind (fold · spec.code) = fold bars spec.code := by
  refine ⟨⟨?_, ?_⟩, fun _ h => grouped_fold hspec h, fun _ ha h => fold_fold ha hspec h bars⟩
  · rintro ⟨out, hout⟩
    exact ((fold_eq_some_iff hspec).mp hout).1
  · exact fun h => ⟨_, (fold_eq_some_iff hspec).mpr ⟨h, rfl⟩⟩

/-- A provider bar and a live bar of one minute, and one of the next before them. -/
def sampleBars : List (Candle Int) :=
  [⟨86460, 3, 3, 3, 3, 2, "stream"⟩, ⟨86400, 2, 2, 2, 2, 1, "stream"⟩, ⟨86400, 1, 4, 1, 2, 0, "backfill"⟩]

theorem fold_groups_week :
    fold sampleBars "1w" = some [⟨-259200, 1, 4, 1, 3, 3, "mixed"⟩] ∧
    Grouped sampleBars ⟨"1w", none, .day⟩ [⟨-259200, 1, 4, 1, 3, 3, "mixed"⟩] ∧
    (fold sampleBars "3m").bind (fold · "1w") = fold sampleBars "1w" := by
  have hweek : fold sampleBars "1w" = some [⟨-259200, 1, 4, 1, 3, 3, "mixed"⟩] := by decide +kernel
  have hspec : (⟨"1w", none, .day⟩ : Interval) ∈ intervals := by decide
  have hgroups := fold_groups hspec sampleBars
  exact ⟨hweek, hgroups.2.1 _ hweek,
    hgroups.2.2 ⟨"3m", some 180, .minute⟩ (by decide) ⟨180, rfl, by decide⟩⟩

end FxTracker.Intervals
