import FxTracker.Lib.Ascending
import FxTracker.Lib.Grouping
import FxTracker.Web.Chart

/-!
# The candlestick series and what the chart knows of it

The view remembers the newest time and a few of the newest candles. What the series shows of a bars array
is said twice: point by point, which every step keeps, and as one list.

* `update_eq` — `series.update` of a time no older than the newest
* `Sound.remember`, `Sound.updates` — the view after one candle, and after the updates of a sync
* `updatesOf_eq_some` — what the loop over the bars passes over
* `Shows.draw`, `shows_redraw` — the series after one candle of the painter, and after a full redraw
* `seriesOf_iff` — point by point, and as one list
-/

namespace FxTracker.Web.Chart

variable {K : Type}

/-- Strictly ascending in time. -/
def InOrder (bars : List (Candle K)) : Prop := bars.Pairwise fun a b => a.t < b.t

/-! ## The series -/

theorem update_eq {series : List (Point K)} (hasc : series.Pairwise fun p q => p.time < q.time)
    {p : Point K} (hnew : ∀ q ∈ series, q.time ≤ p.time) :
    update series p = some (series.filter (fun q => q.time < p.time) ++ [p]) := by
  rcases List.eq_nil_or_concat' series with rfl | ⟨older, newest, rfl⟩
  · rfl
  · have holder : older.filter (fun q => q.time < p.time) = older := by
      rw [List.filter_eq_self]
      intro q hq
      have hlt := (List.pairwise_append.mp hasc).2.2 q hq newest (List.mem_singleton_self newest)
      have hle := hnew newest (by simp)
      exact decide_eq_true (hlt.trans_le hle)
    unfold update
    rw [List.getLast?_concat, List.filter_append, holder, List.dropLast_concat]
    dsimp only
    by_cases hlt : newest.time < p.time
    · rw [if_pos hlt, List.filter_cons_of_pos (by simpa using hlt), List.filter_nil]
    · have heq : newest.time = p.time := le_antisymm (hnew newest (by simp)) (not_lt.mp hlt)
      rw [if_neg hlt, if_pos heq, List.filter_cons_of_neg (by simpa using hlt), List.filter_nil,
        List.append_nil]

/-- The view knows the series: the newest time, and some of its candles. -/
structure Sound (series : List (Point K)) (v : View K) : Prop where
  asc : series.Pairwise fun p q => p.time < q.time
  lastT : v.lastT = series.getLast?.map Point.time
  few : v.painted.size ≤ paintedKept
  newest : ∀ t ∈ v.lastT, (v.painted.get? t).isSome
  painted : ∀ t b, v.painted.get? t = some b → b.t = t ∧ ∃ forming, point b forming ∈ series

variable {series : List (Point K)} {v : View K} {b : Candle K}

/-- Nothing shown is newer than `lastT`. -/
theorem Sound.le_lastT (h : Sound series v) {p : Point K} (hp : p ∈ series) :
    ∃ t, v.lastT = some t ∧ p.time ≤ t := by
  have hasc := h.asc
  have hlast := h.lastT
  rcases List.eq_nil_or_concat' series with rfl | ⟨older, newest, rfl⟩
  · cases hp
  · rw [List.getLast?_concat] at hlast
    refine ⟨newest.time, hlast, ?_⟩
    rcases List.mem_append.mp hp with hp | hp
    · exact le_of_lt ((List.pairwise_append.mp hasc).2.2 p hp newest (List.mem_singleton_self newest))
    · rw [List.mem_singleton.mp hp]

/-- And `lastT` is shown. -/
theorem Sound.exists_newest (h : Sound series v) {t : Int} (ht : v.lastT = some t) :
    ∃ p ∈ series, p.time = t := by
  rw [h.lastT, Option.map_eq_some_iff] at ht
  obtain ⟨p, hp, rfl⟩ := ht
  exact ⟨p, List.mem_of_getLast? hp, rfl⟩

theorem eq_of_time (hasc : series.Pairwise fun p q => p.time < q.time) {p q : Point K}
    (hp : p ∈ series) (hq : q ∈ series) (h : p.time = q.time) : p = q :=
  eq_of_key_eq hasc hp hq h

theorem remember_painted {t : Int} {x : Candle K}
    (h : (v.remember b).painted.get? t = some x) :
    t = b.t ∧ x = b ∨ t ≠ b.t ∧ v.painted.get? t = some x := by
  have hset : (v.painted.set b.t b).get? t = some x := by
    unfold View.remember at h
    dsimp only at h
    split at h
    · cases hk : (v.painted.set b.t b).keys.head? with
      | none =>
        rw [hk] at h
        exact h
      | some k =>
        rw [hk, Option.elim_some, Dict.get?_erase] at h
        split at h
        · cases h
        · exact h
    · exact h
  by_cases ht : t = b.t
  · subst ht
    rw [Dict.get?_set_self] at hset
    exact Or.inl ⟨rfl, (Option.some.inj hset).symm⟩
  · rw [Dict.get?_set_ne _ _ ht] at hset
    exact Or.inr ⟨ht, hset⟩

/-- The newest candle is remembered, and few others. -/
theorem remember_newest (hfew : v.painted.size ≤ paintedKept) :
    (v.remember b).painted.size ≤ paintedKept ∧ (v.remember b).painted.get? b.t = some b := by
  have hsize := Dict.size_set v.painted b.t b
  unfold View.remember
  dsimp only
  by_cases hfull : paintedKept < (v.painted.set b.t b).size
  · -- one more than are kept, so `b` is new, and the oldest is another
    have hnew : ¬ v.painted.contains b.t = true := fun hin => by
      rw [if_pos hin] at hsize
      omega
    have hkeys : (v.painted.set b.t b).keys = v.painted.keys ++ [b.t] := by
      rw [Dict.keys_set, if_neg (mt Dict.mem_keys_iff.mp hnew)]
    rw [if_neg hnew] at hsize
    obtain ⟨k, rest, hk⟩ : ∃ k rest, v.painted.keys = k :: rest := by
      refine List.exists_cons_of_ne_nil fun hnil => ?_
      rw [Dict.size_eq_length_keys v.painted, hnil, List.length_nil] at hsize
      rw [hsize] at hfull
      exact absurd hfull (by decide)
    have hne : b.t ≠ k := by
      rintro rfl
      exact hnew (Dict.mem_keys_iff.mp (by rw [hk]; exact List.mem_cons_self ..))
    rw [if_pos hfull, hkeys, hk, List.cons_append, List.head?_cons, Option.elim_some]
    refine ⟨?_, by rw [Dict.get?_erase, if_neg hne, Dict.get?_set_self]⟩
    have hlt := Dict.size_erase_lt (d := v.painted.set b.t b) (k := k)
      (by rw [hkeys, hk]; exact List.mem_cons_self ..)
    omega
  · rw [if_neg hfull]
    exact ⟨not_lt.mp hfull, Dict.get?_set_self ..⟩

/-- **A candle no older than the newest** is drawn, and the view knows. -/
theorem Sound.remember (h : Sound series v) (hb : ∀ t ∈ v.lastT, t ≤ b.t) (forming : Bool) :
    ∃ series', update series (point b forming) = some series' ∧
      (∀ q, q ∈ series' ↔ q ∈ series ∧ q.time < b.t ∨ q = point b forming) ∧ Sound series' (v.remember b) := by
  have hnew : ∀ q ∈ series, q.time ≤ (point b forming).time := by
    intro q hq
    obtain ⟨t, ht, hle⟩ := h.le_lastT hq
    exact hle.trans (hb t ht)
  have hmem : ∀ q, q ∈ series.filter (fun q => q.time < b.t) ++ [point b forming] ↔
      q ∈ series ∧ q.time < b.t ∨ q = point b forming := by
    intro q
    simp
  have hpainted := remember_newest (b := b) h.few
  refine ⟨_, update_eq h.asc hnew, hmem, ?_, ?_, hpainted.1, ?_, ?_⟩
  · refine List.pairwise_append.mpr ⟨h.asc.sublist List.filter_sublist, List.pairwise_singleton .., ?_⟩
    intro p hp q hq
    rw [List.mem_singleton.mp hq]
    exact of_decide_eq_true (List.mem_filter.mp hp).2
  · rw [List.getLast?_concat]
    rfl
  · rintro _ ⟨⟩
    rw [hpainted.2]
    rfl
  · intro t x hx
    rcases remember_painted hx with ⟨rfl, rfl⟩ | ⟨hne, hold⟩
    · exact ⟨rfl, forming, (hmem _).mpr (Or.inr rfl)⟩
    · obtain ⟨rfl, style, hin⟩ := h.painted t x hold
      have hlt : x.t < b.t := lt_of_le_of_ne (hnew _ hin) hne
      exact ⟨rfl, style, (hmem _).mpr (Or.inl ⟨hin, hlt⟩)⟩

/-! ## Updates -/

/-- The updates of a sync replace what is from the first of them on. -/
theorem Sound.updates {c : Pane K} {updates : List (Candle K)} (h : Sound c.series c.view)
    (hasc : InOrder updates) (hnew : ∀ u ∈ updates, ∀ t ∈ c.view.lastT, t ≤ u.t) :
    ∃ c', updates.foldlM Pane.updateOne c = some c' ∧ Sound c'.series c'.view ∧
      c'.live = c.live ∧ ∀ q, q ∈ c'.series ↔
        (∃ u ∈ updates, plain u = q) ∨ q ∈ c.series ∧ ∀ u ∈ updates, q.time < u.t := by
  induction updates generalizing c with
  | nil => exact ⟨c, rfl, h, rfl, fun q => by simp⟩
  | cons u updates ih =>
    obtain ⟨hlt, hrest⟩ := List.pairwise_cons.mp hasc
    obtain ⟨series, hupdate, hmem, hsound⟩ := h.remember (hnew u (List.mem_cons_self ..)) false
    obtain ⟨c₁, hc₁, hs₁, hl₁, hv₁⟩ : ∃ c₁, c.updateOne u = some c₁ ∧ c₁.series = series ∧
        c₁.live = c.live ∧ Sound c₁.series c₁.view := by
      unfold Pane.updateOne plain
      rw [hupdate]
      exact ⟨_, rfl, rfl, rfl, hsound.asc, hsound.lastT, hsound.few, hsound.newest, hsound.painted⟩
    have hlast : ∀ u' ∈ updates, ∀ t ∈ c₁.view.lastT, t ≤ u'.t := by
      intro u' hu' t ht
      obtain ⟨p, hp, rfl⟩ := hv₁.exists_newest ht
      have hlt' := hlt u' hu'
      rw [hs₁, hmem] at hp
      rcases hp with ⟨-, hp⟩ | rfl
      · exact (hp.trans hlt').le
      · exact hlt'.le
    obtain ⟨c', hc', hsound', hl', hmem'⟩ := ih hv₁ hrest hlast
    refine ⟨c', ?_, hsound', hl'.trans hl₁, fun q => ?_⟩
    · rw [List.foldlM_cons, hc₁]
      exact hc'
    · rw [hmem', hs₁, hmem]
      simp only [List.mem_cons, exists_eq_or_imp, forall_eq_or_imp]
      constructor
      · rintro (hq | ⟨⟨hq, hqu⟩ | rfl, hrest⟩)
        · exact Or.inl (Or.inr hq)
        · exact Or.inr ⟨hq, hqu, hrest⟩
        · exact Or.inl (Or.inl rfl)
      · rintro ((rfl | hq) | ⟨hq, hqu, hrest⟩)
        · exact Or.inr ⟨Or.inr rfl, hlt⟩
        · exact Or.inl hq
        · exact Or.inr ⟨Or.inl ⟨hq, hqu⟩, hrest⟩

theorem remember_fold {v : View K} {bars : List (Candle K)} :
    (bars.foldl View.remember v).lastT = (bars.getLast?.map Candle.t).or v.lastT ∧
      ∀ t x, (bars.foldl View.remember v).painted.get? t = some x →
        x ∈ bars ∧ x.t = t ∨ v.painted.get? t = some x := by
  induction bars generalizing v with
  | nil => exact ⟨rfl, fun _ _ h => Or.inr h⟩
  | cons b bars ih =>
    obtain ⟨hlast, hpainted⟩ := ih (v := v.remember b)
    rw [List.foldl_cons]
    refine ⟨?_, fun t x hx => ?_⟩
    · rw [hlast]
      cases bars with
      | nil => rfl
      | cons b' bars => simp [List.getLast?_eq_getLast_of_ne_nil]
    · rcases hpainted t x hx with ⟨hmem, ht⟩ | hold
      · exact Or.inl ⟨List.mem_cons_of_mem _ hmem, ht⟩
      · rcases remember_painted hold with ⟨rfl, rfl⟩ | ⟨-, hold⟩
        · exact Or.inl ⟨List.mem_cons_self .., rfl⟩
        · exact Or.inr hold

/-- A view that keeps few candles, the newest among them, goes on so. -/
theorem remember_fold_kept {v : View K} (hfew : v.painted.size ≤ paintedKept)
    (hnewest : ∀ t ∈ v.lastT, (v.painted.get? t).isSome) (bars : List (Candle K)) :
    (bars.foldl View.remember v).painted.size ≤ paintedKept ∧
      ∀ t ∈ (bars.foldl View.remember v).lastT, ((bars.foldl View.remember v).painted.get? t).isSome := by
  induction bars generalizing v with
  | nil => exact ⟨hfew, hnewest⟩
  | cons b bars ih =>
    obtain ⟨hfew', hget⟩ := remember_newest (b := b) hfew
    refine ih hfew' ?_
    rintro _ ⟨⟩
    rw [hget]
    rfl

/-- A full redraw shows the bars, whatever was there before. -/
theorem sound_redraw (c : Pane K) {bars : List (Candle K)} (hasc : InOrder bars) :
    Sound (c.redraw bars).series (c.redraw bars).view where
  asc := List.pairwise_map.mpr hasc
  lastT := by
    have hkept : (bars.rtake paintedKept).getLast? = bars.getLast? := by
      rcases List.eq_nil_or_concat' bars with rfl | ⟨older, last, rfl⟩
      · rfl
      · rw [paintedKept, List.rtake_concat_succ, List.getLast?_concat, List.getLast?_concat]
    unfold Pane.redraw
    dsimp only
    rw [remember_fold.1, hkept, List.getLast?_map, Option.map_map]
    cases bars.getLast? <;> rfl
  few := (remember_fold_kept (Nat.zero_le _) (fun _ h => by cases h) _).1
  newest := (remember_fold_kept (Nat.zero_le _) (fun _ h => by cases h) _).2
  painted := by
    intro t x hx
    unfold Pane.redraw at hx
    dsimp only at hx
    rcases remember_fold.2 t x hx with ⟨hmem, ht⟩ | hold
    · exact ⟨ht, false, List.mem_map_of_mem ((rtake_suffix ..).subset hmem)⟩
    · cases hold

section

variable [DecidableEq K] {bars : List (Candle K)}

/-- The loop updates the candles from `lastT` on, and passes over an older one only where it was
painted so. -/
theorem updatesOf_eq_some {updates : List (Candle K)} (h : v.updatesOf bars = some updates) :
    updates.Sublist bars ∧ (∀ u ∈ updates, ∀ t ∈ v.lastT, t ≤ u.t) ∧
      ∀ b ∈ bars, b ∈ updates ∨
        (∃ t ∈ v.lastT, b.t < t) ∧ ∃ x, v.painted.get? b.t = some x ∧ plain b = plain x := by
  induction bars generalizing updates with
  | nil =>
    cases h
    exact ⟨.slnil, nofun, nofun⟩
  | cons b bars ih =>
    unfold View.updatesOf at h
    by_cases hold : v.lastT.any (b.t < ·) = true
    · rw [if_pos hold] at h
      by_cases hsame : (v.painted.get? b.t).any (sameCandle b) = true
      · rw [if_pos hsame] at h
        obtain ⟨hsub, hnew, hrest⟩ := ih h
        refine ⟨hsub.cons b, hnew, fun b' hb' => ?_⟩
        rcases List.mem_cons.mp hb' with rfl | hb'
        · obtain ⟨t, ht, hlt⟩ := (Option.any_eq_true ..).mp hold
          obtain ⟨x, hx, hbx⟩ := (Option.any_eq_true ..).mp hsame
          exact Or.inr ⟨⟨t, ht, of_decide_eq_true hlt⟩, x, hx, sameCandle_iff.mp hbx⟩
        · exact hrest b' hb'
      · rw [if_neg hsame] at h
        cases h
    · rw [if_neg hold] at h
      obtain ⟨rest, hrest, rfl⟩ := Option.map_eq_some_iff.mp h
      obtain ⟨hsub, hnew, hpassed⟩ := ih hrest
      refine ⟨hsub.cons_cons b, fun u hu t ht => ?_, fun b' hb' => ?_⟩
      · rcases List.mem_cons.mp hu with rfl | hu
        · by_contra hlt
          exact hold ((Option.any_eq_true ..).mpr ⟨t, ht, decide_eq_true (not_le.mp hlt)⟩)
        · exact hnew u hu t ht
      · rcases List.mem_cons.mp hb' with rfl | hb'
        · exact Or.inl (List.mem_cons_self ..)
        · exact (hpassed b' hb').imp_left (List.mem_cons_of_mem _)

/-- The candles an array shares with the one drawn: those the loop passes over as unchanged. -/
def shared : List (Candle K) → List (Candle K) → List (Candle K)
  | b :: bars, d :: drawn => if sameCandle b d then b :: shared bars drawn else []
  | _, _ => []

theorem shared_append (bars drawn : List (Candle K)) : shared bars drawn ++ afterCommon bars drawn = bars := by
  induction bars generalizing drawn with
  | nil => cases drawn <;> rfl
  | cons b bars ih =>
    cases drawn with
    | nil => rfl
    | cons d drawn =>
      unfold shared afterCommon
      split
      · rw [List.cons_append, ih]
      · rfl

theorem mem_shared {bars drawn : List (Candle K)} (h : b ∈ shared bars drawn) : ∃ d ∈ drawn, plain d = plain b := by
  induction bars generalizing drawn with
  | nil => cases h
  | cons b' bars ih =>
    cases drawn with
    | nil => cases h
    | cons d drawn =>
      unfold shared at h
      split at h
      · next hsame =>
        rcases List.mem_cons.mp h with rfl | h
        · exact ⟨d, List.mem_cons_self .., (sameCandle_iff.mp hsame).symm⟩
        · obtain ⟨d', hd', heq⟩ := ih h
          exact ⟨d', List.mem_cons_of_mem _ hd', heq⟩
      · cases h

end

/-! ## What the series shows of the bars -/

/-- The points that the live painter drew. -/
def Pane.painted (c : Pane K) : List (Point K) := c.live.map Stroke.point

/-- The series shows every bar but the last one as it is, and nothing else before the last one. On the
last one and after it, it shows what the live painter drew. -/
structure Shows (bars : List (Candle K)) (series live : List (Point K)) : Prop where
  older : ∀ last ∈ bars.getLast?, ∀ b ∈ bars, b.t < last.t → plain b ∈ series
  newest : ∀ last ∈ bars.getLast?, ∃ p ∈ series, p.time = last.t ∧ (p = plain last ∨ p ∈ live)
  only : ∀ last ∈ bars.getLast?, ∀ p ∈ series, p.time < last.t → ∃ b ∈ bars, plain b = p
  beyond : ∀ p ∈ series, (∀ last ∈ bars.getLast?, last.t < p.time) → p ∈ live

/-- Only the newest candle has the style of one still forming, and the view knows. -/
def Styled (series : List (Point K)) (v : View K) : Prop :=
  ∀ p ∈ series, p.forming = true → v.lastT = some p.time ∧ v.formingAt = some p.time

/-- Bars that are in order end with their newest. -/
theorem InOrder.lt_or_eq {bars : List (Candle K)} (h : InOrder bars) {last : Candle K}
    (hlast : bars.getLast? = some last) {b : Candle K} (hb : b ∈ bars) : b.t < last.t ∨ b = last := by
  rcases List.eq_nil_or_concat' bars with rfl | ⟨older, newest, rfl⟩
  · cases hb
  · rw [List.getLast?_concat, Option.some_inj] at hlast
    subst hlast
    rcases List.mem_append.mp hb with hb | hb
    · exact Or.inl ((List.pairwise_append.mp h).2.2 b hb newest (List.mem_singleton_self newest))
    · exact Or.inr (List.mem_singleton.mp hb)

/-- The series, from its oldest candle on: the bars before the last one, the last one as it is or as the live
painter drew it, and after it only what the live painter drew. -/
def SeriesOf (bars : List (Candle K)) (c : Pane K) : Prop :=
  ∃ newest newer, c.series = bars.dropLast.map plain ++ newest ++ newer ∧
    newest.map Point.time = bars.getLast?.toList.map Candle.t ∧
    (∀ p ∈ newest, p ∈ bars.getLast?.toList.map plain ∨ p ∈ c.painted) ∧
    ∀ p ∈ newer, p ∈ c.painted ∧ ∀ b ∈ bars, b.t < p.time

/-- The candles before that of the last bar are the other bars, in their order. -/
theorem Shows.before_eq {older : List (Candle K)} {last : Candle K} {series live : List (Point K)}
    (h : Shows (older ++ [last]) series live) (hbars : InOrder (older ++ [last]))
    (hasc : series.Pairwise fun p q => p.time < q.time) {before newer : List (Point K)} {p : Point K}
    (hseries : series = before ++ p :: newer) (hpt : p.time = last.t) :
    before = older.map plain := by
  have hl : (older ++ [last]).getLast? = some last := List.getLast?_concat
  rw [hseries] at hasc
  obtain ⟨hbefore, hafter, hcross⟩ := List.pairwise_append.mp hasc
  obtain ⟨holder, -, hlast⟩ := List.pairwise_append.mp hbars
  have hmem : ∀ q, q ∈ before ↔ q ∈ older.map plain := by
    refine fun q => ⟨fun hq => ?_, fun hq => ?_⟩
    · have hqt : q.time < last.t := hpt ▸ hcross q hq p (List.mem_cons_self ..)
      obtain ⟨b, hb, rfl⟩ := h.only last hl q (hseries ▸ List.mem_append_left _ hq) hqt
      rcases List.mem_append.mp hb with hb | hb
      · exact List.mem_map_of_mem hb
      · rw [List.mem_singleton.mp hb] at hqt
        exact absurd hqt (lt_irrefl _)
    · obtain ⟨b, hb, rfl⟩ := List.mem_map.mp hq
      have hbt := hlast b hb last (List.mem_singleton_self last)
      have hin := h.older last hl b (List.mem_append_left _ hb) hbt
      rw [hseries] at hin
      rcases List.mem_append.mp hin with hin | hin
      · exact hin
      · have hle : p.time ≤ (plain b).time := by
          rcases List.mem_cons.mp hin with heq | hin
          · rw [heq]
          · exact ((List.pairwise_cons.mp hafter).1 _ hin).le
        rw [plain_time, hpt] at hle
        omega
  exact eq_of_mem_iff hbefore (List.pairwise_map.mpr holder) hmem

theorem Shows.seriesOf {bars : List (Candle K)} {c : Pane K} (h : Shows bars c.series c.painted)
    (hbars : InOrder bars) (hasc : c.series.Pairwise fun p q => p.time < q.time) : SeriesOf bars c := by
  rcases List.eq_nil_or_concat' bars with rfl | ⟨older, last, rfl⟩
  · exact ⟨[], c.series, rfl, rfl, fun _ hp => (by cases hp),
      fun p hp => ⟨h.beyond p hp fun _ hl => (by cases hl), fun _ hb => (by cases hb)⟩⟩
  · have hl : (older ++ [last]).getLast? = some last := List.getLast?_concat
    obtain ⟨p, hp, hpt, hdraw⟩ := h.newest last hl
    obtain ⟨before, newer, hseries⟩ := List.append_of_mem hp
    have hsame : before = older.map plain := h.before_eq hbars hasc hseries hpt
    rw [hseries] at hasc
    obtain ⟨-, hafter, -⟩ := List.pairwise_append.mp hasc
    refine ⟨[p], newer, ?_, ?_, ?_, fun q hq => ?_⟩
    · rw [hseries, hsame, List.dropLast_concat]
      simp
    · rw [hl]
      simp [hpt]
    · intro q hq
      rw [List.mem_singleton.mp hq, hl]
      exact hdraw.imp_left fun heq => by simp [heq]
    · have hlt : p.time < q.time := (List.pairwise_cons.mp hafter).1 q hq
      rw [hpt] at hlt
      refine ⟨h.beyond q (hseries ▸ List.mem_append_right _ (List.mem_cons_of_mem _ hq)) ?_, fun b hb => ?_⟩
      · intro last' hl'
        rw [hl] at hl'
        cases hl'
        exact hlt
      · rcases hbars.lt_or_eq hl hb with hlt' | rfl
        · exact hlt'.trans hlt
        · exact hlt

theorem SeriesOf.shows {bars : List (Candle K)} {c : Pane K} (h : SeriesOf bars c) (hbars : InOrder bars) :
    Shows bars c.series c.painted := by
  obtain ⟨newest, newer, hseries, htimes, hnewest, hnewer⟩ := h
  rcases List.eq_nil_or_concat' bars with rfl | ⟨older, last, rfl⟩
  · obtain rfl : newest = [] := List.map_eq_nil_iff.mp htimes
    refine ⟨fun _ hl => (by cases hl), fun _ hl => (by cases hl), fun _ hl => (by cases hl), fun p hp _ => ?_⟩
    rw [hseries] at hp
    exact (hnewer p hp).1
  · rw [List.getLast?_concat] at htimes hnewest
    rw [List.dropLast_concat] at hseries
    obtain ⟨p, rfl, hpt⟩ : ∃ p, newest = [p] ∧ p.time = last.t := List.map_eq_singleton_iff.mp htimes
    have holder := (List.pairwise_append.mp hbars).2.2
    have hlast := List.mem_append_right older (List.mem_singleton_self last)
    have hmem : ∀ q, q ∈ c.series ↔ q ∈ older.map plain ∨ q = p ∨ q ∈ newer := by
      intro q
      rw [hseries]
      simp
    have honly : ∀ l ∈ (older ++ [last]).getLast?, l = last := by
      intro l hl
      rw [List.getLast?_concat] at hl
      exact (Option.some.inj hl).symm
    refine ⟨fun l hl b hb hlt => ?_, fun l hl => ?_, fun l hl q hq hlt => ?_, fun q hq hbeyond => ?_⟩
    · rw [honly l hl] at hlt
      rcases List.mem_append.mp hb with hb | hb
      · exact (hmem _).mpr (Or.inl (List.mem_map_of_mem hb))
      · rw [List.mem_singleton.mp hb] at hlt
        exact absurd hlt (lt_irrefl _)
    · rw [honly l hl]
      refine ⟨p, (hmem p).mpr (Or.inr (Or.inl rfl)), hpt, ?_⟩
      exact (hnewest p (List.mem_singleton_self p)).imp_left fun hin => by simpa using hin
    · rw [honly l hl] at hlt
      rcases (hmem q).mp hq with hq | rfl | hq
      · obtain ⟨b, hb, rfl⟩ := List.mem_map.mp hq
        exact ⟨b, List.mem_append_left _ hb, rfl⟩
      · omega
      · have := (hnewer q hq).2 last hlast
        omega
    · have hlt := hbeyond last List.getLast?_concat
      rcases (hmem q).mp hq with hq | rfl | hq
      · obtain ⟨b, hb, rfl⟩ := List.mem_map.mp hq
        have hb' : b.t < last.t := holder b hb last (List.mem_singleton_self last)
        rw [plain_time] at hlt
        omega
      · omega
      · exact (hnewer q hq).1

theorem seriesOf_iff {bars : List (Candle K)} {c : Pane K} (hbars : InOrder bars)
    (hasc : c.series.Pairwise fun p q => p.time < q.time) :
    SeriesOf bars c ↔ Shows bars c.series c.painted :=
  ⟨fun h => h.shows hbars, fun h => h.seriesOf hbars hasc⟩

theorem shows_redraw (c : Pane K) {bars : List (Candle K)} (hasc : InOrder bars) :
    Shows bars (c.redraw bars).series (c.redraw bars).painted where
  older := fun _ _ b hb _ => List.mem_map_of_mem hb
  newest := fun last hlast =>
    ⟨plain last, List.mem_map_of_mem (List.mem_of_getLast? hlast), rfl, Or.inl rfl⟩
  only := fun _ _ p hp _ => List.mem_map.mp hp
  beyond := by
    intro p hp hnew
    obtain ⟨b, hb, rfl⟩ := List.mem_map.mp hp
    obtain ⟨last, hlast⟩ := Option.ne_none_iff_exists'.mp
      (mt List.getLast?_eq_none_iff.mp (List.ne_nil_of_mem hb))
    have hlt : last.t < b.t := hnew last hlast
    rcases hasc.lt_or_eq hlast hb with h | rfl
    · omega
    · omega

/-- Before the last bar, nothing has the style of a candle still forming. -/
theorem Shows.plain_of_lt {bars : List (Candle K)} {c : Pane K} (h : Shows bars c.series c.painted) {last : Candle K}
    (hlast : bars.getLast? = some last) {p : Point K} (hp : p ∈ c.series) (hlt : p.time < last.t) :
    p.forming = false := by
  obtain ⟨b, -, rfl⟩ := h.only last hlast p hp hlt
  rfl

theorem styled_redraw (c : Pane K) (bars : List (Candle K)) :
    Styled (c.redraw bars).series (c.redraw bars).view := by
  intro p hp hforming
  obtain ⟨b, -, rfl⟩ := List.mem_map.mp hp
  cases hforming

/-- A candle that the painter draws, no older than the newest. -/
theorem Shows.draw {bars : List (Candle K)} {c : Pane K} (h : Shows bars c.series c.painted)
    (hs : Sound c.series c.view) (hb : ∀ t ∈ c.view.lastT, t ≤ b.t) (symbol : String)
    (tf : Timeframe) (store : Live K) (forming : Bool) :
    ∃ c', c.draw symbol tf store b forming = some c' ∧ Sound c'.series c'.view ∧ Shows bars c'.series c'.painted ∧
      c'.view.lastT = some b.t ∧ c'.view.drawn = c.view.drawn := by
  obtain ⟨series, hupdate, hmem, hsound⟩ := hs.remember hb forming
  unfold Pane.draw
  rw [hupdate]
  refine ⟨_, rfl, ⟨hsound.asc, hsound.lastT, hsound.few, hsound.newest, hsound.painted⟩, ?_, rfl, rfl⟩
  have hlast : ∀ last ∈ bars.getLast?, last.t ≤ b.t := by
    intro last hl
    obtain ⟨p, hp, hpt, -⟩ := h.newest last hl
    obtain ⟨t, ht, hle⟩ := hs.le_lastT hp
    rw [← hpt]
    exact hle.trans (hb t ht)
  refine ⟨fun last hl b' hb' hlt => ?_, fun last hl => ?_, fun last hl p hp hlt => ?_, fun p hp hnew => ?_⟩
  · exact (hmem _).mpr (Or.inl ⟨h.older last hl b' hb' hlt, hlt.trans_le (hlast last hl)⟩)
  · obtain ⟨p, hp, hpt, hdrawn⟩ := h.newest last hl
    rcases (hlast last hl).lt_or_eq with hlt | heq
    · refine ⟨p, (hmem p).mpr (Or.inl ⟨hp, hpt ▸ hlt⟩), hpt, hdrawn.imp_right (List.mem_cons_of_mem _)⟩
    · -- the painter drew over the last bar
      exact ⟨point b forming, (hmem _).mpr (Or.inr rfl), heq.symm, Or.inr (List.mem_cons_self ..)⟩
  · rcases (hmem p).mp hp with ⟨hp, -⟩ | rfl
    · exact h.only last hl p hp hlt
    · have := hlast last hl
      rw [point_time] at hlt
      omega
  · rcases (hmem p).mp hp with ⟨hp, -⟩ | rfl
    · exact List.mem_cons_of_mem _ (h.beyond p hp hnew)
    · exact List.mem_cons_self ..

theorem key_foldl_remember (bars : List (Candle K)) (v : View K) : (bars.foldl View.remember v).key = v.key := by
  induction bars generalizing v with
  | nil => rfl
  | cons b bars ih => exact ih _

theorem key_updates {c c' : Pane K} {updates : List (Candle K)}
    (h : updates.foldlM Pane.updateOne c = some c') :
    c'.view.key = c.view.key := by
  induction updates generalizing c with
  | nil =>
    cases h
    rfl
  | cons u updates ih =>
    rw [List.foldlM_cons] at h
    obtain ⟨c₁, hc₁, hrest⟩ := Option.bind_eq_some_iff.mp h
    obtain ⟨series, -, rfl⟩ := Option.map_eq_some_iff.mp hc₁
    exact (ih hrest).trans rfl

/-- A candle over the one still forming, or where none is. -/
theorem styled_draw {c c' : Pane K} (hs : Sound c.series c.view)
    (hb : ∀ t ∈ c.view.lastT, t ≤ b.t) {symbol : String} {tf : Timeframe} {store : Live K} {forming : Bool}
    (hover : ∀ p ∈ c.series, p.forming = true → p.time = b.t) (hc : c.draw symbol tf store b forming = some c') :
    Styled c'.series c'.view := by
  obtain ⟨series, hupdate, hmem, -⟩ := hs.remember hb forming
  unfold Pane.draw at hc
  rw [hupdate] at hc
  cases hc
  intro p hp hforming
  rcases (hmem p).mp hp with ⟨hp, hlt⟩ | rfl
  · have := hover p hp hforming
    omega
  · refine ⟨rfl, ?_⟩
    rw [point_forming] at hforming
    rw [hforming]
    rfl

end FxTracker.Web.Chart
