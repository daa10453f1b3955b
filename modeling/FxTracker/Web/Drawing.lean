import FxTracker.Lib.Lts
import FxTracker.Web.Series

/-!
# What the chart shows of its bars

An incremental sync never takes a candle away, and never looks at what the live painter left on the candle
that was last. So it draws what a full redraw would exactly where the array keeps every candle shown before
its own last one.

* `Traced` — where the candles that the live painter drew come from
* `Draws.paintLive`, `Draws.drawBars` — the chart after a live paint, and after a sync has drawn its array
* `Draws.shows_iff_keeps` — which incremental syncs leave what the bars show
* `chart_shows` — what a full redraw of the bars shows, with what the live painter drew on the last of them
  and after it
-/

namespace FxTracker.Web.Chart

variable {K : Type} {b : Candle K}

/-! ## Where the live painter's candles come from -/

section

variable [LT K] [DecidableLT K] (isMarketOpen : Int → Bool)

/-- The candle still forming: the minutes of its bucket before the forming one, extended by that. -/
def formingPoint (tf : Timeframe) (store : Live K) (f : Candle K) : Point K :=
  let start := bucketStart f.t tf.1.2
  point (extend (candleAt isMarketOpen tf store start (some f.t) false) f start)
    (store.now < (start + tf.1.2) * 1000)

namespace Stroke

/-- The candle still forming. -/
def Forms (s : Stroke K) : Prop :=
  ∃ f ∈ s.store.forming, s.point = formingPoint isMarketOpen s.tf s.store f

/-- The candle of a bucket that the forming minute has left, from the minutes it ended with; if the store has none
of them, as it was drawn while it was forming. -/
def Ends (live : List (Stroke K)) (s : Stroke K) : Prop :=
  (∃ f ∈ s.store.forming, s.point.time < bucketStart f.t s.tf.1.2) ∧
    ((∃ ended, candleAt isMarketOpen s.tf s.store s.point.time none true = some ended ∧ s.point = plain ended) ∨
      candleAt isMarketOpen s.tf s.store s.point.time none true = none ∧
        ∃ old ∈ live, old.Forms isMarketOpen ∧ s.point = { old.point with forming := false })

variable {isMarketOpen} in
theorem Ends.cons {live : List (Stroke K)} {s : Stroke K} (h : s.Ends isMarketOpen live) (new : Stroke K) :
    s.Ends isMarketOpen (new :: live) := by
  refine ⟨h.1, h.2.imp_right ?_⟩
  rintro ⟨hnone, old, hold, hsame⟩
  exact ⟨hnone, old, List.mem_cons_of_mem new hold, hsame⟩

end Stroke

/-- Everything the live painter drew is a candle still forming or one that ended, from a call of it; and the view
remembers the forming one as it was drawn. -/
structure Traced (calls : List (String × Timeframe × Live K)) (c : Pane K) : Prop where
  strokes : ∀ s ∈ c.live, s.Forms isMarketOpen ∨ s.Ends isMarketOpen c.live
  calls : ∀ s ∈ c.live, (s.symbol, s.tf, s.store) ∈ calls
  keys : ∀ s ∈ c.live, keyOf s.symbol s.tf = c.view.key
  forming : ∀ t ∈ c.view.formingAt, ∀ b ∈ c.view.painted.get? t, ∃ s ∈ c.live,
    s.Forms isMarketOpen ∧ s.point = point b true

end

section

variable [LT K] [DecidableLT K] {isMarketOpen : Int → Bool} {calls : List (String × Timeframe × Live K)} {c c' : Pane K}

theorem traced_redraw (c : Pane K) (bars : List (Candle K)) : Traced isMarketOpen calls (c.redraw bars) where
  strokes := fun _ hs => by cases hs
  calls := fun _ hs => by cases hs
  keys := fun _ hs => by cases hs
  forming := by
    have hnone : ∀ (bars : List (Candle K)) (v : View K), v.formingAt = none →
        (bars.foldl View.remember v).formingAt = none := by
      intro bars
      induction bars with
      | nil => exact fun _ hv => hv
      | cons b bars ih => exact fun v hv => ih _ hv
    intro t ht
    unfold Pane.redraw at ht
    rw [hnone _ _ rfl] at ht
    cases ht

theorem Traced.updateOne (h : Traced isMarketOpen calls c) (hc : c.updateOne b = some c') :
    Traced isMarketOpen calls c' := by
  obtain ⟨series, -, rfl⟩ := Option.map_eq_some_iff.mp hc
  refine ⟨h.strokes, h.calls, h.keys, ?_⟩
  intro t ht x hx
  dsimp only at ht hx ⊢
  by_cases hat : (c.view.remember b).formingAt = some b.t
  · rw [if_pos hat] at ht
    cases ht
  · rw [if_neg hat] at ht
    rcases remember_painted hx with ⟨rfl, -⟩ | ⟨-, hold⟩
    · exact absurd ht hat
    · exact h.forming t ht x hold

theorem Traced.updates (h : Traced isMarketOpen calls c) {updates : List (Candle K)}
    (hc : updates.foldlM Pane.updateOne c = some c') : Traced isMarketOpen calls c' := by
  induction updates generalizing c with
  | nil =>
    cases hc
    exact h
  | cons u updates ih =>
    rw [List.foldlM_cons] at hc
    obtain ⟨c₁, hc₁, hrest⟩ := Option.bind_eq_some_iff.mp hc
    exact ih (h.updateOne hc₁) hrest

/-- A candle that the live painter draws. -/
theorem Traced.draw (h : Traced isMarketOpen calls c) {symbol : String} {tf : Timeframe} {store : Live K}
    {forming : Bool} (hcall : (symbol, tf, store) ∈ calls) (hkey : c.view.key = keyOf symbol tf)
    (hforms : forming = true → Stroke.Forms isMarketOpen ⟨symbol, tf, store, point b forming⟩)
    (hends : Stroke.Forms isMarketOpen ⟨symbol, tf, store, point b forming⟩ ∨
      Stroke.Ends isMarketOpen c.live ⟨symbol, tf, store, point b forming⟩)
    (hc : c.draw symbol tf store b forming = some c') : Traced isMarketOpen calls c' := by
  obtain ⟨series, -, rfl⟩ := Option.map_eq_some_iff.mp hc
  refine ⟨?_, ?_, ?_, ?_⟩
  · intro s hs
    rcases List.mem_cons.mp hs with rfl | hs
    · exact hends.imp_right fun hends => hends.cons _
    · exact (h.strokes s hs).imp_right fun hends => hends.cons _
  · intro s hs
    rcases List.mem_cons.mp hs with rfl | hs
    · exact hcall
    · exact h.calls s hs
  · intro s hs
    rcases List.mem_cons.mp hs with rfl | hs
    · exact hkey.symm
    · exact h.keys s hs
  · intro t ht x hx
    dsimp only at ht hx ⊢
    have hold : ∀ (hne : t ≠ b.t), c.view.formingAt = some t → ∃ s ∈ (⟨symbol, tf, store, point b forming⟩ : Stroke K) :: c.live,
        s.Forms isMarketOpen ∧ s.point = point x true := by
      intro hne hat
      rcases remember_painted hx with ⟨heq, -⟩ | ⟨-, hx⟩
      · exact absurd heq hne
      · obtain ⟨s, hs, hsame⟩ := h.forming t hat x hx
        exact ⟨s, List.mem_cons_of_mem _ hs, hsame⟩
    cases forming with
    | true =>
      rw [if_pos rfl] at ht
      cases ht
      obtain ⟨-, rfl⟩ := (remember_painted hx).resolve_right fun hne => hne.1 rfl
      exact ⟨_, List.mem_cons_self .., hforms rfl, rfl⟩
    | false =>
      rw [if_neg Bool.false_ne_true] at ht
      by_cases hat : (c.view.remember b).formingAt = some b.t
      · rw [if_pos hat] at ht
        cases ht
      · rw [if_neg hat] at ht
        refine hold ?_ ht
        rintro rfl
        exact hat ht

end

/-! ## The live painter -/

/-- The chart after the bars array `bars` and these calls of the live painter. -/
structure Draws [LT K] [DecidableLT K] (isMarketOpen : Int → Bool) (calls : List (String × Timeframe × Live K))
    (bars : List (Candle K)) (c : Pane K) : Prop where
  drawn : c.view.drawn = bars
  inOrder : InOrder bars
  sound : Sound c.series c.view
  shows : Shows bars c.series c.painted
  styled : Styled c.series c.view
  traced : Traced isMarketOpen calls c

section

variable [LT K] [DecidableLT K] {isMarketOpen : Int → Bool} {calls : List (String × Timeframe × Live K)} {symbol : String}
  {tf : Timeframe} {store : Live K} {bars : List (Candle K)} {c : Pane K} {f : Candle K}

/-- The chart after a sync has drawn its array. -/
theorem Pane.redraw_draws (c : Pane K) (hbars : InOrder bars) :
    Draws isMarketOpen calls bars { c.redraw bars with view := { (c.redraw bars).view with drawn := bars } } :=
  have hs := sound_redraw c hbars
  have htraced : Traced isMarketOpen calls (c.redraw bars) := traced_redraw c bars
  ⟨rfl, hbars, ⟨hs.asc, hs.lastT, hs.few, hs.newest, hs.painted⟩, shows_redraw c hbars, styled_redraw c bars,
    htraced.strokes, htraced.calls, htraced.keys, htraced.forming⟩

theorem candleAt_t {start : Int} {before : Option Int} {ended : Bool}
    (h : candleAt isMarketOpen tf store start before ended = some b) : b.t = start := by
  unfold candleAt at h
  split at h
  · exact dayCandle_t h
  · exact bucketOf_t h

theorem Draws.draw (h : Draws isMarketOpen calls bars c) (hb : ∀ t ∈ c.view.lastT, t ≤ b.t) {forming : Bool}
    (hover : ∀ p ∈ c.series, p.forming = true → p.time = b.t) (hcall : (symbol, tf, store) ∈ calls)
    (hkey : c.view.key = keyOf symbol tf)
    (hforms : forming = true → Stroke.Forms isMarketOpen ⟨symbol, tf, store, point b forming⟩)
    (hends : Stroke.Forms isMarketOpen ⟨symbol, tf, store, point b forming⟩ ∨
      Stroke.Ends isMarketOpen c.live ⟨symbol, tf, store, point b forming⟩) :
    ∃ c', c.draw symbol tf store b forming = some c' ∧ Draws isMarketOpen calls bars c' ∧ c'.view.key = c.view.key ∧
      c'.series.getLast? = some (point b forming) := by
  obtain ⟨c', hc', hsound, hshows, hlast, hdrawn⟩ := h.shows.draw h.sound hb symbol tf store forming
  refine ⟨c', hc', ⟨hdrawn.trans h.drawn, h.inOrder, hsound, hshows, styled_draw h.sound hb hover hc',
    h.traced.draw hcall hkey hforms hends hc'⟩, ?_, ?_⟩
  · obtain ⟨series, -, rfl⟩ := Option.map_eq_some_iff.mp hc'
    rfl
  · obtain ⟨series, hupdate, hmem, -⟩ := h.sound.remember hb forming
    obtain ⟨p, hp, hpt⟩ := Option.map_eq_some_iff.mp (hsound.lastT.symm.trans hlast)
    unfold Pane.draw at hc'
    rw [hupdate] at hc'
    cases hc'
    rw [hp]
    rcases (hmem p).mp (List.mem_of_getLast? hp) with ⟨-, hlt⟩ | rfl
    · omega
    · rfl

/-- Before the forming candle is drawn, no older one has its style. -/
theorem Draws.settleLast (h : Draws isMarketOpen calls bars c) (hcall : (symbol, tf, store) ∈ calls)
    (hkey : c.view.key = keyOf symbol tf)
    (hf : f ∈ store.forming) (hle : ∀ t ∈ c.view.lastT, t ≤ bucketStart f.t tf.1.2) :
    ∃ c', c.settleLast isMarketOpen symbol tf store (bucketStart f.t tf.1.2) = some c' ∧
      Draws isMarketOpen calls bars c' ∧ c'.view.key = c.view.key ∧
      (∀ t ∈ c'.view.lastT, t ≤ bucketStart f.t tf.1.2) ∧
      ∀ p ∈ c'.series, p.forming = true → p.time = bucketStart f.t tf.1.2 := by
  unfold Pane.settleLast
  cases hlast : c.view.lastT with
  | none =>
    refine ⟨c, rfl, h, rfl, hle, fun p hp hforming => ?_⟩
    rw [(h.styled p hp hforming).1] at hlast
    cases hlast
  | some lastT =>
    have hlastT : lastT ≤ bucketStart f.t tf.1.2 := hle lastT hlast
    dsimp only
    split
    · next hold =>
      obtain ⟨x, hx⟩ := Option.isSome_iff_exists.mp (h.sound.newest lastT hlast)
      -- the candle that ends, and where it comes from
      obtain ⟨ended, hended, ht, hends⟩ : ∃ ended, (candleAt isMarketOpen tf store lastT none true).or
          (c.view.painted.get? lastT) = some ended ∧ ended.t = lastT ∧
            Stroke.Ends isMarketOpen c.live ⟨symbol, tf, store, point ended false⟩ := by
        cases hat : candleAt isMarketOpen tf store lastT none true with
        | some ended =>
          have ht := candleAt_t hat
          refine ⟨ended, rfl, ht, ⟨f, hf, ?_⟩, .inl ⟨ended, ?_, rfl⟩⟩
          · rw [point_time, ht]
            exact hold.1
          · rw [point_time, ht]
            exact hat
        | none =>
          have ht := (h.sound.painted lastT x hx).1
          obtain ⟨s, hs, hforms, hsame⟩ := h.traced.forming lastT hold.2 x hx
          refine ⟨x, by rw [Option.none_or, hx], ht, ⟨f, hf, ?_⟩, .inr ⟨?_, s, hs, hforms, ?_⟩⟩
          · rw [point_time, ht]
            exact hold.1
          · rw [point_time, ht]
            exact hat
          · rw [hsame]
            rfl
      rw [hended]
      dsimp only
      have hover : ∀ p ∈ c.series, p.forming = true → p.time = ended.t := by
        intro p hp hforming
        have hpt := (h.styled p hp hforming).1
        rw [hlast, Option.some_inj] at hpt
        omega
      have hb : ∀ t ∈ c.view.lastT, t ≤ ended.t := by
        intro t hmem
        rw [hlast] at hmem
        cases hmem
        exact ht.ge
      obtain ⟨c', hc', hdraws, hkey, hnewest⟩ := h.draw hb hover hcall hkey (fun hf => by cases hf) (.inr hends)
      refine ⟨c', hc', hdraws, hkey, ?_, ?_⟩
      · intro t hmem
        rw [hdraws.sound.lastT, hnewest] at hmem
        cases hmem
        rw [point_time, ht]
        exact hlastT
      · -- what had the style was drawn over
        intro p hp hforming
        have hlast' := (hdraws.styled p hp hforming).1
        rw [hdraws.sound.lastT, hnewest, Option.map_some, Option.some_inj] at hlast'
        have heq := eq_of_time hdraws.sound.asc hp (List.mem_of_getLast? hnewest) hlast'.symm
        rw [heq] at hforming
        cases hforming
    · next hold =>
      refine ⟨c, rfl, h, rfl, hle, fun p hp hforming => ?_⟩
      obtain ⟨hnewest, hat⟩ := h.styled p hp hforming
      rw [hlast, Option.some_inj] at hnewest
      subst hnewest
      by_contra hne
      exact hold ⟨lt_of_le_of_ne hlastT hne, hat⟩

/-- The newest candle is that of the forming minute, unless there is a newer one. -/
def Current (isMarketOpen : Int → Bool) (tf : Timeframe) (store : Live K) (series : List (Point K)) : Prop :=
  ∀ f ∈ store.forming, ∃ p, series.getLast? = some p ∧
    (p = formingPoint isMarketOpen tf store f ∨ bucketStart f.t tf.1.2 < p.time)

/-- **The live painter** draws on the last bar and after it. -/
theorem Draws.paintLive (h : Draws isMarketOpen calls bars c) (hcall : (symbol, tf, store) ∈ calls) :
    ∃ c', c.paintLive isMarketOpen symbol tf store = some c' ∧ Draws isMarketOpen calls bars c' ∧
      c'.view.key = c.view.key ∧ (c.view.key = keyOf symbol tf → Current isMarketOpen tf store c'.series) := by
  unfold Pane.paintLive
  by_cases hkey : c.view.key = keyOf symbol tf
  · rw [if_neg (not_not.mpr hkey)]
    cases hforming : store.forming with
    | none => exact ⟨c, rfl, h, rfl, fun _ f hf => by rw [hforming] at hf; cases hf⟩
    | some f =>
      have hf : f ∈ store.forming := hforming
      have honly : ∀ g ∈ store.forming, g = f := fun g hg => by
        rw [hforming] at hg
        exact (Option.some.inj hg).symm
      dsimp only
      by_cases hold : c.view.lastT.any (bucketStart f.t tf.1.2 < ·) = true
      · rw [if_pos hold]
        refine ⟨c, rfl, h, rfl, fun _ g hg => ?_⟩
        obtain ⟨t, ht, hlt⟩ := (Option.any_eq_true ..).mp hold
        obtain ⟨p, hp, hpt⟩ := Option.map_eq_some_iff.mp (h.sound.lastT.symm.trans ht)
        refine ⟨p, hp, .inr ?_⟩
        rw [honly g hg, hpt]
        exact of_decide_eq_true hlt
      · rw [if_neg hold]
        have hle : ∀ t ∈ c.view.lastT, t ≤ bucketStart f.t tf.1.2 := by
          intro t ht
          by_contra hlt
          exact hold ((Option.any_eq_true ..).mpr ⟨t, ht, decide_eq_true (not_le.mp hlt)⟩)
        obtain ⟨c₁, hc₁, h₁, hkey₁, hle₁, hover⟩ := h.settleLast hcall hkey hf hle
        rw [hc₁, Option.bind_some]
        have hforms : Stroke.Forms isMarketOpen ⟨symbol, tf, store, formingPoint isMarketOpen tf store f⟩ := ⟨f, hf, rfl⟩
        let extended := extend (candleAt isMarketOpen tf store (bucketStart f.t tf.1.2) (some f.t) false) f
          (bucketStart f.t tf.1.2)
        have ht : extended.t = bucketStart f.t tf.1.2 := extend_t ..
        have hb : ∀ t ∈ c₁.view.lastT, t ≤ extended.t := by
          rw [ht]
          exact hle₁
        have hover' : ∀ p ∈ c₁.series, p.forming = true → p.time = extended.t := by
          rw [ht]
          exact hover
        obtain ⟨c', hc', h', hkey', hnewest⟩ := h₁.draw hb hover' hcall (hkey₁.trans hkey) (fun _ => hforms) (.inl hforms)
        refine ⟨c', hc', h', hkey'.trans hkey₁, fun _ g hg => ⟨_, hnewest, .inl ?_⟩⟩
        rw [honly g hg]
        rfl
  · rw [if_pos hkey]
    exact ⟨c, rfl, h, rfl, fun heq => absurd heq hkey⟩

end

/-! ## The sync -/

section

variable [DecidableEq K] {bars : List (Candle K)} {c c' : Pane K}

/-- The array keeps what the series shows before its own last candle: a bar at each time, and as it is
shown each bar that is as it was drawn. -/
structure Keeps (bars : List (Candle K)) (c : Pane K) : Prop where
  times : ∀ last ∈ bars.getLast?, ∀ p ∈ c.series, p.time < last.t → ∃ b ∈ bars, b.t = p.time
  settled : ∀ last ∈ bars.getLast?, ∀ b ∈ shared bars c.view.drawn, b.t < last.t → plain b ∈ c.series

/-- A bar that is not updated is before every update, and is shown or is the last one drawn. -/
theorem Shows.kept_or_updated (h : Shows c.view.drawn c.series c.painted) (hs : Sound c.series c.view)
    (hstyled : Styled c.series c.view) (hdrawn : InOrder c.view.drawn) (hbars : InOrder bars)
    {updates : List (Candle K)}
    (hupdates : c.view.updatesOf (afterCommon bars c.view.drawn) = some updates) {dlast : Candle K}
    (hdlast : c.view.drawn.getLast? = some dlast) {b : Candle K} (hb : b ∈ bars) :
    b ∈ updates ∨ (∀ u ∈ updates, b.t < u.t) ∧
      (plain b ∈ c.series ∨ b ∈ shared bars c.view.drawn ∧ plain b = plain dlast) := by
  obtain ⟨hsub, hnew, hpassed⟩ := updatesOf_eq_some hupdates
  have hsplit := shared_append bars c.view.drawn
  have horder : InOrder (shared bars c.view.drawn ++ afterCommon bars c.view.drawn) := by
    rw [hsplit]
    exact hbars
  obtain ⟨-, -, hbefore⟩ := List.pairwise_append.mp horder
  rcases List.mem_append.mp (hsplit.symm ▸ hb) with hb | hb
  · -- it was drawn as it is
    refine Or.inr ⟨fun u hu => hbefore b hb u (hsub.subset hu), ?_⟩
    obtain ⟨d, hd, hdb⟩ := mem_shared hb
    rcases hdrawn.lt_or_eq hdlast hd with hlt | rfl
    · refine Or.inl ?_
      rw [← hdb]
      exact h.older dlast hdlast d hd hlt
    · exact Or.inr ⟨hb, hdb.symm⟩
  · -- it is updated, or it is passed over as it was painted
    rcases hpassed b hb with hu | ⟨⟨t, ht, hlt⟩, x, hx, hbx⟩
    · exact Or.inl hu
    · refine Or.inr ⟨fun u hu => hlt.trans_le (hnew u hu t ht), Or.inl ?_⟩
      obtain ⟨hxt, forming, hin⟩ := hs.painted _ x hx
      cases forming with
      | false =>
        rw [hbx]
        exact hin
      | true =>
        -- only the newest has the other style, and this one is older
        have hnewest := (hstyled _ hin rfl).1
        have ht' : c.view.lastT = some t := ht
        rw [ht', Option.some_inj, point_time] at hnewest
        omega

omit [DecidableEq K] in
/-- Bars that were all drawn before the last one are fewer than those drawn. -/
theorem Shows.length_lt (h : Shows c.view.drawn c.series c.painted) (hbars : InOrder bars)
    {dlast : Candle K} (hdlast : c.view.drawn.getLast? = some dlast)
    (hall : ∀ b ∈ bars, b.t < dlast.t ∧ plain b ∈ c.series) : bars.length < c.view.drawn.length := by
  have hfew : (dlast.t :: bars.map Candle.t).Subperm (c.view.drawn.map Candle.t) := by
    refine List.subperm_of_subset (List.nodup_cons.mpr ⟨fun hin => ?_, ?_⟩) fun t ht => ?_
    · obtain ⟨b, hb, hbt⟩ := List.mem_map.mp hin
      have := (hall b hb).1
      omega
    · exact List.pairwise_map.mpr (hbars.imp fun hlt => ne_of_lt hlt)
    · rcases List.mem_cons.mp ht with rfl | ht
      · exact List.mem_map_of_mem (List.mem_of_getLast? hdlast)
      · obtain ⟨b, hb, rfl⟩ := List.mem_map.mp ht
        obtain ⟨d, hd, hdb⟩ := h.only dlast hdlast _ (hall b hb).2 (by rw [plain_time]; exact (hall b hb).1)
        exact List.mem_map.mpr ⟨d, hd, congrArg Point.time hdb⟩
  have hcount := hfew.length_le
  rw [List.length_cons, List.length_map, List.length_map] at hcount
  omega

/-- The sync draws the array as updates. -/
def Pane.incremental (c : Pane K) (bars : List (Candle K)) : Bool :=
  !c.view.mustRedraw bars && (c.view.updatesOf (afterCommon bars c.view.drawn)).isSome

/-- The updates of an incremental sync: bars of the array, over the series as it was. -/
theorem Pane.drawBars_updates (hs : Sound c.series c.view) (hbars : InOrder bars)
    (hinc : c.incremental bars = true) :
    ∃ updates, c.view.updatesOf (afterCommon bars c.view.drawn) = some updates ∧ updates.Sublist bars ∧
      ∃ c', c.drawBars bars = some c' ∧ updates.foldlM Pane.updateOne c = some c' ∧
        Sound c'.series c'.view ∧ c'.live = c.live ∧ ∀ q, q ∈ c'.series ↔
          (∃ u ∈ updates, plain u = q) ∨ q ∈ c.series ∧ ∀ u ∈ updates, q.time < u.t := by
  simp only [Pane.incremental, Bool.and_eq_true, Bool.not_eq_true', Option.isSome_iff_exists] at hinc
  obtain ⟨hmust, updates, hupdates⟩ := hinc
  obtain ⟨hsub, hnew, -⟩ := updatesOf_eq_some hupdates
  have hsub : updates.Sublist bars := by
    refine hsub.trans ?_
    conv_rhs => rw [← shared_append bars c.view.drawn]
    exact List.sublist_append_right _ _
  obtain ⟨c', hc', hs', hlive, hmem⟩ := hs.updates (hbars.sublist hsub) hnew
  refine ⟨updates, hupdates, hsub, c', ?_, hc', hs', hlive, hmem⟩
  unfold Pane.drawBars
  rw [hmust, if_neg Bool.false_ne_true, hupdates]
  exact hc'

theorem Pane.incremental_some (hinc : c.incremental bars = true) :
    (∃ last, bars.getLast? = some last) ∧ (∃ dlast, c.view.drawn.getLast? = some dlast) ∧
      c.view.drawn.length ≤ bars.length := by
  simp only [Pane.incremental, Bool.and_eq_true, Bool.not_eq_true', View.mustRedraw, decide_eq_false_iff_not,
    not_or, not_lt] at hinc
  obtain ⟨⟨hne, hlen, -⟩, -⟩ := hinc
  refine ⟨Option.ne_none_iff_exists'.mp fun hnone => hne ?_,
    Option.ne_none_iff_exists'.mp fun hnone => hne ?_, hlen⟩
  · rw [List.getLast?_eq_none_iff.mp hnone, List.length_nil] at hlen
    omega
  · rw [List.getLast?_eq_none_iff.mp hnone]
    rfl

/-- What an incremental sync leaves of the bars: each one that is not the last, and of the last one what
was shown of it. -/
theorem Shows.incremental (h : Shows c.view.drawn c.series c.painted) (hs : Sound c.series c.view)
    (hstyled : Styled c.series c.view) (hdrawn : InOrder c.view.drawn) (hbars : InOrder bars)
    (hkeeps : Keeps bars c) (hinc : c.incremental bars = true) (hc' : c.drawBars bars = some c') :
    Shows bars c'.series c'.painted := by
  obtain ⟨updates, hupdates, hsub, c₁, hc₁, -, hs', hlive, hmem⟩ := c.drawBars_updates hs hbars hinc
  obtain rfl : c₁ = c' := Option.some.inj (hc₁.symm.trans hc')
  obtain ⟨⟨last', hl'⟩, ⟨dlast, hdlast⟩, hlen⟩ := Pane.incremental_some hinc
  have hpainted : c₁.painted = c.painted := congrArg (List.map Stroke.point) hlive
  have hkept : ∀ b ∈ bars, b ∈ updates ∨ (∀ u ∈ updates, b.t < u.t) ∧
      (plain b ∈ c.series ∨ b ∈ shared bars c.view.drawn ∧ plain b = plain dlast) :=
    fun b hb => h.kept_or_updated hs hstyled hdrawn hbars hupdates hdlast hb
  have holder : ∀ last ∈ bars.getLast?, ∀ b ∈ bars, b.t < last.t → plain b ∈ c₁.series := by
    intro last hl b hb hlt
    rcases hkept b hb with hu | ⟨hb', hin | ⟨hshared, -⟩⟩
    · exact (hmem _).mpr (Or.inl ⟨b, hu, rfl⟩)
    · exact (hmem _).mpr (Or.inr ⟨hin, hb'⟩)
    · exact (hmem _).mpr (Or.inr ⟨hkeeps.settled last hl b hshared hlt, hb'⟩)
  refine ⟨holder, fun last hl => ?_, fun last hl p hp hlt => ?_, fun p hp hbeyond => ?_⟩
  · have hb : last ∈ bars := List.mem_of_getLast? hl
    rcases hkept last hb with hu | ⟨hb', hin | ⟨-, hlast⟩⟩
    · exact ⟨plain last, (hmem _).mpr (Or.inl ⟨last, hu, rfl⟩), rfl, Or.inl rfl⟩
    · exact ⟨plain last, (hmem _).mpr (Or.inr ⟨hin, hb'⟩), rfl, Or.inl rfl⟩
    · have ht : last.t = dlast.t := congrArg Point.time hlast
      obtain ⟨p, hp, hpt, hdraw⟩ := h.newest dlast hdlast
      rw [← ht] at hpt
      refine ⟨p, (hmem p).mpr (Or.inr ⟨hp, fun u hu => hpt ▸ hb' u hu⟩), hpt, ?_⟩
      rw [hlast, hpainted]
      exact hdraw
  · rcases (hmem p).mp hp with ⟨u, hu, rfl⟩ | ⟨hp', -⟩
    · exact ⟨u, hsub.subset hu, rfl⟩
    · obtain ⟨b, hb, hbt⟩ := hkeeps.times last hl p hp' hlt
      exact ⟨b, hb, eq_of_time hs'.asc (holder last hl b hb (hbt ▸ hlt)) hp hbt⟩
  · rw [hpainted]
    have hbelow : ∀ b ∈ bars, b.t < p.time := by
      intro b hb
      have hlast := hbeyond last' hl'
      rcases hbars.lt_or_eq hl' hb with hlt | rfl <;> omega
    rcases (hmem p).mp hp with ⟨u, hu, rfl⟩ | ⟨hp', hbefore'⟩
    · exact absurd (hbelow u (hsub.subset hu)) (lt_irrefl _)
    · refine h.beyond p hp' fun d hd => ?_
      rw [hdlast] at hd
      cases hd
      by_contra hle
      rw [not_lt] at hle
      -- every bar would be one drawn before the last, so there would be fewer of them
      refine absurd (h.length_lt hbars hdlast fun b hb => ?_) (not_lt.mpr hlen)
      have hbp := hbelow b hb
      refine ⟨hbp.trans_le hle, ?_⟩
      rcases hkept b hb with hu | ⟨-, hin | ⟨-, hlast⟩⟩
      · have := hbefore' b hu
        omega
      · exact hin
      · have : b.t = dlast.t := congrArg Point.time hlast
        omega

/-- What is shown of the bars is an array the sync kept. -/
theorem Shows.keeps (hs : Sound c.series c.view) (hbars : InOrder bars) (hinc : c.incremental bars = true)
    (hc' : c.drawBars bars = some c') (h : Shows bars c'.series c'.painted) : Keeps bars c := by
  obtain ⟨updates, hupdates, hsub, c₁, hc₁, -, -, -, hmem⟩ := c.drawBars_updates hs hbars hinc
  obtain rfl : c₁ = c' := Option.some.inj (hc₁.symm.trans hc')
  obtain ⟨hsub', hnew, -⟩ := updatesOf_eq_some hupdates
  refine ⟨fun last hl p hp hlt => ?_, fun last hl b hb hlt => ?_⟩
  · by_cases hover : ∀ u ∈ updates, p.time < u.t
    · obtain ⟨b, hb, rfl⟩ := h.only last hl p ((hmem p).mpr (Or.inr ⟨hp, hover⟩)) hlt
      exact ⟨b, hb, rfl⟩
    · -- an update replaced it, and no update is older than the newest
      push Not at hover
      obtain ⟨u, hu, hle⟩ := hover
      obtain ⟨t, ht, hpt⟩ := hs.le_lastT hp
      have := hnew u hu t ht
      exact ⟨u, hsub.subset hu, by omega⟩
  · have horder : InOrder (shared bars c.view.drawn ++ afterCommon bars c.view.drawn) := by
      rw [shared_append]
      exact hbars
    have hbars' : b ∈ bars := by
      rw [← shared_append bars c.view.drawn]
      exact List.mem_append_left _ hb
    rcases (hmem _).mp (h.older last hl b hbars' hlt) with ⟨u, hu, heq⟩ | ⟨hin, -⟩
    · have hlt' := (List.pairwise_append.mp horder).2.2 b hb u (hsub'.subset hu)
      have : u.t = b.t := congrArg Point.time heq
      omega
    · exact hin

theorem styled_updates (hs : Sound c.series c.view) (hstyled : Styled c.series c.view) (hbars : InOrder bars)
    (hinc : c.incremental bars = true) (hc' : c.drawBars bars = some c') (h : Shows bars c'.series c'.painted) :
    Styled c'.series c'.view := by
  obtain ⟨updates, -, hsub, c₁, hc₁, hfold, -, -, hmem⟩ := c.drawBars_updates hs hbars hinc
  obtain rfl : c₁ = c' := Option.some.inj (hc₁.symm.trans hc')
  obtain ⟨⟨last, hl⟩, -⟩ := Pane.incremental_some hinc
  intro p hp hforming
  rcases (hmem p).mp hp with ⟨u, -, rfl⟩ | ⟨hp', hbefore⟩
  · cases hforming
  · cases updates with
    | nil =>
      cases hfold
      exact hstyled p hp' hforming
    | cons u updates =>
      -- it would be older than an update, and so than the last bar
      have hu : p.time < u.t := hbefore u (List.mem_cons_self ..)
      have hle : u.t ≤ last.t := by
        rcases hbars.lt_or_eq hl (hsub.subset (List.mem_cons_self ..)) with hlt | rfl
        · exact hlt.le
        · exact le_rfl
      rw [h.plain_of_lt hl hp (hu.trans_le hle)] at hforming
      cases hforming

end

section

variable [DecidableEq K] [LT K] [DecidableLT K] {isMarketOpen : Int → Bool} {calls : List (String × Timeframe × Live K)}
  {bars bars' : List (Candle K)} {c c' : Pane K}

/-- **An incremental sync** leaves what the bars show exactly where the array keeps what is shown. -/
theorem Draws.shows_iff_keeps (h : Draws isMarketOpen calls bars c) (hbars' : InOrder bars')
    (hinc : c.incremental bars' = true) :
    ∃ c', c.drawBars bars' = some c' ∧ (SeriesOf bars' c' ↔ Keeps bars' c) := by
  obtain ⟨-, -, -, c', hc', -, hs', -⟩ := c.drawBars_updates h.sound hbars' hinc
  refine ⟨c', hc', ?_⟩
  rw [seriesOf_iff hbars' hs'.asc]
  refine ⟨fun hshows => hshows.keeps h.sound hbars' hinc hc', fun hkeeps => ?_⟩
  obtain ⟨rfl, hinOrder, hs, hshows, hstyled, -⟩ := h
  exact hshows.incremental hs hstyled hinOrder hbars' hkeeps hinc hc'

/-- **Incremental drawing and a full redraw** leave what the bars show. -/
theorem Draws.drawBars (h : Draws isMarketOpen calls bars c) (hbars' : InOrder bars')
    (hkeeps : c.incremental bars' = true → Keeps bars' c) :
    ∃ c', c.drawBars bars' = some c' ∧ c'.view.key = c.view.key ∧
      Draws isMarketOpen calls bars' { c' with view := { c'.view with drawn := bars' } } := by
  have hredraw : (c.redraw bars').view.key = c.view.key := key_foldl_remember ..
  cases hinc : c.incremental bars' with
  | true =>
    obtain ⟨c', hc', hiff⟩ := h.shows_iff_keeps hbars' hinc
    have hshows := (hiff.mpr (hkeeps hinc)).shows hbars'
    have hstyled := styled_updates h.sound h.styled hbars' hinc hc' hshows
    obtain ⟨updates, -, -, c₁, hc₁, hfold, hs, -⟩ := c.drawBars_updates h.sound hbars' hinc
    obtain rfl : c₁ = c' := Option.some.inj (hc₁.symm.trans hc')
    obtain ⟨hstrokes, hcalls, hkeys, hforming⟩ := h.traced.updates hfold
    exact ⟨c₁, hc₁, key_updates hfold, rfl, hbars', ⟨hs.asc, hs.lastT, hs.few, hs.newest, hs.painted⟩, hshows,
      hstyled, hstrokes, hcalls, hkeys, hforming⟩
  | false =>
    refine ⟨c.redraw bars', ?_, hredraw, c.redraw_draws hbars'⟩
    unfold Pane.drawBars
    unfold Pane.incremental at hinc
    by_cases hmust : c.view.mustRedraw bars' = true
    · rw [if_pos hmust]
    · rw [if_neg hmust]
      rw [Bool.not_eq_true] at hmust
      rw [hmust, Bool.not_false, Bool.true_and, Option.isSome_eq_false_iff, Option.isNone_iff_eq_none] at hinc
      rw [hinc]

end

/-! ## Runs -/

inductive Action (K : Type)
  | sync (symbol : String) (tf : Timeframe) (bars : List (Candle K)) (store : Live K)
  | paint (symbol : String) (tf : Timeframe) (store : Live K)

namespace Action

/-- The bars array after an action. -/
def bars (before : List (Candle K)) : Action K → List (Candle K)
  | .sync _ _ bars _ => bars
  | .paint .. => before

/-- What the live painter is called with. -/
def call : Action K → String × Timeframe × Live K
  | .sync symbol tf _ store => (symbol, tf, store)
  | .paint symbol tf store => (symbol, tf, store)

/-- A paint is of what the chart shows; a sync makes it so. -/
def Applies (c : Pane K) : Action K → Prop
  | .sync .. => True
  | .paint symbol tf _ => c.view.key = keyOf symbol tf

end Action

section

variable [LT K] [DecidableLT K] [DecidableEq K] {isMarketOpen : Int → Bool}
  {calls : List (String × Timeframe × Live K)}

def step (isMarketOpen : Int → Bool) (c : Pane K) : Action K → Option (Pane K)
  | .sync symbol tf bars store => c.sync isMarketOpen symbol tf bars store
  | .paint symbol tf store => c.paintLive isMarketOpen symbol tf store

/-- The arrays are in order, and one that is drawn as updates keeps what is shown. -/
def Supersedes (c : Pane K) : Action K → Prop
  | .sync symbol tf bars _ => InOrder bars ∧
    ((c.viewFor (keyOf symbol tf)).incremental bars = true → Keeps bars (c.viewFor (keyOf symbol tf)))
  | .paint .. => True

omit [DecidableEq K] in
theorem draws_fresh : Draws isMarketOpen calls [] (Pane.fresh : Pane K) where
  drawn := rfl
  inOrder := .nil
  sound := ⟨.nil, rfl, Nat.zero_le _, fun _ ht => (by cases ht), fun _ _ hx => (by cases hx)⟩
  shows := ⟨fun _ hl => (by cases hl), fun _ hl => (by cases hl), fun _ hl => (by cases hl), fun _ hp => (by cases hp)⟩
  styled := fun _ hp => by cases hp
  traced := ⟨fun _ hs => (by cases hs), fun _ hs => (by cases hs), fun _ hs => (by cases hs), fun _ ht => (by cases ht)⟩

/-- A view of another pair or timeframe is drawn in full. -/
theorem Draws.viewFor {bars bars' : List (Candle K)} {c : Pane K} (h : Draws isMarketOpen calls bars c)
    (hbars' : InOrder bars') {key : String}
    (hkeeps : (c.viewFor key).incremental bars' = true → Keeps bars' (c.viewFor key)) :
    ∃ c', (c.viewFor key).drawBars bars' = some c' ∧ c'.view.key = key ∧
      Draws isMarketOpen calls bars' { c' with view := { c'.view with drawn := bars' } } := by
  unfold Pane.viewFor at hkeeps ⊢
  by_cases hkey : c.view.key = key
  · rw [if_pos hkey] at hkeeps ⊢
    obtain ⟨c', hc', hkey', hdraws⟩ := h.drawBars hbars' hkeeps
    exact ⟨c', hc', hkey'.trans hkey, hdraws⟩
  · rw [if_neg hkey]
    exact ⟨_, if_pos rfl, key_foldl_remember .., Pane.redraw_draws _ hbars'⟩

/-- **One step.** Nothing is refused, and the chart draws the bars array. -/
theorem Draws.step {bars : List (Candle K)} {c : Pane K} (h : Draws isMarketOpen calls bars c) {a : Action K}
    (hcall : a.call ∈ calls) (ha : Supersedes c a) :
    ∃ c', Chart.step isMarketOpen c a = some c' ∧ Draws isMarketOpen calls (a.bars bars) c' ∧
      (a.Applies c' → Current isMarketOpen a.call.2.1 a.call.2.2 c'.series) := by
  cases a with
  | paint symbol tf store =>
    obtain ⟨c', hc', h', hkey, hcurrent⟩ := h.paintLive hcall
    exact ⟨c', hc', h', fun happ => hcurrent (hkey.symm.trans happ)⟩
  | sync symbol tf bars' store =>
    obtain ⟨hbars', hkeeps⟩ := ha
    obtain ⟨c₁, hc₁, hkey₁, h₁⟩ := h.viewFor hbars' hkeeps
    obtain ⟨c', hc', h', -, hcurrent⟩ := h₁.paintLive hcall
    refine ⟨c', ?_, h', fun _ => hcurrent hkey₁⟩
    show ((c.viewFor (keyOf symbol tf)).drawBars bars').bind _ = some c'
    rw [hc₁]
    exact hc'

theorem Draws.run {bars : List (Candle K)} {c : Pane K} (h : Draws isMarketOpen calls bars c)
    {acts : List (Action K)} (hcalls : ∀ a ∈ acts, a.call ∈ calls)
    (hacts : Lts.Meets (Chart.step isMarketOpen) Supersedes c acts) :
    ∃ c', Lts.exec (Chart.step isMarketOpen) c acts = some c' ∧
      Draws isMarketOpen calls (acts.foldl Action.bars bars) c' ∧
      ∀ a ∈ acts.getLast?, a.Applies c' → Current isMarketOpen a.call.2.1 a.call.2.2 c'.series := by
  induction acts generalizing bars c with
  | nil => exact ⟨c, rfl, h, fun _ ha => by cases ha⟩
  | cons a acts ih =>
    obtain ⟨c₁, hc₁, h₁, hcurrent⟩ := h.step (hcalls a (List.mem_cons_self ..)) hacts.1
    obtain ⟨c', hc', h', hcurrent'⟩ :=
      ih h₁ (fun a' ha' => hcalls a' (List.mem_cons_of_mem _ ha')) (hacts.2 c₁ hc₁)
    refine ⟨c', ?_, h', ?_⟩
    · rw [Lts.exec, hc₁]
      exact hc'
    · cases acts with
      | nil =>
        cases hc'
        rintro _ ⟨⟩
        exact hcurrent
      | cons a' acts =>
        intro last hlast
        rw [List.getLast?_cons_cons] at hlast
        exact hcurrent' last hlast

/-- The chart of a bars array, and where its candles come from. -/
structure Shown (isMarketOpen : Int → Bool) (calls : List (String × Timeframe × Live K)) (bars : List (Candle K))
    (c : Pane K) : Prop where
  series : SeriesOf bars c
  /-- At most the newest candle has the style of one still forming. -/
  forming : ∀ p ∈ c.series, p.forming = true → c.series.getLast? = some p
  /-- The live painter drew the candle of the forming minute's bucket, or one that ended. -/
  strokes : ∀ s ∈ c.live, s.Forms isMarketOpen ∨ s.Ends isMarketOpen c.live
  calls : ∀ s ∈ c.live, (s.symbol, s.tf, s.store) ∈ calls ∧ keyOf s.symbol s.tf = c.view.key

omit [DecidableEq K] in
theorem Draws.shown {bars : List (Candle K)} {c : Pane K} (h : Draws isMarketOpen calls bars c) :
    Shown isMarketOpen calls bars c where
  series := (seriesOf_iff h.inOrder h.sound.asc).mpr h.shows
  forming := by
    intro p hp hforming
    have hlast := (h.styled p hp hforming).1
    obtain ⟨q, hq, hqt⟩ := Option.map_eq_some_iff.mp (h.sound.lastT.symm.trans hlast)
    rw [hq, eq_of_time h.sound.asc (List.mem_of_getLast? hq) hp hqt]
  strokes := h.traced.strokes
  calls := fun s hs => ⟨h.traced.calls s hs, h.traced.keys s hs⟩

end

/-! ### Runs on fixed inputs -/

/-- A candle at one price. -/
def flat (t price : Int) : Candle Int := ⟨t, price, price, price, price, 1, "stream"⟩

def oneMinute : Timeframe := ⟨("1m", 60), by decide⟩

def fiveMinutes : Timeframe := ⟨("5m", 300), by decide⟩

/-- No minute is forming. -/
def still : Live Int := ⟨none, [], [], 0⟩

instance (bars : List (Candle Int)) : Decidable (InOrder bars) :=
  inferInstanceAs (Decidable (bars.Pairwise _))

instance (bars : List (Candle Int)) (c : Pane Int) : Decidable (Keeps bars c) :=
  decidable_of_iff ((∀ last ∈ bars.getLast?, ∀ p ∈ c.series, p.time < last.t → ∃ b ∈ bars, b.t = p.time) ∧
    ∀ last ∈ bars.getLast?, ∀ b ∈ shared bars c.view.drawn, b.t < last.t → plain b ∈ c.series)
    ⟨fun h => ⟨h.1, h.2⟩, fun h => ⟨h.times, h.settled⟩⟩

instance (c : Pane Int) : (a : Action Int) → Decidable (Supersedes c a)
  | .sync .. => inferInstanceAs (Decidable (_ ∧ (_ → _)))
  | .paint .. => isTrue trivial

/-- The first eleven minutes. -/
def elevenMinutes : List (Candle Int) := (List.range 11).map fun i => flat (60 * i) 1

/-- The second of them taken away, and the minute that was forming. -/
def thinned : List (Candle Int) := elevenMinutes.eraseIdx 1 ++ [flat 660 3]

/-- A minute is removed in the middle while the forming one becomes a bar, corrected, and the next one
forms. -/
def thinnedInTurn : List (Action Int) :=
  [.sync "EURUSD" oneMinute elevenMinutes still,
    .paint "EURUSD" oneMinute ⟨some (flat 660 2), elevenMinutes, [], 661000⟩,
    .sync "EURUSD" oneMinute thinned ⟨some (flat 720 4), thinned, [], 721000⟩]

/-- The bars, in whatever style, and at most one candle newer than the last of them. -/
def Exact (bars : List (Candle Int)) (series : List (Point Int)) : Prop :=
  ∃ newer, series.map (fun p => { p with forming := false }) = bars.map plain ++ newer ∧ newer.length ≤ 1

/-- Two minutes begin before the first of them is in the array. -/
def aheadTwice : List (Action Int) :=
  [.sync "EURUSD" oneMinute [flat 0 1] still,
    .paint "EURUSD" oneMinute ⟨some (flat 60 2), [flat 0 1], [], 61000⟩,
    .paint "EURUSD" oneMinute ⟨some (flat 120 3), [flat 0 1, flat 60 2], [], 121000⟩,
    .sync "EURUSD" oneMinute [flat 0 1] ⟨some (flat 120 3), [flat 0 1, flat 60 2], [], 121000⟩]

/-- A minute removed and another one added between two syncs, within what is remembered as drawn. -/
def removed : List (Action Int) :=
  [.sync "EURUSD" oneMinute [flat 0 1, flat 60 1, flat 120 1] still,
    .sync "EURUSD" oneMinute [flat 0 1, flat 120 1, flat 180 1] still]

/-- A forming minute that never becomes a bar. -/
def neverSealed : List (Action Int) :=
  [.sync "EURUSD" oneMinute [flat 0 1] still,
    .paint "EURUSD" oneMinute ⟨some (flat 60 2), [flat 0 1], [], 61000⟩,
    .sync "EURUSD" oneMinute [flat 0 1, flat 120 1] still]

end FxTracker.Web.Chart
