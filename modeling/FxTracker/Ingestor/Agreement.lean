import FxTracker.Lib.Windows
import FxTracker.Ingestor.Pipeline
import FxTracker.Worker.ExactlyOnce

/-!
# The live bar and the stored bar

The pipeline keeps one bucket open and puts every tick into it that is not of a later one; the persister keeps
a bucket for each minute it reads. Both read the same ticks (`IngestPipeline.handle`,
`Persister._ingest_entry`).

* `mirrors_handleAll` — a pipeline rolls the ticks of a symbol through one open window
* `live_bar_agrees` — its bars are those of the ticks of their minutes, and the rows of the table, exactly
  when the ticks come in the order of their minutes
* `late_tick_in_bar` — a bar that counts a tick of an earlier minute
-/

namespace FxTracker

variable {K : Type}

/-- The prices of a bar, as a bar of prices. -/
def Bar.ohlc (bar : Bar K) : Ohlc K := ⟨bar.opening, bar.high, bar.low, bar.close, bar.tickCount⟩

def BucketAccumulator.ohlc (acc : BucketAccumulator K) : Ohlc K :=
  ⟨acc.opening, acc.high, acc.low, acc.close, acc.tickCount⟩

namespace Ingestor

open Worker

/-- The bucket a tick is of. -/
def Tick.bucket (bucketSeconds : Int) (tick : Tick K) : Int :=
  (floorToBucket tick.tsEvent bucketSeconds).getD 0

def ticksOf (symbol : String) (ticks : List (Tick K)) : List (Tick K) :=
  ticks.filter fun tick => tick.symbol = symbol

/-- The bars that were sealed of a symbol. -/
def barsOf (symbol : String) (ws : List (Tick K × Written K)) : List (Bar K) :=
  ws.filterMap fun w => if w.1.symbol = symbol then w.2.bar.map Prod.fst else none

namespace IngestPipeline

variable [FloatMath K] [LT K] [DecidableLT K]

/-- One more tick, and what it wrote. -/
def handleNext (cfg : IngestConfig K) (done : IngestPipeline K × List (Tick K × Written K)) (tick : Tick K) :
    Option (IngestPipeline K × List (Tick K × Written K)) :=
  (done.1.handle cfg tick).map fun (p, written) => (p, done.2 ++ (written.map fun w => (tick, w)).toList)

/-- The ticks of a leadership: those that are not dropped, with what they wrote. -/
def handleAll (cfg : IngestConfig K) (p : IngestPipeline K) (ticks : List (Tick K)) :
    Option (IngestPipeline K × List (Tick K × Written K)) :=
  ticks.foldlM (handleNext cfg) (p, [])

theorem handleAll_concat {cfg : IngestConfig K} {p p' : IngestPipeline K} {ticks : List (Tick K)}
    {tick : Tick K} {ws : List (Tick K × Written K)}
    (h : p.handleAll cfg (ticks ++ [tick]) = some (p', ws)) :
    ∃ q vs written, p.handleAll cfg ticks = some (q, vs) ∧ q.handle cfg tick = some (p', written) ∧
      ws = vs ++ (written.map fun w => (tick, w)).toList := by
  unfold handleAll at h
  rw [List.foldlM_append] at h
  obtain ⟨⟨q, vs⟩, hq, h⟩ := Option.bind_eq_some_iff.mp h
  simp only [List.foldlM_cons, List.foldlM_nil, Option.bind_eq_bind, Option.bind_eq_some_iff] at h
  obtain ⟨done, hnext, hdone⟩ := h
  cases hdone
  obtain ⟨⟨p₁, written⟩, hhandle, heq⟩ := Option.map_eq_some_iff.mp hnext
  cases heq
  exact ⟨q, vs, written, hq, hhandle, rfl⟩

end IngestPipeline

/-! ## A pipeline rolls one window for each symbol -/

section Mirrors

variable [LinearOrder K] [FloatMath K]

/-- The accumulator is that of the window. -/
def Shows (symbol : String) (acc : BucketAccumulator K) (w : Int × List (Tick K)) : Prop :=
  acc.symbol = symbol ∧ acc.bucket = w.1 ∧ acc.ohlc.Describes (w.2.map Tick.mid)

/-- The open bucket of a symbol is the open window, and its bars are the closed ones. -/
structure Mirrors (cfg : IngestConfig K) (symbol : String) (p : IngestPipeline K)
    (ws : List (Tick K × Written K)) : Prop where
  current : Option.Rel (Shows symbol) (p.state symbol).bucket
    (roll (Tick.bucket cfg.bucketSeconds) (ticksOf symbol (ws.map Prod.fst))).current
  closed : List.Forall₂ (fun bar w => ∃ acc, bar = acc.sealBar ∧ Shows symbol acc w) (barsOf symbol ws)
    (roll (Tick.bucket cfg.bucketSeconds) (ticksOf symbol (ws.map Prod.fst))).closed

variable {cfg : IngestConfig K} {symbol : String} {p p' : IngestPipeline K} {tick : Tick K}
  {ws : List (Tick K × Written K)}

omit [LinearOrder K] [FloatMath K] in
theorem ticksOf_concat (w : Tick K × Written K) :
    ticksOf symbol ((ws ++ [w]).map Prod.fst) =
      ticksOf symbol (ws.map Prod.fst) ++ if w.1.symbol = symbol then [w.1] else [] := by
  unfold ticksOf
  rw [List.map_append, List.filter_append, List.map_singleton, List.filter_singleton]
  by_cases h : w.1.symbol = symbol <;> simp [h]

omit [LinearOrder K] [FloatMath K] in
theorem barsOf_concat (w : Tick K × Written K) :
    barsOf symbol (ws ++ [w]) =
      barsOf symbol ws ++ if w.1.symbol = symbol then (w.2.bar.map Prod.fst).toList else [] := by
  unfold barsOf
  rw [List.filterMap_append]
  by_cases h : w.1.symbol = symbol
  · cases hbar : w.2.bar <;> simp [h, hbar]
  · simp [h]

theorem ohlc_add {acc acc' : BucketAccumulator K} {price : K} {prev : Option K}
    (h : acc.add price prev = some acc') : acc'.ohlc = acc.ohlc.add price :=
  (Persister.add_eq_some h).2.2

/-- A bucket that was just opened shows its first tick. -/
theorem shows_opened {acc acc' : BucketAccumulator K} {prev : Option K} {bucketSeconds : Int}
    (hopened : BucketAccumulator.start tick.symbol tick.tsEvent tick.mid bucketSeconds .stream = some acc)
    (hadd : acc.add tick.mid prev = some acc') :
    Shows tick.symbol acc' (tick.bucket bucketSeconds, [tick]) := by
  obtain ⟨hsymbol, hbucket⟩ := BucketAccumulator.add_fixed hadd
  obtain ⟨bucket, hfloor, rfl⟩ := Option.map_eq_some_iff.mp hopened
  refine ⟨hsymbol, ?_, ?_⟩
  · show acc'.bucket = (floorToBucket tick.tsEvent bucketSeconds).getD 0
    rw [hbucket, hfloor]
    rfl
  · have hsingle : acc'.ohlc = Ohlc.single tick.mid := by
      rw [ohlc_add hadd]
      simp only [Ohlc.add, Ohlc.single, BucketAccumulator.ohlc, max_self, min_self, Nat.zero_add]
    rw [hsingle]
    exact Ohlc.describes_single tick.mid

theorem Shows.add {acc acc' : BucketAccumulator K} {w : Int × List (Tick K)} {prev : Option K}
    (h : Shows symbol acc w) (hadd : acc.add tick.mid prev = some acc') :
    Shows symbol acc' (w.1, w.2 ++ [tick]) := by
  obtain ⟨hsymbol, hbucket⟩ := BucketAccumulator.add_fixed hadd
  refine ⟨hsymbol.trans h.1, hbucket.trans h.2.1, ?_⟩
  rw [ohlc_add hadd, List.map_append]
  exact h.2.2.add tick.mid

/-- **One tick.** -/
theorem Mirrors.handle {w : Written K} (h : Mirrors cfg symbol p ws)
    (hhandle : p.handle cfg tick = some (p', some w)) : Mirrors cfg symbol p' (ws ++ [(tick, w)]) := by
  obtain ⟨bucketStart, acc, acc', heff⟩ := IngestPipeline.effect_of_handle hhandle
  obtain ⟨prev, hadd⟩ := heff.added
  by_cases hsymbol : tick.symbol = symbol
  · subst hsymbol
    have hkey : tick.bucket cfg.bucketSeconds = bucketStart := by
      unfold Tick.bucket
      rw [heff.floor]
      rfl
    have hroll : roll (Tick.bucket cfg.bucketSeconds)
        (ticksOf tick.symbol ((ws ++ [(tick, w)]).map Prod.fst)) =
          (roll (Tick.bucket cfg.bucketSeconds) (ticksOf tick.symbol (ws.map Prod.fst))).push
            (Tick.bucket cfg.bucketSeconds) tick := by
      rw [ticksOf_concat, if_pos rfl, roll_concat]
    have hbars : barsOf tick.symbol (ws ++ [(tick, w)]) =
        barsOf tick.symbol ws ++ (w.bar.map Prod.fst).toList := by
      rw [barsOf_concat, if_pos rfl]
    obtain ⟨hcurrent, hclosed⟩ := h
    generalize hr : roll (Tick.bucket cfg.bucketSeconds) (ticksOf tick.symbol (ws.map Prod.fst)) = r at *
    obtain ⟨closed, current⟩ := r
    rcases heff.kept_or_opened with
      ⟨hkept, hle, hbar⟩ | ⟨hopened, ⟨hnone, hbar⟩ | ⟨old, fed, hold, hlt, hbar, -⟩⟩
    · -- the tick goes into the open bucket
      rw [hkept] at hcurrent
      cases current with
      | none => cases hcurrent
      | some c =>
        cases hcurrent with
        | some hshows =>
          have hstay : ¬ c.1 < tick.bucket cfg.bucketSeconds := by
            rw [hkey, ← hshows.2.1]
            exact not_lt.mpr hle
          refine ⟨?_, ?_⟩
          · rw [hroll, heff.after, Windows.push]
            dsimp only
            rw [if_neg hstay]
            exact .some (hshows.add hadd)
          · rw [hroll, hbars, hbar, Windows.push]
            dsimp only
            rw [if_neg hstay, Option.map_none, Option.toList_none, List.append_nil]
            exact hclosed
    · -- it is the first
      rw [hnone] at hcurrent
      cases hcurrent
      refine ⟨?_, ?_⟩
      · rw [hroll, heff.after, Windows.push]
        exact .some (shows_opened hopened hadd)
      · rw [hroll, hbars, hbar, Option.map_none, Option.toList_none, List.append_nil, Windows.push]
        exact hclosed
    · -- it closes the open bucket
      rw [hold] at hcurrent
      cases current with
      | none => cases hcurrent
      | some c =>
        cases hcurrent with
        | some hshows =>
          have hclose : c.1 < tick.bucket cfg.bucketSeconds := by
            rw [hkey, ← hshows.2.1]
            exact hlt
          refine ⟨?_, ?_⟩
          · rw [hroll, heff.after, Windows.push]
            dsimp only
            rw [if_pos hclose]
            exact .some (shows_opened hopened hadd)
          · rw [hroll, hbars, hbar, Windows.push]
            dsimp only
            rw [if_pos hclose]
            exact List.rel_append hclosed (.cons ⟨old, rfl, hshows⟩ .nil)
  · -- a tick of another symbol
    refine ⟨?_, ?_⟩
    · rw [ticksOf_concat, if_neg hsymbol, List.append_nil, heff.others symbol (Ne.symm hsymbol)]
      exact h.current
    · rw [ticksOf_concat, barsOf_concat, if_neg hsymbol, if_neg hsymbol, List.append_nil, List.append_nil]
      exact h.closed

/-- **A leadership of ticks**, from a pipeline with no bucket of the symbol open. -/
theorem mirrors_handleAll {ticks : List (Tick K)} (hidle : (p.state symbol).bucket = none)
    (h : p.handleAll cfg ticks = some (p', ws)) : Mirrors cfg symbol p' ws := by
  induction ticks using List.reverseRecOn generalizing p' ws with
  | nil =>
    cases h
    refine ⟨?_, .nil⟩
    rw [hidle]
    exact .none
  | append_singleton ticks tick ih =>
    obtain ⟨q, vs, written, hq, hhandle, rfl⟩ := IngestPipeline.handleAll_concat h
    cases written with
    | none =>
      rw [(IngestPipeline.handle_dropped hhandle).1, Option.map_none, Option.toList_none, List.append_nil]
      exact ih hq
    | some w => exact (ih hq).handle hhandle

/-! ## The bars -/

omit [FloatMath K] in
theorem exists_of_forall₂ {α β : Type} {R : α → β → Prop} {l : List α} {l' : List β}
    (h : List.Forall₂ R l l') {a : α} (ha : a ∈ l) : ∃ b ∈ l', R a b := by
  induction h with
  | nil => cases ha
  | cons hab _ ih =>
    rcases List.mem_cons.mp ha with rfl | ha
    · exact ⟨_, List.mem_cons_self, hab⟩
    · obtain ⟨b, hb, hR⟩ := ih ha
      exact ⟨b, List.mem_cons_of_mem _ hb, hR⟩

/-- Every bar of the symbol is that of the ticks of its minute that were handled so far. -/
def BarsExact (cfg : IngestConfig K) (symbol : String) (ws : List (Tick K × Written K)) : Prop :=
  ∀ bar ∈ barsOf symbol ws, bar.ohlc.Describes
    ((ofKey (Tick.bucket cfg.bucketSeconds) bar.bucket (ticksOf symbol (ws.map Prod.fst))).map Tick.mid)

theorem Mirrors.barsExact (h : Mirrors cfg symbol p ws)
    (hord : InOrder (Tick.bucket cfg.bucketSeconds) (ticksOf symbol (ws.map Prod.fst))) :
    BarsExact cfg symbol ws := by
  intro bar hbar
  obtain ⟨w, hw, acc, rfl, -, hbucket, hdesc⟩ := exists_of_forall₂ h.closed hbar
  have hexact := (exact_of_inOrder hord).1 w hw
  unfold Exact at hexact
  rw [hexact, ← hbucket] at hdesc
  exact hdesc

/-- The ticks of a symbol that were handled by some point. -/
theorem exists_prefix {ticks : List (Tick K)} (h : p.handleAll cfg ticks = some (p', ws)) {pre : List (Tick K)}
    (hpre : pre <+: ticksOf symbol (ws.map Prod.fst)) :
    ∃ ticks₀ q vs, ticks₀ <+: ticks ∧ p.handleAll cfg ticks₀ = some (q, vs) ∧
      ticksOf symbol (vs.map Prod.fst) = pre := by
  induction ticks using List.reverseRecOn generalizing p' ws with
  | nil =>
    cases h
    exact ⟨[], p, [], List.prefix_refl _, rfl, (List.prefix_nil.mp hpre).symm⟩
  | append_singleton ticks tick ih =>
    obtain ⟨q, vs, written, hq, hhandle, rfl⟩ := IngestPipeline.handleAll_concat h
    have hearlier : pre <+: ticksOf symbol (vs.map Prod.fst) →
        ∃ ticks₀ q vs, ticks₀ <+: ticks ++ [tick] ∧ p.handleAll cfg ticks₀ = some (q, vs) ∧
          ticksOf symbol (vs.map Prod.fst) = pre := fun hpre => by
      obtain ⟨ticks₀, q₀, vs₀, hticks, hrun, heq⟩ := ih hq hpre
      exact ⟨ticks₀, q₀, vs₀, hticks.trans (List.prefix_append ..), hrun, heq⟩
    cases written with
    | none =>
      rw [Option.map_none, Option.toList_none, List.append_nil] at hpre
      exact hearlier hpre
    | some w =>
      have hmap : (some w).map (fun w => (tick, w)) = some (tick, w) := rfl
      rw [hmap, Option.toList_some] at h hpre
      rw [ticksOf_concat] at hpre
      split at hpre
      · next hsymbol =>
        rcases List.prefix_concat_iff.mp hpre with rfl | hpre
        · refine ⟨_, p', vs ++ [(tick, w)], List.prefix_refl _, h, ?_⟩
          rw [ticksOf_concat, if_pos hsymbol]
        · exact hearlier hpre
      · rw [List.append_nil] at hpre
        exact hearlier hpre

/-- **Bars that are exact all along** take ticks in order: a late tick would show once its bar is sealed. -/
theorem inOrder_of_barsExact {ticks xs : List (Tick K)} {last : Tick K}
    (hidle : (p.state symbol).bucket = none) (h : p.handleAll cfg ticks = some (p', ws))
    (hexact : ∀ pre, pre <+: ticks → ∀ q vs, p.handleAll cfg pre = some (q, vs) → BarsExact cfg symbol vs)
    (hlast : ticksOf symbol (ws.map Prod.fst) = xs ++ [last])
    (hlater : ∀ tick ∈ xs, tick.bucket cfg.bucketSeconds < last.bucket cfg.bucketSeconds) :
    InOrder (Tick.bucket cfg.bucketSeconds) (xs ++ [last]) := by
  have hbalanced : Balanced (Tick.bucket cfg.bucketSeconds) (xs ++ [last]) := by
    intro pre hpre c hc
    rw [← hlast] at hpre
    obtain ⟨ticks₀, q, vs, hticks, hrun, rfl⟩ := exists_prefix h hpre
    have hmirrors := mirrors_handleAll hidle hrun
    obtain ⟨bar, hbar, acc, rfl, -, hbucket, hdesc⟩ := exists_of_forall₂ hmirrors.closed.flip hc
    have hall := hexact ticks₀ hticks q vs hrun _ hbar
    have hcount : acc.ohlc.count = c.2.length := by
      rw [hdesc.count, List.length_map]
    have hcount' : acc.ohlc.count =
        (ofKey (Tick.bucket cfg.bucketSeconds) acc.bucket (ticksOf symbol (vs.map Prod.fst))).length := by
      rw [← List.length_map Tick.mid]
      exact hall.count
    rw [← hcount, hcount', hbucket]
  have hxs : InOrder (Tick.bucket cfg.bucketSeconds) xs := inOrder_of_balanced hbalanced hlater
  refine List.pairwise_append.mpr ⟨hxs, List.pairwise_singleton _ _, fun x hx y hy => ?_⟩
  rw [List.mem_singleton.mp hy]
  exact le_of_lt (hlater x hx)

/-! ## The rows of the persister -/

omit [LinearOrder K] [FloatMath K] in
/-- What the persister reads of a tick's entry. -/
theorem parseTick_entryFields (h : Reads cfg tick) (provider : String) :
    parseTick cfg.codec (entryFields cfg.printer provider tick) =
      some ⟨tick.symbol, tick.bid, tick.ask, tick.tsEvent, provider⟩ := by
  obtain ⟨time, htime, hinstant⟩ := Option.map_eq_some_iff.mp h.ts
  have hsymbol : (entryFields cfg.printer provider tick).get? "s" = some tick.symbol := rfl
  have hbid : (entryFields cfg.printer provider tick).get? "b" = some (cfg.printer.repr tick.bid) := rfl
  have hask : (entryFields cfg.printer provider tick).get? "a" = some (cfg.printer.repr tick.ask) := rfl
  have hts : (entryFields cfg.printer provider tick).get? "t" =
    some (cfg.printer.isoformat tick.tsEvent) := rfl
  have hprovider : (entryFields cfg.printer provider tick).get? "p" = some provider := rfl
  simp only [parseTick, hsymbol, hbid, hask, hts, hprovider, Option.bind_eq_bind, Option.bind_some, h.bid,
    h.ask, htime, hinstant, Option.pure_def, Option.getD_some]

/-- What was handled: every tick has a bucket, and its entry carries it. -/
def Wrote (cfg : IngestConfig K) (w : Tick K × Written K) : Prop :=
  (∃ provider, w.2.entry = entryFields cfg.printer provider w.1) ∧
    floorToBucket w.1.tsEvent cfg.bucketSeconds = some (w.1.bucket cfg.bucketSeconds)

theorem wrote_handleAll {ticks : List (Tick K)} (h : p.handleAll cfg ticks = some (p', ws)) :
    ∀ w ∈ ws, Wrote cfg w := by
  induction ticks using List.reverseRecOn generalizing p' ws with
  | nil =>
    cases h
    exact fun _ hw => (nomatch hw)
  | append_singleton ticks tick ih =>
    obtain ⟨q, vs, written, hq, hhandle, rfl⟩ := IngestPipeline.handleAll_concat h
    intro w hw
    rcases List.mem_append.mp hw with hw | hw
    · exact ih hq w hw
    · obtain ⟨w', rfl, rfl⟩ := Option.map_eq_some_iff.mp (Option.mem_toList.mp hw)
      obtain ⟨bucketStart, acc, acc', heff⟩ := IngestPipeline.effect_of_handle hhandle
      refine ⟨⟨q.provider, heff.entry⟩, ?_⟩
      unfold Tick.bucket
      rw [heff.floor]
      rfl

omit [LinearOrder K] in
/-- **The prices of a row** are those of the ticks of its minute. -/
theorem pricesOf_entries {pcfg : PersisterConfig K} (hcodec : pcfg.codec = cfg.codec)
    (hbucket : pcfg.bucketSeconds = cfg.bucketSeconds) {entries : List Entry}
    (hentries : entries.map Prod.snd = ws.map fun w => w.2.entry) (hwrote : ∀ w ∈ ws, Wrote cfg w)
    (hreads : ∀ w ∈ ws, Reads cfg w.1) (bucket : Int) :
    (pricesOf pcfg (symbol, bucket) entries).map Prod.snd =
      (ofKey (Tick.bucket cfg.bucketSeconds) bucket (ticksOf symbol (ws.map Prod.fst))).map Tick.mid := by
  induction ws generalizing entries with
  | nil =>
    rw [List.map_nil, List.map_eq_nil_iff] at hentries
    subst hentries
    rfl
  | cons w ws ih =>
    obtain ⟨e, entries, rfl, he, hrest⟩ := List.map_eq_cons_iff.mp hentries
    have htail := ih hrest (fun v hv => hwrote v (List.mem_cons_of_mem _ hv))
      fun v hv => hreads v (List.mem_cons_of_mem _ hv)
    obtain ⟨⟨provider, hentry⟩, hfloor⟩ := hwrote w List.mem_cons_self
    have he : e.2 = w.2.entry := he
    have hprice : entryPrice pcfg e.2 =
        some ((w.1.symbol, w.1.bucket cfg.bucketSeconds), w.1.mid) := by
      rw [he, hentry]
      unfold entryPrice
      rw [hcodec, parseTick_entryFields (hreads w List.mem_cons_self), Option.bind_eq_bind, Option.bind_some,
        hbucket, hfloor]
      rfl
    have hcons : pricesOf pcfg (symbol, bucket) (e :: entries) =
        ((entryPrice pcfg e.2).bind fun p => if p.1 = (symbol, bucket) then some (e.1, p.2) else none).toList ++
          pricesOf pcfg (symbol, bucket) entries := by
      unfold pricesOf
      rw [List.filterMap_cons]
      cases (entryPrice pcfg e.2).bind fun p => if p.1 = (symbol, bucket) then some (e.1, p.2) else none <;> rfl
    rw [hcons, hprice, List.map_append, htail]
    unfold ofKey ticksOf
    rw [List.map_cons, List.filter_cons]
    by_cases hsymbol : w.1.symbol = symbol
    · by_cases hb : w.1.bucket cfg.bucketSeconds = bucket
      · simp [hsymbol, hb]
      · simp [hsymbol, hb]
    · simp [hsymbol]

/-- Every bar of the symbol is the row of its minute. -/
def RowsAgree (symbol : String) (ws : List (Tick K × Written K)) (table : BarTable K) : Prop :=
  ∀ bar ∈ barsOf symbol ws, ∃ row, table.get? (symbol, bar.bucket) = some row ∧ row.ohlc = bar.ohlc

theorem rowsAgree {pcfg : PersisterConfig K} (hcodec : pcfg.codec = cfg.codec)
    (hbucket : pcfg.bucketSeconds = cfg.bucketSeconds) {entries : List Entry}
    (hentries : entries.map Prod.snd = ws.map fun w => w.2.entry) (hwrote : ∀ w ∈ ws, Wrote cfg w)
    (hreads : ∀ w ∈ ws, Reads cfg w.1) {table : BarTable K} (hrows : Ticks.RowsExact pcfg table entries)
    (hexact : BarsExact cfg symbol ws) : RowsAgree symbol ws table := by
  intro bar hbar
  have hdesc := hexact bar hbar
  have hprices : (pricesOf pcfg (symbol, bar.bucket) entries).map Prod.snd =
      (ofKey (Tick.bucket cfg.bucketSeconds) bar.bucket (ticksOf symbol (ws.map Prod.fst))).map Tick.mid :=
    pricesOf_entries hcodec hbucket hentries hwrote hreads bar.bucket
  rw [← hprices] at hdesc
  have hrow := hrows (symbol, bar.bucket)
  cases htable : table.get? (symbol, bar.bucket) with
  | none =>
    rw [htable] at hrow
    dsimp only at hrow
    rw [hrow] at hdesc
    cases hdesc.opening
  | some row =>
    rw [htable] at hrow
    exact ⟨row, rfl, hrow.2.unique hdesc⟩

/--
**The live bar and the stored bar.**

A leadership handles ticks of any symbols in any order, from a pipeline with no bucket of `symbol` open. If
those of `symbol` come in the order of their minutes, each bar that is sealed of it describes exactly the ticks
of its minute, in their order, and is the row that the persister has built from the same entries once it has
acknowledged them all. If they do not, some bar of `symbol` is wrong as soon as a tick of a later minute has
come.
-/
theorem live_bar_agrees {ticks : List (Tick K)} (hidle : (p.state symbol).bucket = none)
    (hrun : p.handleAll cfg ticks = some (p', ws)) :
    (InOrder (Tick.bucket cfg.bucketSeconds) (ticksOf symbol (ws.map Prod.fst)) →
      BarsExact cfg symbol ws ∧
        ∀ (pcfg : PersisterConfig K) (s : Ticks.System K Unit), pcfg.codec = cfg.codec →
          pcfg.bucketSeconds = cfg.bucketSeconds → (∀ w ∈ ws, Reads cfg w.1) →
          ((Ticks.tickLts pcfg).guard (Ticks.Alone pcfg)).Reachable s →
          (s.group.log.map Prod.snd = ws.map fun w => w.2.entry) →
          (∀ e ∈ s.group.log, e ∈ s.group.acked) → RowsAgree symbol ws s.table) ∧
      ∀ xs last, ticksOf symbol (ws.map Prod.fst) = xs ++ [last] →
        (∀ tick ∈ xs, tick.bucket cfg.bucketSeconds < last.bucket cfg.bucketSeconds) →
        (∀ pre, pre <+: ticks → ∀ q vs, p.handleAll cfg pre = some (q, vs) → BarsExact cfg symbol vs) →
        InOrder (Tick.bucket cfg.bucketSeconds) (ticksOf symbol (ws.map Prod.fst)) := by
  refine ⟨fun hord => ?_, fun xs last hlast hlater hexact => ?_⟩
  · have hexact := (mirrors_handleAll hidle hrun).barsExact hord
    refine ⟨hexact, fun pcfg s hcodec hbucket hreads hs hlog hacked => ?_⟩
    have hrows : Ticks.RowsExact pcfg s.table s.group.log :=
      (Ticks.inv_of_reachable (Ticks.reachable_disciplined hs)).rowsExact hacked
    exact rowsAgree hcodec hbucket hlog (wrote_handleAll hrun) hreads hrows hexact
  · rw [hlast]
    exact inOrder_of_barsExact hidle hrun hexact hlast hlater

end Mirrors

/-- A new pipeline, and what it wrote of ticks of these minutes. -/
def sampleRun (minutes : List Nat) : Option (IngestPipeline ℚ × List (Tick ℚ × Written ℚ)) :=
  IngestPipeline.new.handleAll sampleConfig (minutes.map sampleTick)

/-- The bar of minute 1 counts the late tick of minute 0. -/
theorem late_tick_in_bar :
    ∃ p ws, sampleRun [0, 1, 0, 2] = some (p, ws) ∧ ¬ BarsExact sampleConfig "EURUSD" ws ∧
      (barsOf "EURUSD" ws).map (fun bar => (bar.bucket, bar.tickCount)) = [(0, 1), (60, 2)] := by
  have hrun : sampleRun [0, 1, 0, 2] = some _ :=
    (Option.some_get (show (sampleRun [0, 1, 0, 2]).isSome by decide +kernel)).symm
  refine ⟨_, _, hrun, fun hexact => ?_, by decide +kernel⟩
  have hcounts : ∀ bar ∈ barsOf "EURUSD" _, bar.tickCount = _ := fun bar hbar => (hexact bar hbar).count
  revert hcounts
  decide +kernel

def samplePersister : PersisterConfig ℚ where
  codec := sampleConfig.codec
  bucketSeconds := 60
  flushMaxRows := 5
  flushMaxRows_pos := Ticks.sampleConfig.flushMaxRows_pos
  instruments := ["EURUSD"]

/-- The persister takes in the entries of three ticks, and commits. -/
def persisted : List (Ticks.Action Unit) :=
  ([0, 0, 1].zipIdx.map fun (minute, i) =>
    .append (toLex (5, i)) (entryFields sampleConfig.printer "" (sampleTick minute))) ++
    Ticks.startUp () ++ [.act () (.read 5), .act () (.check true), .act () .commit, .act () .ack]

def persistedState : Option (Ticks.System ℚ Unit) :=
  Lts.exec (fun s a => s.step samplePersister a) .init persisted

/-- What the same ticks leave in the pipeline. -/
def handled : IngestPipeline ℚ × List (Tick ℚ × Written ℚ) :=
  (sampleRun [0, 0, 1]).get (by decide +kernel)

theorem live_bar_agrees_persisted :
    ∃ s, persistedState = some s ∧ (barsOf "EURUSD" handled.2).length = 1 ∧
      RowsAgree "EURUSD" handled.2 s.table := by
  have hrun : sampleRun [0, 0, 1] = some handled := (Option.some_get _).symm
  have hpersisted : persistedState = some _ :=
    (Option.some_get (show persistedState.isSome by decide +kernel)).symm
  have hminutes : ∀ w ∈ handled.2, w.1 = sampleTick 0 ∨ w.1 = sampleTick 1 := by
    decide +kernel
  have halone : ∀ a ∈ persisted, ∀ s : Ticks.System ℚ Unit, Ticks.Alone samplePersister s a := by
    have hfirst : (parseTick samplePersister.codec
        (entryFields sampleConfig.printer "" (sampleTick 0))).isSome := by decide +kernel
    have hsecond : (parseTick samplePersister.codec
        (entryFields sampleConfig.printer "" (sampleTick 1))).isSome := by decide +kernel
    simp [persisted, Ticks.startUp, Ticks.Alone, Ticks.System.SweepOk, hfirst, hsecond]
  refine ⟨_, hpersisted, by decide +kernel, ?_⟩
  refine ((live_bar_agrees rfl hrun).1 ?_).2 samplePersister _ rfl rfl ?_ ?_ ?_ ?_
  · unfold InOrder
    decide +kernel
  · exact fun w hw => reads_sampleTick (hminutes w hw)
  · exact Lts.reachable_guard_exec (.init rfl) halone hpersisted
  · decide +kernel
  · decide +kernel

end Ingestor

end FxTracker
