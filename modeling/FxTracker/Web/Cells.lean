import FxTracker.Web.Prices

/-!
# One pair on the page

What `MarketStore` of `apps/web/src/lib/stream/store.ts` holds of one pair, and what each call does to it
alone. Beside the maps of the store there is no map here, no buffer of several pairs, no notification.

* `cell_call` — a call of the store does to every pair what it does to it alone
* `cell_after` — so a pair is what its own calls make of it, and nothing before the last `clearMarket` counts
-/

namespace FxTracker.Web

open Alerts (Regime)

variable {K : Type}

structure Cell (K : Type) where
  quote : Option (Quote K) := none
  /-- The price of the next frame. -/
  waiting : Option (Quote K) := none
  vol : Option (Vol K) := none
  regime : Option (Option Regime) := none
  alerts : List Transition := []
  bars : List (Candle K) := []
  z : List (ZPoint K) := []
  minutes : MinuteBook K := {}
  daily : Option (List (Candle K) × Int) := none

namespace Cell

/-- A transition that is not listed yet. -/
def alert (cell : Cell K) (t : Transition) : Cell K :=
  if cell.alerts.any (·.seq = t.seq) then cell
  else { cell with alerts := (t :: cell.alerts).take alertCap, regime := some (some t.newRegime) }

/-- The minute of a price, from the prices that reached us. -/
def quoteBar [LT K] [DecidableLT K] (forming : Option (Candle K)) (mid : K) (ts : Int) : Candle K :=
  let t := ts.fdiv 60000 * 60
  match forming with
  | some cur =>
    if cur.t = t then
      { cur with
        h := if cur.h < mid then mid else cur.h
        l := if mid < cur.l then mid else cur.l
        c := mid }
    else ⟨t, mid, mid, mid, mid, 0, "stream"⟩
  | none => ⟨t, mid, mid, mid, mid, 0, "stream"⟩

variable [DecidableEq K] [LT K] [DecidableLT K]

/-- What a call that is about the pair `a` does to it. -/
def take (a : String) (cell : Cell K) : StoreCall K → Cell K
  | .offer q => { cell with waiting := some q }
  | .frame => { cell with quote := cell.waiting.or cell.quote, waiting := none }
  | .applyForming _ bar => { cell with minutes := (cell.minutes.applyForming bar).getD cell.minutes }
  | .applyQuote _ mid ts =>
    { cell with
      minutes := (cell.minutes.applyForming (quoteBar cell.minutes.forming mid ts)).getD cell.minutes }
  | .sealMinute _ bar => { cell with minutes := (cell.minutes.sealMinute bar).getD cell.minutes }
  | .mergeMinutes _ bars _ =>
    { cell with
      minutes := ((cell.minutes.newest.2.mergeBars bars).map MinuteBook.dropForming).getD cell.minutes }
  | .setDaily _ bars fetched => { cell with daily := some (bars, fetched) }
  | .setVol v => { cell with vol := some v, regime := if v.regime ≠ none then some v.regime else cell.regime }
  | .setZHist _ points => { cell with z := setZHist points }
  | .pushZ _ p => { cell with z := pushZ cell.z p }
  | .pushAlert t | .seedAlert t => cell.alert t
  | .setBars bars => { cell with bars := (bars.get? a).getD cell.bars }
  | .historyLoaded _ _ | .setFeed _ | .setConn _ _ => cell
  | .clearMarket => {}
  | .seedRegime _ r => { cell with regime := cell.regime.or (some r) }
  | .readMinutes _ => { cell with minutes := cell.minutes.sorted.2 }

end Cell

/-- The pair a call is about, where it is about one. -/
def StoreCall.pair : StoreCall K → Option String
  | .offer q => some q.symbol
  | .applyForming s _ | .applyQuote s _ _ | .sealMinute s _ | .mergeMinutes s _ _ | .historyLoaded s _
  | .setDaily s _ _ | .setZHist s _ | .pushZ s _ | .seedRegime s _ | .readMinutes s => some s
  | .setVol v => some v.symbol
  | .pushAlert t | .seedAlert t => some t.s
  | .frame | .setBars _ | .setFeed _ | .clearMarket | .setConn _ _ => none

/-- What a call does to the pair `a`. -/
def Cell.call [DecidableEq K] [LT K] [DecidableLT K] (a : String) (cell : Cell K) (c : StoreCall K) : Cell K :=
  if c.pair.all (· = a) then cell.take a c else cell

section

variable [DecidableEq K] [LT K] [DecidableLT K] {cell : Cell K} {c : StoreCall K} {a s : String}

theorem Cell.call_of_pair (h : c.pair = some s) : cell.call a c = if s = a then cell.take a c else cell := by
  simp [Cell.call, h]

theorem Cell.call_of_none (h : c.pair = none) : cell.call a c = cell.take a c := by
  simp [Cell.call, h]

end

/-! ## The pairs of the store -/

namespace MarketStore

def cell (store : MarketStore K) (a : String) : Cell K where
  quote := store.quotes.get? a
  waiting := store.buf.get? a
  vol := store.vol.get? a
  regime := store.regimes.regimes.get? a
  alerts := (store.regimes.alerts.get? a).getD []
  bars := (store.bars.get? a).getD []
  z := (store.z.get? a).getD []
  minutes := store.book a
  daily := store.daily.get? a

@[simp] theorem cell_touch (store : MarketStore K) (x : Topic) (a : String) :
    (store.touch x).cell a = store.cell a := by
  unfold touch; split <;> rfl

@[simp] theorem cell_emit (store : MarketStore K) (a : String) : store.emit.1.cell a = store.cell a := rfl

theorem cell_withBook (store : MarketStore K) (s a : String) (book : MinuteBook K) :
    (store.withBook s book).cell a
      = if s = a then { store.cell a with minutes := book } else store.cell a := by
  have hbook := book_withBook store s a book
  by_cases h : s = a
  · subst h
    rw [if_pos rfl] at hbook ⊢
    unfold cell
    rw [hbook]
    rfl
  · rw [if_neg (Ne.symm h)] at hbook
    rw [if_neg h]
    unfold cell
    rw [hbook]
    rfl

theorem cell_tellMinutes (store : MarketStore K) (s a : String) (r : MinuteBook K × Bool) :
    (store.tellMinutes s r).1.cell a
      = if s = a then { store.cell a with minutes := r.1 } else store.cell a := by
  unfold tellMinutes touchMinutes
  split
  · rw [cell_emit, cell_touch, cell_withBook]
  · exact cell_withBook ..

theorem cell_withRegimes (store : MarketStore K) (regimes : RegimeStore) (a : String) :
    ({ store with regimes := regimes } : MarketStore K).cell a
      = { store.cell a with
          regime := regimes.regimes.get? a, alerts := (regimes.alerts.get? a).getD [] } := rfl

theorem cell_setRegime (store : MarketStore K) (s a : String) (r : Option Regime) :
    (store.setRegime s r).cell a
      = if s = a then { store.cell a with regime := some r } else store.cell a := by
  have hcell : (store.setRegime s r).cell a
      = { store.cell a with regime := (store.regimes.setRegime s r).regimes.get? a } := by
    unfold setRegime
    split
    · next h =>
      unfold RegimeStore.setRegime
      rw [if_pos h]
      rfl
    · rw [cell_touch, cell_touch, cell_withRegimes, RegimeStore.alerts_setRegime]
      rfl
  rw [hcell, RegimeStore.get?_setRegime]
  by_cases h : s = a
  · rw [if_pos h.symm, if_pos h]
  · rw [if_neg (Ne.symm h), if_neg h]
    rfl

theorem cell_recordAlert (store : MarketStore K) (t : Transition) (a : String) :
    (store.recordAlert t).1.1.cell a = if t.s = a then (store.cell a).alert t else store.cell a := by
  have hlisted : (store.cell t.s).alerts = (store.regimes.alerts.get? t.s).getD [] := rfl
  unfold recordAlert
  dsimp only
  by_cases h : t.s = a
  · subst h
    rw [if_pos rfl]
    unfold Cell.alert
    rw [hlisted]
    split
    · rfl
    · rw [cell_emit, cell_touch, cell_setRegime, if_pos rfl, cell_withRegimes]
      simp only [Dict.get?_set_self, Option.getD_some]
  · rw [if_neg h]
    split
    · rfl
    · rw [cell_emit, cell_touch, cell_setRegime, if_neg h, cell_withRegimes,
        Dict.get?_set_ne _ _ (Ne.symm h)]
      rfl

theorem cell_withBars (store : MarketStore K) (bars : Dict String (List (Candle K))) (a : String) :
    ({ store with bars := bars } : MarketStore K).cell a
      = { store.cell a with bars := (bars.get? a).getD [] } := rfl

theorem cell_withVol (store : MarketStore K) (vol : Dict String (Vol K)) (a : String) :
    ({ store with vol := vol } : MarketStore K).cell a = { store.cell a with vol := vol.get? a } := rfl

theorem cell_withZ (store : MarketStore K) (z : Dict String (List (ZPoint K))) (a : String) :
    ({ store with z := z } : MarketStore K).cell a = { store.cell a with z := (z.get? a).getD [] } := rfl

theorem cell_withDaily (store : MarketStore K) (daily : Dict String (List (Candle K) × Int)) (a : String) :
    ({ store with daily := daily } : MarketStore K).cell a = { store.cell a with daily := daily.get? a } := rfl

/-- Painting writes prices only. -/
theorem cell_paints (qs : List (Quote K)) (store : MarketStore K) (a : String) :
    (qs.foldl paint store).cell a
      = { store.cell a with quote := (qs.foldl paint store).quotes.get? a } := by
  induction qs generalizing store with
  | nil => rfl
  | cons q qs ih =>
    have hpaint : (store.paint q).cell a
        = { store.cell a with quote := (store.quotes.set q.symbol q).get? a } := by
      rw [paint, cell_touch]
      rfl
    rw [List.foldl_cons, ih, hpaint]

theorem cell_putBars (l : List (String × List (Candle K))) (hnodup : (l.map Prod.fst).Nodup)
    (store : MarketStore K) (a : String) :
    (l.foldl putBars store).cell a
      = { store.cell a with
          bars := ((l.find? fun e => e.1 = a).map Prod.snd).getD (store.cell a).bars } := by
  induction l generalizing store with
  | nil => rfl
  | cons e l ih =>
    rw [List.map_cons, List.nodup_cons] at hnodup
    rw [List.foldl_cons, ih hnodup.2, putBars, cell_touch, cell_withBars]
    by_cases h : e.1 = a
    · have hrest : l.find? (fun e => e.1 = a) = none := by
        refine List.find?_eq_none.mpr ?_
        intro e' he' heq
        exact hnodup.1 (h ▸ List.mem_map.mpr ⟨e', he', of_decide_eq_true heq⟩)
      rw [hrest, List.find?_cons_of_pos (by simpa using h), h, Dict.get?_set_self]
      rfl
    · rw [List.find?_cons_of_neg (by simpa using h), Dict.get?_set_ne _ _ (Ne.symm h)]
      rfl

theorem cell_clearMarket (store : MarketStore K) (subscribed : List Topic) (a : String) :
    (store.clearMarket subscribed).1.cell a = {} := by
  have htouches : ∀ store : MarketStore K, (subscribed.foldl touch store).cell a = store.cell a := by
    induction subscribed with
    | nil => exact fun _ => rfl
    | cons x topics ih => exact fun store => (ih (store.touch x)).trans (cell_touch store x a)
  have hbooks : ∀ (l : List String) (books : Dict String (MinuteBook K)),
      ((l.foldl (fun books s => books.set s {}) books).get? a).getD {}
        = if a ∈ l then {} else (books.get? a).getD {} := by
    intro l
    induction l with
    | nil => intro books; rfl
    | cons s l ih =>
      intro books
      rw [List.foldl_cons, ih, Dict.get?_set]
      by_cases hl : a ∈ l
      · simp [hl]
      · by_cases hs : a = s <;> simp [hl, hs]
  have hbook : ((store.books.keys.foldl (fun books s => books.set s {}) store.books).get? a).getD {} = {} := by
    rw [hbooks]
    split
    · rfl
    · next hmissing => rw [Dict.get?_eq_none_iff.mpr hmissing]; rfl
  unfold clearMarket
  rw [cell_emit, htouches]
  unfold cell book
  rw [hbook]
  rfl

section

variable [DecidableEq K] [LT K] [DecidableLT K]

theorem cell_of_forming {store : MarketStore K} {s : String} {bar : Candle K} {r : MarketStore K × List Topic}
    (h : store.applyForming s bar = some r) (a : String) :
    r.1.cell a = if s = a then
      { store.cell a with minutes := ((store.cell a).minutes.applyForming bar).getD (store.cell a).minutes }
    else store.cell a := by
  obtain ⟨p, hp, rfl⟩ := Option.map_eq_some_iff.mp h
  rw [cell_tellMinutes]
  by_cases hs : s = a
  · subst hs
    have happly : (store.cell s).minutes.applyForming bar = some p.1 := by
      rw [← MinuteBook.fst_applyFormingTold, show (store.cell s).minutes = store.book s from rfl, hp]
      rfl
    simp only [if_true, happly, Option.getD_some]
  · rw [if_neg hs, if_neg hs]

theorem cell_of_merge {store : MarketStore K} {s : String} {bars : List (Candle K)} {source : MergeFrom}
    {r : MarketStore K × List Topic} (h : store.mergeMinutes s bars source = some r) (a : String) :
    r.1.cell a = if s = a then
      { store.cell a with
        minutes := (((store.cell a).minutes.newest.2.mergeBars bars).map MinuteBook.dropForming).getD
          (store.cell a).minutes }
    else store.cell a := by
  obtain ⟨p, hp, rfl⟩ := Option.map_eq_some_iff.mp h
  have hmarked : ∀ (hole : Bool) (gen : Nat), (if hole then
      { store with gen := store.gen.set s gen }.touch (.minutes s) else store).cell a = store.cell a := by
    intro hole gen
    split
    · rw [cell_touch]
      rfl
    · rfl
  dsimp only
  rw [cell_emit]
  have hwritten : ∀ m : MarketStore K, m.cell a = store.cell a →
      (if p.2 then (m.withBook s p.1.dropForming).touch (.minutes s) else m.withBook s p.1.dropForming).cell a
        = if s = a then { store.cell a with minutes := p.1.dropForming } else store.cell a := by
    intro m hm
    split
    · rw [cell_touch, cell_withBook, hm]
    · rw [cell_withBook, hm]
  rw [hwritten _ (hmarked _ _)]
  by_cases hs : s = a
  · subst hs
    have hmerge : (store.cell s).minutes.newest.2.mergeBars bars = some p.1 := by
      rw [← MinuteBook.fst_mergeBarsTold, show (store.cell s).minutes = store.book s from rfl, hp]
      rfl
    simp only [if_true, hmerge, Option.map_some, Option.getD_some]
  · rw [if_neg hs, if_neg hs]

theorem cell_flush {store : MarketStore K} (hkeyed : ∀ a q, store.buf.get? a = some q → q.symbol = a)
    {r : MarketStore K × List Topic} (hflush : store.flush = some r) (a : String) :
    r.1.cell a = (store.cell a).take a .frame := by
  obtain ⟨hquotes, -, -, -⟩ := flush_spec hkeyed hflush
  have hquote : (r.1.cell a).quote = (store.cell a).waiting.or (store.cell a).quote := hquotes a
  have hrest : r.1.cell a = { store.cell a with quote := (r.1.cell a).quote, waiting := none } := by
    unfold flush at hflush
    split at hflush
    · dsimp only at hflush
      split at hflush
      · next hempty =>
        cases hflush
        have hbuf : store.buf = .empty := Dict.ext (Dict.isEmpty_iff.mp hempty)
        unfold cell
        simp only [hbuf, Dict.get?_empty]
        rfl
      · cases hflush
        have hpainted := cell_paints store.buf.values { store with frame := false } a
        show ({ (store.buf.values.foldl paint { store with frame := false }).cell a with
          waiting := none } : Cell K) = _
        rw [hpainted]
        rfl
    · cases hflush
  rw [hrest, hquote]
  rfl

theorem applyQuote_eq (store : MarketStore K) (s : String) (mid : K) (ts : Int) :
    store.applyQuote s mid ts
      = store.applyForming s (Cell.quoteBar (store.cell s).minutes.forming mid ts) := by
  have hforming : (store.books.get? s).bind MinuteBook.forming = (store.cell s).minutes.forming := by
    show _ = ((store.books.get? s).getD {}).forming
    cases store.books.get? s <;> rfl
  unfold applyQuote
  rw [hforming]
  rfl

/-- **A call of the store** does to each pair what it does to it alone. -/
theorem cell_call {store : MarketStore K}
    (hkeyed : ∀ a q, store.buf.get? a = some q → q.symbol = a) {subscribed : List Topic} {c : StoreCall K}
    {r : MarketStore K × List Topic} (hcall : store.call subscribed c = some r) (a : String) :
    r.1.cell a = (store.cell a).call a c := by
  cases c with
  | offer q =>
    cases hcall
    rw [Cell.call_of_pair rfl]
    by_cases hs : q.symbol = a
    · subst hs
      simp [Cell.take, cell, offer, book]
    · simp [cell, offer, book, hs, Dict.get?_set_ne _ _ (Ne.symm hs)]
  | frame => exact cell_flush hkeyed hcall a
  | applyForming s bar =>
    rw [Cell.call_of_pair rfl]
    exact cell_of_forming hcall a
  | applyQuote s mid ts =>
    have hcall' : store.applyQuote s mid ts = some r := hcall
    rw [applyQuote_eq] at hcall'
    rw [Cell.call_of_pair rfl, cell_of_forming hcall']
    by_cases hs : s = a
    · subst hs
      rfl
    · rw [if_neg hs, if_neg hs]
  | sealMinute s bar =>
    rw [Cell.call_of_pair rfl]
    obtain ⟨p, hp, rfl⟩ := Option.map_eq_some_iff.mp hcall
    rw [cell_tellMinutes]
    by_cases hs : s = a
    · subst hs
      have hseal : (store.cell s).minutes.sealMinute bar = some p.1 := by
        rw [← MinuteBook.fst_sealMinuteTold, show (store.cell s).minutes = store.book s from rfl, hp]
        rfl
      simp only [Cell.take, if_true, hseal, Option.getD_some]
    · rw [if_neg hs, if_neg hs]
  | mergeMinutes s bars source =>
    rw [Cell.call_of_pair rfl]
    exact cell_of_merge hcall a
  | historyLoaded s gen =>
    cases hcall
    rw [Cell.call_of_pair rfl]
    have hsame : (store.historyLoaded s gen).1.cell a = store.cell a := by
      unfold historyLoaded touchMinutes
      split
      · rfl
      · rw [cell_emit, cell_touch]
        rfl
    rw [hsame]
    split <;> rfl
  | setDaily s bars fetched =>
    cases hcall
    rw [Cell.call_of_pair rfl, setDaily, cell_emit, cell_touch, cell_withDaily]
    by_cases hs : s = a
    · subst hs
      simp [Cell.take]
    · rw [if_neg hs, Dict.get?_set_ne _ _ (Ne.symm hs)]
      rfl
  | setVol v =>
    cases hcall
    have hset : ({ store with vol := store.vol.set v.symbol v } : MarketStore K).cell a
        = if v.symbol = a then { store.cell a with vol := some v } else store.cell a := by
      rw [cell_withVol]
      by_cases hs : v.symbol = a
      · subst hs
        simp
      · rw [if_neg hs, Dict.get?_set_ne _ _ (Ne.symm hs)]
        rfl
    rw [Cell.call_of_pair rfl]
    unfold setVol
    dsimp only
    by_cases hs : v.symbol = a
    · subst hs
      rw [if_pos rfl] at hset ⊢
      by_cases hr : v.regime ≠ none
      · rw [if_pos hr, cell_emit, cell_setRegime, if_pos rfl, cell_touch, hset]
        simp [Cell.take, hr]
      · rw [if_neg hr, cell_emit, cell_touch, hset]
        simp [Cell.take, hr]
    · rw [if_neg hs] at hset ⊢
      split
      · rw [cell_emit, cell_setRegime, if_neg hs, cell_touch, hset]
      · rw [cell_emit, cell_touch, hset]
  | setZHist s points =>
    cases hcall
    rw [Cell.call_of_pair rfl, setZHist, cell_emit, cell_touch, cell_withZ]
    by_cases hs : s = a
    · subst hs
      simp [Cell.take]
    · rw [if_neg hs, Dict.get?_set_ne _ _ (Ne.symm hs)]
      rfl
  | pushZ s p =>
    cases hcall
    rw [Cell.call_of_pair rfl, pushZ, cell_emit, cell_touch, cell_withZ]
    by_cases hs : s = a
    · subst hs
      simp [Cell.take, cell]
    · rw [if_neg hs, Dict.get?_set_ne _ _ (Ne.symm hs)]
      rfl
  | pushAlert t =>
    cases hcall
    rw [Cell.call_of_pair rfl]
    exact cell_recordAlert store t a
  | seedAlert t =>
    cases hcall
    rw [Cell.call_of_pair rfl]
    exact cell_recordAlert store t a
  | setBars bars =>
    cases hcall
    rw [Cell.call_of_none rfl]
    exact cell_putBars bars.entries bars.nodup store a
  | setFeed f =>
    cases hcall
    rw [Cell.call_of_none rfl, setFeed, cell_emit, cell_touch]
    rfl
  | clearMarket =>
    cases hcall
    rw [Cell.call_of_none rfl]
    exact cell_clearMarket store subscribed a
  | setConn state attempt =>
    cases hcall
    rw [Cell.call_of_none rfl, setConn, cell_emit, cell_touch]
    rfl
  | seedRegime s r =>
    cases hcall
    rw [Cell.call_of_pair rfl]
    unfold seedRegime Dict.contains
    by_cases hs : s = a
    · subst hs
      rw [if_pos rfl]
      cases hheld : store.regimes.regimes.get? s with
      | none =>
        have hregime : (store.cell s).regime = none := hheld
        rw [if_neg (by simp), cell_emit, cell_setRegime, if_pos rfl]
        simp [Cell.take, hregime]
      | some held =>
        have hregime : (store.cell s).regime = some held := hheld
        rw [if_pos (by simp)]
        simp only [Cell.take, hregime, Option.some_or]
        exact congrArg (fun regime => { store.cell s with regime := regime }) hregime
    · rw [if_neg hs]
      split
      · rfl
      · rw [cell_emit, cell_setRegime, if_neg hs]
  | readMinutes s =>
    cases hcall
    rw [Cell.call_of_pair rfl]
    unfold readMinutes Dict.contains
    split
    · show (store.withBook s (store.book s).sorted.2).cell a = _
      rw [cell_withBook]
      by_cases hs : s = a
      · subst hs
        rfl
      · rw [if_neg hs, if_neg hs]
    · next hmissing =>
      -- a book that is not there is a new one, and is sorted
      have hnone : store.books.get? s = none := by simpa using hmissing
      by_cases hs : s = a
      · subst hs
        have hminutes : (store.cell s).minutes = {} := by
          show (store.books.get? s).getD {} = {}
          rw [hnone]
          rfl
        rw [if_pos rfl]
        simp only [Cell.take, hminutes]
        exact congrArg (fun minutes => { store.cell s with minutes := minutes }) hminutes
      · rw [if_neg hs]

end

end MarketStore

/-! ## Any calls -/

section Runs

variable [DecidableEq K] [LT K] [DecidableLT K]

/-- A price that waits is of the pair it waits for. -/
theorem Cell.waiting_call {a : String} {cell : Cell K} (h : ∀ q, cell.waiting = some q → q.symbol = a)
    (c : StoreCall K) : ∀ q, (cell.call a c).waiting = some q → q.symbol = a := by
  have halert : ∀ t, (cell.alert t).waiting = cell.waiting := by
    intro t
    unfold Cell.alert
    split <;> rfl
  intro q hq
  unfold Cell.call at hq
  split at hq
  · next hpair =>
    cases c with
    | offer p =>
      cases hq
      simpa [StoreCall.pair] using hpair
    | frame => cases hq
    | clearMarket => cases hq
    | pushAlert t => exact h q ((halert t).symm.trans hq)
    | seedAlert t => exact h q ((halert t).symm.trans hq)
    | _ =>
      simp only [Cell.take] at hq
      exact h q hq
  · exact h q hq

namespace MarketStore

/-- A call with the topics subscribed to; a frame that was not asked for does not come. -/
def advance (store : MarketStore K) (e : List Topic × StoreCall K) : MarketStore K :=
  ((store.call e.1 e.2).map Prod.fst).getD store

/-- The store after the calls of a page. -/
def after (calls : List (List Topic × StoreCall K)) : MarketStore K := calls.foldl advance {}

theorem advance_spec {store : MarketStore K} (h : Settled store)
    (hkeyed : ∀ a q, store.buf.get? a = some q → q.symbol = a) (e : List Topic × StoreCall K) :
    Settled (store.advance e) ∧ ∀ a, (store.advance e).cell a = (store.cell a).call a e.2 := by
  unfold advance
  cases hcall : store.call e.1 e.2 with
  | some r => exact ⟨(kept_call h hcall).settled, cell_call hkeyed hcall⟩
  | none =>
    refine ⟨h, ?_⟩
    intro a
    have hframe : e.2 = .frame ∧ store.frame = false := by
      by_contra hnot
      obtain ⟨r, hr⟩ := call_total h e.1 e.2 fun hframe => by
        rw [← Bool.not_eq_false]
        exact fun hno => hnot ⟨hframe, hno⟩
      rw [hcall] at hr
      cases hr
    have hempty : store.buf = .empty := by
      refine Dict.ext (Dict.isEmpty_iff.mp ?_)
      rw [← Bool.not_eq_false]
      intro hfull
      rw [h.armed hfull] at hframe
      cases hframe.2
    have hwaiting : (store.cell a).waiting = none := by
      show store.buf.get? a = none
      rw [hempty]
      rfl
    rw [hframe.1, Cell.call_of_none rfl]
    simp only [Cell.take, hwaiting, Option.none_or, Option.map_none, Option.getD_none]
    exact congrArg (fun waiting => { store.cell a with waiting := waiting }) hwaiting

theorem foldl_advance (calls : List (List Topic × StoreCall K)) {store : MarketStore K} (h : Settled store)
    (hkeyed : ∀ a q, store.buf.get? a = some q → q.symbol = a) (a : String) :
    (calls.foldl advance store).cell a = (calls.map Prod.snd).foldl (Cell.call a) (store.cell a) := by
  induction calls generalizing store with
  | nil => rfl
  | cons e calls ih =>
    obtain ⟨hsettled, hcell⟩ := advance_spec h hkeyed e
    rw [List.foldl_cons, ih hsettled ?_, List.map_cons, List.foldl_cons, hcell]
    intro b q hq
    have hwaiting : ((store.cell b).call b e.2).waiting = some q := by
      rw [← hcell]
      exact hq
    exact Cell.waiting_call (hkeyed b) e.2 q hwaiting

theorem foldl_call_filter (a : String) (calls : List (StoreCall K)) (cell : Cell K) :
    (calls.filter fun c => c.pair.all (· = a)).foldl (Cell.call a) cell = calls.foldl (Cell.call a) cell := by
  induction calls generalizing cell with
  | nil => rfl
  | cons c calls ih =>
    rw [List.foldl_cons]
    by_cases h : c.pair.all (· = a)
    · rw [List.filter_cons, if_pos h, List.foldl_cons, ih]
    · rw [List.filter_cons, if_neg h, ih]
      exact congrArg (fun cell => calls.foldl (Cell.call a) cell) (if_neg h).symm

/--
**A pair is what its own calls make of it.**

After any calls, what the page holds of a pair is what the calls about it do to it alone, from an empty one:
no other pair's calls are in it, and none from before the market was last cleared.
-/
theorem cell_after (calls : List (List Topic × StoreCall K)) (a : String) :
    (after calls).cell a
        = ((calls.map Prod.snd).filter fun c => c.pair.all (· = a)).foldl (Cell.call a) {} ∧
      ∀ before subscribed,
        (after (before ++ (subscribed, StoreCall.clearMarket) :: calls)).cell a = (after calls).cell a := by
  have hrun : ∀ calls : List (List Topic × StoreCall K),
      (after calls).cell a = (calls.map Prod.snd).foldl (Cell.call a) {} := by
    intro calls
    exact foldl_advance calls settled_init (fun _ _ hq => by cases hq) a
  refine ⟨?_, ?_⟩
  · rw [hrun, foldl_call_filter]
  · intro before subscribed
    have hclear : ∀ cell : Cell K, cell.call a .clearMarket = {} := fun cell => Cell.call_of_none rfl
    rw [hrun, hrun, List.map_append, List.foldl_append, List.map_cons, List.foldl_cons, hclear]

end MarketStore

end Runs

end FxTracker.Web
