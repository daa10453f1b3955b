import FxTracker.Web.StoreReaders

/-!
# What a price goes through

`offer` and `#flush` of `apps/web/src/lib/stream/store.ts`. A price waits for the browser's next frame, and
a newer one of its pair takes its place. Beside the store runs the map a page without the buffer would
show, and a count of what was offered.

* `Tape.Sound` — the buffer over the painted prices is that map, and every price is accounted for
* `prices_of_reachable` — so a frame paints the last price of each pair
-/

namespace FxTracker.Web

variable {K : Type}

/-! ## What the other calls leave alone -/

namespace MarketStore

/-- What the prices go through. -/
def prices (store : MarketStore K) : Dict String (Quote K) × Dict String (Quote K) × Bool × Nat × Nat :=
  (store.quotes, store.buf, store.frame, store.conflated, store.applied)

@[simp] theorem prices_touch (store : MarketStore K) (x : Topic) : (store.touch x).prices = store.prices := by
  unfold touch; split <;> rfl

@[simp] theorem prices_emit (store : MarketStore K) : store.emit.1.prices = store.prices := rfl

@[simp] theorem prices_withBook (store : MarketStore K) (a : String) (book : MinuteBook K) :
    (store.withBook a book).prices = store.prices := rfl

@[simp] theorem prices_setRegime (store : MarketStore K) (a : String) (r : Option Alerts.Regime) :
    (store.setRegime a r).prices = store.prices := by
  unfold setRegime
  split
  · rfl
  · rw [prices_touch, prices_touch]
    rfl

theorem prices_tellMinutes (store : MarketStore K) (a : String) (r : MinuteBook K × Bool) :
    (store.tellMinutes a r).1.prices = store.prices := by
  unfold tellMinutes touchMinutes
  split <;> simp

theorem prices_recordAlert (store : MarketStore K) (t : Transition) :
    (store.recordAlert t).1.1.prices = store.prices := by
  unfold recordAlert
  dsimp only
  split
  · rfl
  · rw [prices_emit, prices_touch, prices_setRegime]
    rfl

theorem prices_putBars (l : List (String × List (Candle K))) (store : MarketStore K) :
    (l.foldl putBars store).prices = store.prices := by
  induction l generalizing store with
  | nil => rfl
  | cons e l ih =>
    rw [List.foldl_cons, ih, putBars, prices_touch]
    rfl

variable [DecidableEq K] [LT K] [DecidableLT K]

theorem prices_mergeMinutes {store : MarketStore K} {a : String} {bars : List (Candle K)} {source : MergeFrom}
    {r : MarketStore K × List Topic} (h : store.mergeMinutes a bars source = some r) :
    r.1.prices = store.prices := by
  obtain ⟨p, -, rfl⟩ := Option.map_eq_some_iff.mp h
  dsimp only
  rw [prices_emit]
  have hmarked : ∀ (hole : Bool) (gen : Nat), (if hole then
      { store with gen := store.gen.set a gen }.touch (.minutes a) else store).prices = store.prices := by
    intro hole gen
    split
    · rw [prices_touch]
      rfl
    · rfl
  split
  · rw [prices_touch, prices_withBook, hmarked]
  · rw [prices_withBook, hmarked]

/-- Every call but these three leaves the prices alone. -/
theorem prices_call {store : MarketStore K} {subscribed : List Topic} {c : StoreCall K}
    {r : MarketStore K × List Topic} (h : store.call subscribed c = some r) (hoffer : ∀ q, c ≠ .offer q)
    (hframe : c ≠ .frame) (hclear : c ≠ .clearMarket) : r.1.prices = store.prices := by
  have hforming : ∀ a bar, store.applyForming a bar = some r → r.1.prices = store.prices := by
    intro a bar h
    obtain ⟨p, -, rfl⟩ := Option.map_eq_some_iff.mp h
    exact prices_tellMinutes ..
  cases c with
  | offer q => exact absurd rfl (hoffer q)
  | frame => exact absurd rfl hframe
  | clearMarket => exact absurd rfl hclear
  | applyForming a bar => exact hforming a bar h
  | applyQuote a mid ts => exact hforming a _ h
  | sealMinute a bar =>
    obtain ⟨p, -, rfl⟩ := Option.map_eq_some_iff.mp h
    exact prices_tellMinutes ..
  | mergeMinutes a bars source => exact prices_mergeMinutes h
  | historyLoaded a gen =>
    cases h
    unfold historyLoaded touchMinutes
    split
    · rfl
    · rw [prices_emit, prices_touch]
      rfl
  | setVol v =>
    cases h
    unfold setVol
    dsimp only
    split
    · rw [prices_emit, prices_setRegime, prices_touch]
      rfl
    · rw [prices_emit, prices_touch]
      rfl
  | pushAlert t =>
    cases h
    exact prices_recordAlert store t
  | seedAlert t =>
    cases h
    exact prices_recordAlert store t
  | setBars bars =>
    cases h
    exact prices_putBars bars.entries store
  | seedRegime a r =>
    cases h
    unfold seedRegime
    split
    · rfl
    · rw [prices_emit, prices_setRegime]
  | readMinutes a =>
    cases h
    unfold readMinutes
    split <;> rfl
  | _ =>
    cases h
    first
      | exact (prices_touch ..).trans rfl

/-! ## A frame -/

omit [DecidableEq K] [LT K] [DecidableLT K] in
theorem prices_clearMarket (store : MarketStore K) (subscribed : List Topic) :
    (store.clearMarket subscribed).1.quotes = .empty ∧ (store.clearMarket subscribed).1.buf = .empty ∧
      (store.clearMarket subscribed).1.applied = store.applied ∧
      (store.clearMarket subscribed).1.conflated = store.conflated := by
  have htouches : ∀ store : MarketStore K, (subscribed.foldl touch store).prices = store.prices := by
    induction subscribed with
    | nil => exact fun _ => rfl
    | cons x topics ih => exact fun store => (ih (store.touch x)).trans (prices_touch store x)
  have hprices := htouches { store with
    quotes := .empty
    vol := .empty
    regimes := {}
    bars := .empty
    z := .empty
    buf := .empty
    books := store.books.keys.foldl (fun books a => books.set a {}) store.books
    gen := store.books.keys.foldl (fun gen a => gen.set a ((gen.get? a).getD 0 + 1)) store.gen
    daily := .empty }
  simp only [prices, Prod.mk.injEq] at hprices
  exact ⟨hprices.1, hprices.2.1, hprices.2.2.2.2, hprices.2.2.2.1⟩

omit [DecidableEq K] [LT K] [DecidableLT K] in
theorem get?_paints (qs : List (Quote K)) (store : MarketStore K) (a : String) :
    (qs.foldl paint store).quotes.get? a
      = ((qs.filter fun q => q.symbol = a).getLast?).or (store.quotes.get? a) := by
  have hpaint : ∀ (store : MarketStore K) (q : Quote K),
      (store.paint q).quotes.get? a = if a = q.symbol then some q else store.quotes.get? a := by
    intro store q
    unfold paint touch
    split <;> exact Dict.get?_set ..
  induction qs generalizing store with
  | nil => simp
  | cons q qs ih =>
    rw [List.foldl_cons, ih, hpaint]
    by_cases hq : q.symbol = a
    · rw [List.filter_cons_of_pos (by simpa using hq), if_pos hq.symm]
      cases hlast : (qs.filter fun q => q.symbol = a).getLast? with
      | none => simp [List.getLast?_eq_none_iff.mp hlast]
      | some last => simp [List.getLast?_cons, hlast]
    · rw [List.filter_cons_of_neg (by simpa using hq), if_neg (Ne.symm hq)]

omit [DecidableEq K] [LT K] [DecidableLT K] in
theorem counts_paints (qs : List (Quote K)) (store : MarketStore K) :
    (qs.foldl paint store).buf = store.buf ∧ (qs.foldl paint store).applied = store.applied ∧
      (qs.foldl paint store).conflated = store.conflated := by
  have hpaint : ∀ (store : MarketStore K) (q : Quote K), (store.paint q).buf = store.buf ∧
      (store.paint q).applied = store.applied ∧ (store.paint q).conflated = store.conflated := by
    intro store q
    unfold paint touch
    split <;> exact ⟨rfl, rfl, rfl⟩
  induction qs generalizing store with
  | nil => exact ⟨rfl, rfl, rfl⟩
  | cons q qs ih =>
    obtain ⟨hbuf, happlied, hconflated⟩ := ih (store.paint q)
    obtain ⟨hbuf', happlied', hconflated'⟩ := hpaint store q
    exact ⟨hbuf.trans hbuf', happlied.trans happlied', hconflated.trans hconflated'⟩

omit [DecidableEq K] [LT K] [DecidableLT K] in
/-- **A frame** paints the prices that waited. -/
theorem flush_spec {store : MarketStore K} {r : MarketStore K × List Topic}
    (hkeyed : ∀ a q, store.buf.get? a = some q → q.symbol = a) (h : store.flush = some r) :
    (∀ a, r.1.quotes.get? a = (store.buf.get? a).or (store.quotes.get? a)) ∧ r.1.buf = .empty ∧
      r.1.applied = store.applied + store.buf.size ∧ r.1.conflated = store.conflated := by
  unfold flush at h
  split at h
  · dsimp only at h
    split at h
    · next hempty =>
      cases h
      have hbuf : store.buf = .empty := Dict.ext (Dict.isEmpty_iff.mp hempty)
      refine ⟨fun a => by simp [hbuf], hbuf, ?_, rfl⟩
      rw [hbuf]
      rfl
    · cases h
      obtain ⟨hbuf, happlied, hconflated⟩ := counts_paints store.buf.values { store with frame := false }
      refine ⟨?_, rfl, ?_, hconflated⟩
      · intro a
        show (store.buf.values.foldl paint { store with frame := false }).quotes.get? a = _
        rw [get?_paints, Dict.filter_values_eq hkeyed]
        cases store.buf.get? a <;> rfl
      · show (store.buf.values.foldl paint { store with frame := false }).applied
          + (store.buf.values.foldl paint { store with frame := false }).buf.size = _
        rw [hbuf, happlied]
  · cases h

end MarketStore

/-! ## The store beside the plain map -/

structure Tape (K : Type) where
  store : MarketStore K := {}
  /-- The last price offered of each pair, since the market was cleared. -/
  latest : Dict String (Quote K) := .empty
  offered : Nat := 0
  /-- Prices that waited when the market was cleared. -/
  dropped : Nat := 0

namespace Tape

variable [DecidableEq K] [LT K] [DecidableLT K]

/-- A call, with the topics subscribed to at the time. -/
def step (tape : Tape K) (e : List Topic × StoreCall K) : Option (Tape K) :=
  (tape.store.call e.1 e.2).map fun r =>
    match e.2 with
    | .offer q => ⟨r.1, tape.latest.set q.symbol q, tape.offered + 1, tape.dropped⟩
    | .clearMarket => ⟨r.1, .empty, tape.offered, tape.dropped + tape.store.buf.size⟩
    | _ => { tape with store := r.1 }

/-- The buffer over the painted prices is the plain map, and every price is somewhere. -/
structure Sound (tape : Tape K) : Prop where
  keyed : ∀ a q, tape.store.buf.get? a = some q → q.symbol = a
  shown : ∀ a, (tape.store.buf.get? a).or (tape.store.quotes.get? a) = tape.latest.get? a
  counted : tape.store.applied + tape.store.conflated + tape.store.buf.size + tape.dropped = tape.offered

omit [DecidableEq K] [LT K] [DecidableLT K] in
theorem Sound.of_prices {tape : Tape K} (h : Sound tape) {store : MarketStore K}
    (hprices : store.prices = tape.store.prices) : Sound { tape with store := store } := by
  simp only [MarketStore.prices, Prod.mk.injEq] at hprices
  obtain ⟨hquotes, hbuf, -, hconflated, happlied⟩ := hprices
  refine ⟨?_, ?_, ?_⟩
  · simpa only [hbuf] using h.keyed
  · simpa only [hbuf, hquotes] using h.shown
  · simpa only [hbuf, hconflated, happlied] using h.counted

omit [DecidableEq K] [LT K] [DecidableLT K] in
theorem Sound.offer {tape : Tape K} (h : Sound tape) (q : Quote K) :
    Sound ⟨tape.store.offer q, tape.latest.set q.symbol q, tape.offered + 1, tape.dropped⟩ where
  keyed a p hp := by
    rw [MarketStore.offer, Dict.get?_set] at hp
    split at hp
    · next ha =>
      cases hp
      exact ha.symm
    · exact h.keyed a p hp
  shown a := by
    simp only [MarketStore.offer, Dict.get?_set]
    split
    · rfl
    · exact h.shown a
  counted := by
    have hcounted := h.counted
    simp only [MarketStore.offer, Dict.size_set]
    split <;> omega

/-- **One step.** -/
theorem Sound.step {tape tape' : Tape K} (h : Sound tape) {e : List Topic × StoreCall K}
    (hstep : tape.step e = some tape') : Sound tape' := by
  obtain ⟨subscribed, c⟩ := e
  obtain ⟨r, hr, htape⟩ := Option.map_eq_some_iff.mp hstep
  have hcounted := h.counted
  cases c with
  | offer q =>
    cases hr
    cases htape
    exact h.offer q
  | clearMarket =>
    cases hr
    cases htape
    obtain ⟨hquotes, hbuf, happlied, hconflated⟩ := MarketStore.prices_clearMarket tape.store subscribed
    refine ⟨?_, ?_, ?_⟩
    · intro a q hq
      rw [show (tape.store.clearMarket subscribed).1.buf = .empty from hbuf] at hq
      cases hq
    · intro a
      simp only [hquotes, hbuf]
      rfl
    · simp only [hbuf, happlied, hconflated]
      show _ + 0 + _ = _
      omega
  | frame =>
    cases htape
    obtain ⟨hquotes, hbuf, happlied, hconflated⟩ := MarketStore.flush_spec h.keyed hr
    refine ⟨?_, ?_, ?_⟩
    · intro a q hq
      rw [show r.1.buf = .empty from hbuf] at hq
      cases hq
    · intro a
      simp only [hbuf, hquotes, Dict.get?_empty, Option.none_or]
      exact h.shown a
    · simp only [hbuf, happlied, hconflated]
      show _ + 0 + _ = _
      omega
  | _ =>
    cases htape
    refine h.of_prices (MarketStore.prices_call hr ?_ ?_ ?_)
    all_goals intros; intro heq; cases heq

end Tape

/-- The store of a page, whoever subscribes. -/
def tapeLts (K : Type) [DecidableEq K] [LT K] [DecidableLT K] : Lts (Tape K) (List Topic × StoreCall K) :=
  .ofFn {} Tape.step

section Runs

variable [DecidableEq K] [LT K] [DecidableLT K] {tape : Tape K}

theorem sound_of_reachable (h : (tapeLts K).Reachable tape) :
    MarketStore.Settled tape.store ∧ Tape.Sound tape := by
  refine h.invariant (I := fun tape => MarketStore.Settled tape.store ∧ Tape.Sound tape) ?_ ?_
  · rintro _ rfl
    exact ⟨MarketStore.settled_init, ⟨(fun a q hq => by cases hq), fun _ => rfl, rfl⟩⟩
  · rintro tape ⟨subscribed, c⟩ tape' ⟨hsettled, hsound⟩ hstep
    refine ⟨?_, hsound.step hstep⟩
    obtain ⟨r, hr, htape⟩ := Option.map_eq_some_iff.mp hstep
    have hstore : tape'.store = r.1 := by
      rw [← htape]
      cases c <;> rfl
    rw [hstore]
    exact (MarketStore.kept_call hsettled hr).settled

/--
**Conflation loses nothing but what is superseded.**

The waiting prices over the painted ones are the last price offered of each pair, and a frame that was
asked for paints just these. Every price offered was painted, superseded by a newer one of its pair, waits
for a frame that is coming, or was dropped with the market it belonged to.
-/
theorem prices_of_reachable (h : (tapeLts K).Reachable tape) :
    (∀ a, (tape.store.buf.get? a).or (tape.store.quotes.get? a) = tape.latest.get? a) ∧
      tape.store.applied + tape.store.conflated + tape.store.buf.size + tape.dropped = tape.offered ∧
      (tape.store.buf.isEmpty = false → tape.store.frame = true) ∧
      (tape.store.frame = true → ∃ r, tape.store.flush = some r ∧ r.1.buf.isEmpty = true ∧
        ∀ a, r.1.quotes.get? a = tape.latest.get? a) := by
  obtain ⟨hsettled, hsound⟩ := sound_of_reachable h
  refine ⟨hsound.shown, hsound.counted, hsettled.armed, ?_⟩
  intro hframe
  obtain ⟨r, hr⟩ := MarketStore.call_total hsettled [] .frame fun _ => hframe
  have hflush : tape.store.flush = some r := hr
  obtain ⟨hquotes, hbuf, -⟩ := MarketStore.flush_spec hsound.keyed hflush
  refine ⟨r, hflush, by rw [hbuf]; rfl, ?_⟩
  intro a
  rw [hquotes]
  exact hsound.shown a

/-- Two prices of one pair and one of another between frames. -/
def sampleTape : List (List Topic × StoreCall Int) :=
  [([], .offer ⟨"EURUSD", 1, 3, 2, "12:00:00Z"⟩), ([], .offer ⟨"GBPUSD", 4, 6, 5, "12:00:00Z"⟩),
    ([], .frame), ([], .offer ⟨"EURUSD", 2, 4, 3, "12:00:01Z"⟩), ([], .offer ⟨"EURUSD", 3, 5, 4, "12:00:02Z"⟩)]

theorem prices_of_reachable_sampleTape :
    ∃ tape, Lts.exec Tape.step {} sampleTape = some tape ∧ tape.offered = 4 ∧
      tape.store.applied + tape.store.conflated + tape.store.buf.size + tape.dropped = 4 := by
  obtain ⟨tape, htape⟩ : ∃ tape, Lts.exec Tape.step {} sampleTape = some tape := ⟨_, rfl⟩
  have hoffered : (Lts.exec Tape.step {} sampleTape).map Tape.offered = some 4 := rfl
  rw [htape, Option.map_some, Option.some.injEq] at hoffered
  have hreach : (tapeLts Int).Reachable tape := Lts.reachable_exec (.init rfl) htape
  refine ⟨tape, htape, hoffered, ?_⟩
  rw [← hoffered]
  exact (prices_of_reachable hreach).2.1

end Runs

end FxTracker.Web
