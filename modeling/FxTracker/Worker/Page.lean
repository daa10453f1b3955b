import FxTracker.Worker.Queue

/-!
# What can be folded in and committed

An entry can be stored if it parses, its time has a bucket and its symbol is in `instruments`. Such
entries are folded in one by one unless a return raises; `ReturnsOk` says that none does, by the
prices of the ticks a return goes between.

* `exists_ingestAll` — a page of a stream whose entries can all be stored folds into an empty memory
* `ingestAll_eq_none_of_return` — a return that raises stops the fold
* `Carries.exists_upsert`, `Carries.settles` — the batch of such entries commits, and settles them
* `Carries.row_upsert` — what it does to the prices of a row

Nothing is assumed of the order of prices here: a price may be NaN.
-/

namespace FxTracker.Worker

variable {K : Type} {cfg : PersisterConfig K} {m m' : Persister K} {es : List Entry} {e : Entry}

/-- A tick that parsed, with its bucket. -/
def tickOf (cfg : PersisterConfig K) (e : Entry) : Option (RawTick K × Int) :=
  (parseTick cfg.codec e.2).bind fun tick =>
    (floorToBucket tick.ts cfg.bucketSeconds).map fun bucket => (tick, bucket)

/-- The entry parses, its time has a bucket, and its symbol is in `instruments`. -/
def Storable (cfg : PersisterConfig K) (e : Entry) : Prop :=
  ∃ x ∈ tickOf cfg e, x.1.symbol ∈ cfg.instruments

theorem tickOf_eq_some_iff {x : RawTick K × Int} :
    tickOf cfg e = some x ↔
      parseTick cfg.codec e.2 = some x.1 ∧ floorToBucket x.1.ts cfg.bucketSeconds = some x.2 := by
  unfold tickOf
  constructor
  · intro h
    obtain ⟨tick, hp, hb⟩ := Option.bind_eq_some_iff.mp h
    obtain ⟨bucket, hbucket, rfl⟩ := Option.map_eq_some_iff.mp hb
    exact ⟨hp, hbucket⟩
  · rintro ⟨hp, hb⟩
    rw [hp, Option.bind_some, hb]
    rfl

theorem entryPrice_eq [FloatOps K] (cfg : PersisterConfig K) (e : Entry) :
    entryPrice cfg e.2 =
      (tickOf cfg e).map fun x => ((x.1.symbol, x.2), Persister.RawTick.mid x.1) := by
  unfold entryPrice tickOf
  cases parseTick cfg.codec e.2 with
  | none => rfl
  | some tick =>
    simp only [Option.bind_eq_bind, Option.bind_some]
    cases floorToBucket tick.ts cfg.bucketSeconds <;> rfl

/-! ## The last tick of a symbol -/

/-- The last tick of a symbol. -/
def lastTick (cfg : PersisterConfig K) (es : List Entry) (symbol : String) :
    Option (RawTick K × Int) :=
  ((es.filterMap (tickOf cfg)).filter (·.1.symbol = symbol)).getLast?

theorem lastTick_concat (es : List Entry) (e : Entry) (symbol : String) :
    lastTick cfg (es ++ [e]) symbol =
      match tickOf cfg e with
      | some x => if x.1.symbol = symbol then some x else lastTick cfg es symbol
      | none => lastTick cfg es symbol := by
  unfold lastTick
  rw [List.filterMap_append, List.filter_append]
  cases he : tickOf cfg e with
  | none => simp [he]
  | some x => by_cases hx : x.1.symbol = symbol <;> simp [he, hx]

theorem lastTick_concat_of_tick {x : RawTick K × Int} (hx : tickOf cfg e = some x) (es : List Entry)
    (symbol : String) : lastTick cfg (es ++ [e]) symbol =
      if symbol = x.1.symbol then some x else lastTick cfg es symbol := by
  rw [lastTick_concat, hx]
  exact if_congr eq_comm rfl rfl

theorem lastTick_concat_of_none (hx : tickOf cfg e = none) (es : List Entry) (symbol : String) :
    lastTick cfg (es ++ [e]) symbol = lastTick cfg es symbol := by
  rw [lastTick_concat, hx]

/-- Entries without a tick of the symbol leave the last one. -/
theorem lastTick_append {symbol : String} (xs : List Entry) {ys : List Entry}
    (hys : ∀ y ∈ ys, ∀ z ∈ tickOf cfg y, z.1.symbol ≠ symbol) :
    lastTick cfg (xs ++ ys) symbol = lastTick cfg xs symbol := by
  induction ys using List.reverseRecOn with
  | nil => rw [List.append_nil]
  | append_singleton ys y ih =>
    have hy := hys y (List.mem_append_right _ (List.mem_singleton_self y))
    rw [← List.append_assoc, lastTick_concat, ih fun z hz => hys z (List.mem_append_left _ hz)]
    cases hz : tickOf cfg y with
    | none => rfl
    | some z => exact if_neg (hy z hz)

/-- The last tick of a symbol is followed by none of it. -/
theorem lastTick_eq_some {symbol : String} {x : RawTick K × Int}
    (h : lastTick cfg es symbol = some x) :
    ∃ xs e ys, es = xs ++ e :: ys ∧ tickOf cfg e = some x ∧ x.1.symbol = symbol ∧
      ∀ y ∈ ys, ∀ z ∈ tickOf cfg y, z.1.symbol ≠ symbol := by
  induction es using List.reverseRecOn with
  | nil => cases h
  | append_singleton es e ih =>
    have hkeep : (∀ z ∈ tickOf cfg e, z.1.symbol ≠ symbol) → lastTick cfg es symbol = some x →
        ∃ xs e' ys, es ++ [e] = xs ++ e' :: ys ∧ tickOf cfg e' = some x ∧ x.1.symbol = symbol ∧
          ∀ y ∈ ys, ∀ z ∈ tickOf cfg y, z.1.symbol ≠ symbol := by
      intro hne hlast
      obtain ⟨xs, e', ys, rfl, hx, hsym, hys⟩ := ih hlast
      refine ⟨xs, e', ys ++ [e], by simp, hx, hsym, fun y hy => ?_⟩
      rcases List.mem_append.mp hy with hy | hy
      · exact hys y hy
      · rw [List.mem_singleton.mp hy]
        exact hne
    rw [lastTick_concat] at h
    cases he : tickOf cfg e with
    | none =>
      rw [he] at h
      exact hkeep (fun z hz => by rw [he] at hz; cases hz) h
    | some z =>
      rw [he] at h
      dsimp only at h
      split at h
      · next hz =>
        cases h
        exact ⟨es, e, [], rfl, he, hz, fun y hy => by cases hy⟩
      · next hz => exact hkeep (fun z' hz' => by rw [he] at hz'; cases hz'; exact hz) h

theorem lastTick_of_split {symbol : String} {x : RawTick K × Int} (xs : List Entry) {ys : List Entry}
    (hx : tickOf cfg e = some x) (hsym : x.1.symbol = symbol)
    (hys : ∀ y ∈ ys, ∀ z ∈ tickOf cfg y, z.1.symbol ≠ symbol) :
    lastTick cfg (xs ++ e :: ys) symbol = some x := by
  rw [List.append_cons, lastTick_append _ hys, lastTick_concat_of_tick hx]
  exact if_pos hsym.symm

/-! ## Returns -/

variable [FloatOps K]

/-- The price a return is taken from, by the entries before the tick: none after another provider's
tick or across a gap. -/
def linkedPrice (cfg : PersisterConfig K) (pre : List Entry) (x : RawTick K × Int) : Option K :=
  match lastTick cfg pre x.1.symbol with
  | some y =>
    if y.1.provider = x.1.provider ∧ ¬ cfg.bucketSeconds * gapBarMultiple < x.2 - y.2
    then some (Persister.RawTick.mid y.1) else none
  | none => none

variable [LT K] [DecidableLT K]

/-- No return `add` computes between two ticks raises: they are of one symbol and one provider, and
not across a gap. -/
def ReturnOk (cfg : PersisterConfig K) (e f : Entry) : Prop :=
  ∀ x ∈ tickOf cfg e, ∀ y ∈ tickOf cfg f, x.1.symbol = y.1.symbol → x.1.provider = y.1.provider →
    ¬ cfg.bucketSeconds * gapBarMultiple < y.2 - x.2 →
    (BucketAccumulator.logReturn (Persister.RawTick.mid y.1)
      (some (Persister.RawTick.mid x.1))).isSome

/-- Among the entries of a page, no return between neighbouring ticks of a symbol raises. -/
def ReturnsOk (cfg : PersisterConfig K) (stream : List Entry) : Prop :=
  ∀ pre e ys f post, stream = pre ++ (e :: ys ++ [f]) ++ post → ys.length + 2 ≤ cfg.flushMaxRows →
    (∀ y ∈ ys, ∀ x ∈ tickOf cfg y, ∀ z ∈ tickOf cfg e, x.1.symbol ≠ z.1.symbol) → ReturnOk cfg e f

namespace Persister

/-- The price the next return of a symbol is taken from: none after another provider's tick or
across a gap. -/
def prevPrice (m : Persister K) (bucketSeconds : Int) (tick : RawTick K) (bucket : Int) : Option K :=
  if (m.provider.get? tick.symbol).getD tick.provider ≠ tick.provider ∨
      bucketSeconds * gapBarMultiple < bucket - (m.lastBucket.get? tick.symbol).getD bucket
  then none else m.lastPrice.get? tick.symbol

/-- The memory recalls the last tick of each symbol. -/
structure Recalls (cfg : PersisterConfig K) (m : Persister K) (es : List Entry) : Prop where
  lastPrice : ∀ s, m.lastPrice.get? s = (lastTick cfg es s).map fun x => RawTick.mid x.1
  lastBucket : ∀ s, m.lastBucket.get? s = (lastTick cfg es s).map Prod.snd
  provider : ∀ s, m.provider.get? s = (lastTick cfg es s).map fun x => x.1.provider

omit [LT K] [DecidableLT K] in
theorem recalls_fresh (cfg : PersisterConfig K) : Recalls cfg (fresh : Persister K) [] :=
  ⟨fun _ => rfl, fun _ => rfl, fun _ => rfl⟩

omit [FloatOps K] [LT K] [DecidableLT K] in
theorem get?_pop (m : Persister K) (bs : Int) (tick : RawTick K) (bucket : Int) :
    (if bs * gapBarMultiple < bucket - (m.lastBucket.get? tick.symbol).getD bucket
      then (if (m.provider.get? tick.symbol).getD tick.provider ≠ tick.provider
        then m.lastPrice.erase tick.symbol else m.lastPrice).erase tick.symbol
      else if (m.provider.get? tick.symbol).getD tick.provider ≠ tick.provider
        then m.lastPrice.erase tick.symbol else m.lastPrice).get? tick.symbol =
      m.prevPrice bs tick bucket := by
  unfold prevPrice
  split
  · next hgap => rw [if_pos (Or.inr hgap), Dict.get?_erase, if_pos rfl]
  · next hgap =>
    split
    · next hp => rw [if_pos (Or.inl hp), Dict.get?_erase, if_pos rfl]
    · next hp => rw [if_neg (not_or.mpr ⟨hp, hgap⟩)]

/-- A tick with a bucket is folded in unless its return raises. -/
theorem isSome_ingestTick {bs : Int} {tick : RawTick K} {bucket : Int}
    (hb : floorToBucket tick.ts bs = some bucket) (id : StreamId) :
    (m.ingestTick bs id tick).isSome =
      (BucketAccumulator.logReturn (RawTick.mid tick) (m.prevPrice bs tick bucket)).isSome := by
  obtain ⟨acc, hacc⟩ : ∃ acc, m.accFor bs (tick.symbol, bucket) tick = some acc := by
    unfold accFor
    split
    · exact ⟨_, rfl⟩
    · exact ⟨_, by rw [BucketAccumulator.start, hb]; rfl⟩
  unfold ingestTick
  simp only [Option.bind_eq_bind, Option.pure_def, hb, Option.bind_some, hacc, get?_pop,
    BucketAccumulator.add]
  cases BucketAccumulator.logReturn (RawTick.mid tick) (m.prevPrice bs tick bucket) <;> rfl

/-- What the memory recalls after a tick. -/
theorem get?_ingestTick {bs : Int} {id : StreamId} {tick : RawTick K} {bucket : Int}
    (hb : floorToBucket tick.ts bs = some bucket) (h : m.ingestTick bs id tick = some m') (s : String) :
    m'.lastPrice.get? s =
        (if s = tick.symbol then some (RawTick.mid tick) else m.lastPrice.get? s) ∧
      m'.lastBucket.get? s = (if s = tick.symbol then some bucket else m.lastBucket.get? s) ∧
      m'.provider.get? s = (if s = tick.symbol then some tick.provider else m.provider.get? s) := by
  unfold ingestTick at h
  simp only [Option.bind_eq_bind, Option.bind_eq_some_iff, Option.pure_def, Option.some.injEq] at h
  obtain ⟨bucket', hb', acc, -, acc', -, rfl⟩ := h
  rw [hb] at hb'
  cases hb'
  refine ⟨?_, Dict.get?_set .., Dict.get?_set ..⟩
  dsimp only
  rw [Dict.get?_set]
  by_cases hs : s = tick.symbol
  · rw [if_pos hs, if_pos hs]
  · rw [if_neg hs, if_neg hs]
    split <;> split <;> simp only [Dict.get?_erase, if_neg hs]

theorem ingestEntry_of_tick {x : RawTick K × Int} (hx : tickOf cfg e = some x) (m : Persister K) :
    m.ingestEntry cfg e = m.ingestTick cfg.bucketSeconds e.1 x.1 := by
  unfold Persister.ingestEntry
  rw [(tickOf_eq_some_iff.mp hx).1]

/-- What the memory recalls after an entry that is a tick. -/
theorem get?_ingestEntry {x : RawTick K × Int} (hx : tickOf cfg e = some x)
    (hm : m.ingestEntry cfg e = some m') (s : String) :
    m'.lastPrice.get? s =
        (if s = x.1.symbol then some (RawTick.mid x.1) else m.lastPrice.get? s) ∧
      m'.lastBucket.get? s = (if s = x.1.symbol then some x.2 else m.lastBucket.get? s) ∧
      m'.provider.get? s = (if s = x.1.symbol then some x.1.provider else m.provider.get? s) := by
  rw [ingestEntry_of_tick hx] at hm
  exact get?_ingestTick (tickOf_eq_some_iff.mp hx).2 hm s

/-- The memory goes on recalling the last tick. -/
theorem Recalls.ingestEntry (h : Recalls cfg m es) {x : RawTick K × Int} (hx : tickOf cfg e = some x)
    (hm : m.ingestEntry cfg e = some m') (unacked : List StreamId) :
    Recalls cfg { m' with unacked } (es ++ [e]) := by
  refine ⟨fun s => ?_, fun s => ?_, fun s => ?_⟩ <;>
    obtain ⟨hprice, hbucket, hprovider⟩ := get?_ingestEntry hx hm s <;>
    rw [lastTick_concat_of_tick hx]
  · show m'.lastPrice.get? s = _
    rw [hprice]
    split
    · rfl
    · exact h.lastPrice s
  · show m'.lastBucket.get? s = _
    rw [hbucket]
    split
    · rfl
    · exact h.lastBucket s
  · show m'.provider.get? s = _
    rw [hprovider]
    split
    · rfl
    · exact h.provider s

omit [LT K] [DecidableLT K] in
/-- The return of a tick whose symbol is recalled is taken from the last tick of it, if from any. -/
theorem prevPrice_of_last {x : RawTick K × Int}
    (hprice : m.lastPrice.get? x.1.symbol =
      (lastTick cfg es x.1.symbol).map fun y => RawTick.mid y.1)
    (hbucket : m.lastBucket.get? x.1.symbol = (lastTick cfg es x.1.symbol).map Prod.snd)
    (hprovider : m.provider.get? x.1.symbol =
      (lastTick cfg es x.1.symbol).map fun y => y.1.provider) :
    m.prevPrice cfg.bucketSeconds x.1 x.2 = linkedPrice cfg es x := by
  unfold Persister.prevPrice linkedPrice
  rw [hprice, hbucket, hprovider]
  cases lastTick cfg es x.1.symbol with
  | none => simp
  | some y =>
    simp only [Option.map_some, Option.getD_some]
    by_cases hp : y.1.provider = x.1.provider <;>
      by_cases hgap : cfg.bucketSeconds * gapBarMultiple < x.2 - y.2 <;> simp [hp, hgap]

omit [LT K] [DecidableLT K] in
/-- The return of the next tick is taken from the last one of its symbol, if from any. -/
theorem Recalls.prevPrice (h : Recalls cfg m es) (x : RawTick K × Int) :
    m.prevPrice cfg.bucketSeconds x.1 x.2 = linkedPrice cfg es x :=
  prevPrice_of_last (h.lastPrice _) (h.lastBucket _) (h.provider _)

theorem ingestAll_concat (m : Persister K) (es : List Entry) (e : Entry) :
    m.ingestAll cfg (es ++ [e]) = (m.ingestAll cfg es).bind fun m =>
      (m.ingestEntry cfg e).map fun m => { m with unacked := m.unacked ++ [e.1] } := by
  rw [ingestAll_append]
  cases m.ingestAll cfg es with
  | none => rfl
  | some m =>
    simp only [Option.bind_some, ingestAll]
    cases m.ingestEntry cfg e <;> rfl

theorem recalls_ingestAll (hes : ∀ e ∈ es, ∃ x, tickOf cfg e = some x)
    (hm : (fresh : Persister K).ingestAll cfg es = some m) : Recalls cfg m es := by
  induction es using List.reverseRecOn generalizing m with
  | nil =>
    cases hm
    exact recalls_fresh cfg
  | append_singleton es e ih =>
    rw [ingestAll_concat] at hm
    obtain ⟨m₁, hm₁, hm⟩ := Option.bind_eq_some_iff.mp hm
    obtain ⟨m₂, hm₂, rfl⟩ := Option.map_eq_some_iff.mp hm
    obtain ⟨x, hx⟩ := hes e (List.mem_append_right _ (List.mem_singleton_self e))
    exact (ih (fun e he => hes e (List.mem_append_left _ he)) hm₁).ingestEntry hx hm₂ _

theorem isSome_ingestEntry (m : Persister K) {x : RawTick K × Int} (hx : tickOf cfg e = some x) :
    (m.ingestEntry cfg e).isSome =
      (BucketAccumulator.logReturn (RawTick.mid x.1)
        (m.prevPrice cfg.bucketSeconds x.1 x.2)).isSome := by
  rw [ingestEntry_of_tick hx]
  exact isSome_ingestTick (tickOf_eq_some_iff.mp hx).2 e.1

/-- An entry that is no tick is passed over. -/
theorem ingestEntry_of_tickOf_eq_none (hx : tickOf cfg e = none) (hm : m.ingestEntry cfg e = some m') :
    m' = m := by
  unfold Persister.ingestEntry at hm
  split at hm
  · next tick hp =>
    obtain ⟨bucket, -, -, -, hb, -⟩ := ingestTick_eq_some hm
    rw [tickOf, hp, Option.bind_some, hb] at hx
    cases hx
  · cases hm
    rfl

/-- **A page of a stream whose entries can all be stored** folds into an empty memory. -/
theorem exists_ingestAll {stream : List Entry} (hst : ∀ e ∈ stream, Storable cfg e)
    (hret : ReturnsOk cfg stream) (hes : es <:+: stream) (hlen : es.length ≤ cfg.flushMaxRows) :
    ∃ m, (fresh : Persister K).ingestAll cfg es = some m := by
  induction es using List.reverseRecOn with
  | nil => exact ⟨_, rfl⟩
  | append_singleton es f ih =>
    obtain ⟨pre, post, rfl⟩ := hes
    rw [List.length_append, List.length_singleton] at hlen
    obtain ⟨m, hm⟩ := ih ⟨pre, [f] ++ post, by simp⟩ (by omega)
    have htick : ∀ e ∈ es ++ [f], ∃ x, tickOf cfg e = some x := fun e he => by
      obtain ⟨x, hx, -⟩ := hst e (by simp only [List.mem_append] at he ⊢; tauto)
      exact ⟨x, hx⟩
    have hrec := recalls_ingestAll (fun e he => htick e (List.mem_append_left _ he)) hm
    obtain ⟨y, hy⟩ := htick f (List.mem_append_right _ (List.mem_singleton_self f))
    have hsome : (m.ingestEntry cfg f).isSome := by
      rw [isSome_ingestEntry m hy, hrec.prevPrice, linkedPrice]
      cases hlast : lastTick cfg es y.1.symbol with
      | none => rfl
      | some x =>
        obtain ⟨xs, e, ys, rfl, hx, hsym, hys⟩ := lastTick_eq_some hlast
        dsimp only
        split
        · next hsame =>
          simp only [List.length_append, List.length_cons] at hlen
          refine hret (pre ++ xs) e ys f post (by simp) (by omega) (fun y' hy' z hz z' hz' => ?_)
            x hx y hy hsym hsame.1 hsame.2
          rw [hx] at hz'
          cases hz'
          rw [hsym]
          exact hys y' hy' z hz
        · rfl
    obtain ⟨m', hm'⟩ := Option.isSome_iff_exists.mp hsome
    exact ⟨_, by rw [ingestAll_concat, hm, Option.bind_some, hm']; rfl⟩

/-- **A return that raises** stops the fold of the page it is in. -/
theorem ingestAll_eq_none_of_return {f : Entry} {ys : List Entry}
    (hst : ∀ e' ∈ e :: ys ++ [f], Storable cfg e')
    (hys : ∀ y ∈ ys, ∀ x ∈ tickOf cfg y, ∀ z ∈ tickOf cfg e, x.1.symbol ≠ z.1.symbol)
    (hret : ¬ ReturnOk cfg e f) : (fresh : Persister K).ingestAll cfg (e :: ys ++ [f]) = none := by
  rw [ingestAll_concat]
  cases hm : (fresh : Persister K).ingestAll cfg (e :: ys) with
  | none => rfl
  | some m =>
    have htick : ∀ e' ∈ e :: ys ++ [f], ∃ x, tickOf cfg e' = some x := fun e' he' =>
      (hst e' he').imp fun x hx => hx.1
    have hrec := recalls_ingestAll (fun e' he' => htick e' (List.mem_append_left _ he')) hm
    unfold ReturnOk at hret
    push Not at hret
    obtain ⟨x, hx, y, hy, hsym, hprov, hgap, hlog⟩ := hret
    have hlast : lastTick cfg (e :: ys) y.1.symbol = some x :=
      lastTick_of_split [] hx hsym fun y' hy' z hz => by
        rw [← hsym]
        exact hys y' hy' z hz x hx
    have hnone : ¬ (m.ingestEntry cfg f).isSome = true := by
      rw [isSome_ingestEntry m hy, hrec.prevPrice, linkedPrice, hlast]
      dsimp only
      rw [if_pos ⟨hprov, not_lt.mpr hgap⟩]
      exact hlog
    rw [Option.bind_some, Option.not_isSome_iff_eq_none.mp hnone]
    rfl

/-! ## What the memory has to commit -/

/-- The prices of an accumulator. -/
def priceBar (acc : BucketAccumulator K) : Ohlc K := ⟨acc.opening, acc.high, acc.low, acc.close, acc.tickCount⟩

/-- The memory has folded in these entries: it knows each tick's row, and an id not below the tick's. An
accumulator holds the prices of its ticks, and its id is that of one of them. -/
structure Carries (cfg : PersisterConfig K) (m : Persister K) (es : List Entry) : Prop where
  unacked : m.unacked = es.map Prod.fst
  keyed : ∀ k acc, m.accs.get? k = some acc → (acc.symbol, acc.bucket) = k
  empty : es = [] → m.accs.isEmpty = true
  bars : ∀ k, (m.accs.get? k).map priceBar = barOf ((pricesOf cfg k es).map Prod.snd)
  top : ∀ k id, m.maxId.get? k = some id → ∃ e ∈ es, e.1 = id ∧ ∃ x ∈ tickOf cfg e, (x.1.symbol, x.2) = k
  ticks : ∀ e ∈ es, ∀ x ∈ tickOf cfg e, (∃ acc, m.accs.get? (x.1.symbol, x.2) = some acc) ∧
    ∃ id, m.maxId.get? (x.1.symbol, x.2) = some id ∧ e.1 ≤ id

/-- Every row in memory is of a symbol in `instruments`. -/
def Listed (cfg : PersisterConfig K) (m : Persister K) : Prop :=
  ∀ k acc, m.accs.get? k = some acc → k.1 ∈ cfg.instruments

theorem carries_clearBatch (cfg : PersisterConfig K) (m : Persister K) : Carries cfg m.clearBatch [] :=
  ⟨rfl, fun _ _ h => (nomatch h), fun _ => rfl, fun _ => rfl, fun _ _ h => (nomatch h), fun _ h => (nomatch h)⟩

theorem carries_clear (cfg : PersisterConfig K) (m : Persister K) : Carries cfg m.clear [] :=
  ⟨rfl, fun _ _ h => (nomatch h), fun _ => rfl, fun _ => rfl, fun _ _ h => (nomatch h), fun _ h => (nomatch h)⟩

theorem Carries.accs_isEmpty_eq_false (h : Carries cfg m es) (he : e ∈ es)
    (hs : Storable cfg e) : m.accs.isEmpty = false := by
  obtain ⟨x, hx, -⟩ := hs
  obtain ⟨⟨acc, hacc⟩, -⟩ := h.ticks e he x hx
  exact Dict.isEmpty_eq_false_of_get? hacc

omit [LT K] [DecidableLT K] in
theorem accFor_key {bs : Int} {tick : RawTick K} {bucket : Int} {acc : BucketAccumulator K}
    (hkeyed : ∀ k acc, m.accs.get? k = some acc → (acc.symbol, acc.bucket) = k)
    (hb : floorToBucket tick.ts bs = some bucket)
    (h : m.accFor bs (tick.symbol, bucket) tick = some acc) :
    (acc.symbol, acc.bucket) = (tick.symbol, bucket) := by
  unfold accFor at h
  split at h
  · next hacc =>
    cases h
    exact hkeyed _ _ hacc
  · unfold BucketAccumulator.start at h
    rw [hb] at h
    cases h
    rfl

/-- The highest id of a row after one more. -/
theorem get?_raise {maxId raised : Dict BarKey StreamId} {key : BarKey} {id : StreamId}
    (h : raised = match maxId.get? key with
      | some prev => if prev < id then maxId.set key id else maxId
      | none => maxId.set key id) :
    ∃ top, raised.get? key = some top ∧ id ≤ top ∧ (top = id ∨ maxId.get? key = some top) ∧
      (∀ old, maxId.get? key = some old → old ≤ top) ∧
      ∀ k, k ≠ key → raised.get? k = maxId.get? k := by
  subst h
  cases hlast : maxId.get? key with
  | none =>
    exact ⟨id, Dict.get?_set_self .., le_refl _, .inl rfl, fun _ h => (nomatch h), fun k hk =>
      Dict.get?_set_ne _ _ hk⟩
  | some prev =>
    dsimp only
    by_cases hlt : prev < id
    · rw [if_pos hlt]
      refine ⟨id, Dict.get?_set_self .., le_refl _, .inl rfl, fun old hold => ?_, fun k hk =>
        Dict.get?_set_ne _ _ hk⟩
      cases hold
      exact le_of_lt hlt
    · rw [if_neg hlt]
      refine ⟨prev, hlast, not_lt.mp hlt, .inr rfl, fun old hold => ?_, fun _ _ => rfl⟩
      cases hold
      exact le_refl _

/-- The prices of the accumulator a tick goes to. -/
theorem priceBar_add {bs : Int} {tick : RawTick K} {key : BarKey} {acc acc' : BucketAccumulator K} {p : K}
    {prev : Option K} (hacc : m.accFor bs key tick = some acc) (hp : p = RawTick.mid tick)
    (hadd : acc.add p prev = some acc') :
    priceBar acc' = ((m.accs.get? key).map priceBar).elim ⟨p, p, p, p, 1⟩ (addPrice · p) := by
  obtain ⟨r, -, rfl⟩ := Option.map_eq_some_iff.mp hadd
  unfold accFor at hacc
  split at hacc
  · next held =>
    cases hacc
    rw [held]
    rfl
  · next hnone =>
    obtain ⟨bucket, -, rfl⟩ := Option.map_eq_some_iff.mp hacc
    rw [hnone, hp]
    simp [priceBar, pyMax, pyMin]

/-- **Folding an entry in**, tick or not. -/
theorem Carries.ingestEntry (h : Carries cfg m es) (hm : m.ingestEntry cfg e = some m') :
    Carries cfg { m' with unacked := m'.unacked ++ [e.1] } (es ++ [e]) ∧
      ((Storable cfg e ∨ tickOf cfg e = none) → Listed cfg m → Listed cfg m') := by
  unfold Persister.ingestEntry at hm
  cases hp : parseTick cfg.codec e.2 with
  | none =>
    rw [hp] at hm
    cases hm
    -- no tick: only its id is kept
    have hnone : tickOf cfg e = none := by rw [tickOf, hp]; rfl
    have hprice : entryPrice cfg e.2 = none := by rw [entryPrice_eq, hnone]; rfl
    refine ⟨⟨?_, h.keyed, fun hnil => by simp at hnil, fun k => ?_, fun k id hid => ?_, fun f hf x hx => ?_⟩,
      fun _ hl => hl⟩
    · rw [List.map_append, ← h.unacked]
      rfl
    · rw [pricesOf_concat, hprice]
      exact h.bars k
    · obtain ⟨f, hf, hfid⟩ := h.top k id hid
      exact ⟨f, List.mem_append_left _ hf, hfid⟩
    · rcases List.mem_append.mp hf with hf | hf
      · exact h.ticks f hf x hx
      · rw [List.mem_singleton.mp hf, hnone] at hx
        cases hx
  | some tick =>
    rw [hp] at hm
    obtain ⟨bucket, acc, acc', prev, hb, hacc, hadd, haccs, hmax, hun⟩ := ingestTick_eq_some hm
    have hx : tickOf cfg e = some (tick, bucket) := tickOf_eq_some_iff.mpr ⟨hp, hb⟩
    have hkey : (acc'.symbol, acc'.bucket) = (tick.symbol, bucket) := by
      have hfor := accFor_key h.keyed hb hacc
      obtain ⟨r, -, rfl⟩ := Option.map_eq_some_iff.mp hadd
      exact hfor
    -- the buckets that were open stay open
    have hold : ∀ k, (∃ acc, m.accs.get? k = some acc) → ∃ acc, m'.accs.get? k = some acc := by
      rintro k ⟨a, ha⟩
      rw [haccs, Dict.get?_set]
      split
      · exact ⟨_, rfl⟩
      · exact ⟨a, ha⟩
    obtain ⟨id, hget, hle, htop, hmono, hothers⟩ := get?_raise hmax
    have hprice : entryPrice cfg e.2 = some ((tick.symbol, bucket), RawTick.mid tick) := by
      rw [entryPrice_eq, hx]
      rfl
    refine ⟨⟨?_, fun k a ha => ?_, fun hnil => by simp at hnil, fun k => ?_, fun k raised hraised => ?_,
      fun f hf x hfx => ?_⟩, fun hs hl k a ha => ?_⟩
    · show m'.unacked ++ [e.1] = _
      rw [List.map_append, ← h.unacked, hun]
      rfl
    · change m'.accs.get? k = some a at ha
      rw [haccs, Dict.get?_set] at ha
      split at ha
      · next hk =>
        cases ha
        rw [hk]
        exact hkey
      · exact h.keyed k a ha
    · show (m'.accs.get? k).map priceBar = _
      rw [haccs, Dict.get?_set, pricesOf_concat, hprice]
      dsimp only
      by_cases hk : k = (tick.symbol, bucket)
      · rw [if_pos hk, if_pos hk.symm, List.map_append, List.map_singleton, barOf_concat, ← h.bars, hk]
        exact congrArg some (priceBar_add hacc rfl hadd)
      · rw [if_neg hk, if_neg (Ne.symm hk)]
        exact h.bars k
    · change m'.maxId.get? k = some raised at hraised
      have hold : m.maxId.get? k = some raised → ∃ f ∈ es ++ [e], f.1 = raised ∧
          ∃ x ∈ tickOf cfg f, (x.1.symbol, x.2) = k := fun hmem =>
        (h.top k raised hmem).imp fun f hf => ⟨List.mem_append_left _ hf.1, hf.2⟩
      by_cases hk : k = (tick.symbol, bucket)
      · subst hk
        rw [hget] at hraised
        cases hraised
        rcases htop with rfl | hmem
        · exact ⟨e, List.mem_append_right _ (List.mem_singleton_self e), rfl, _, hx, rfl⟩
        · exact hold hmem
      · exact hold ((hothers k hk).symm.trans hraised)
    · show (∃ acc, m'.accs.get? _ = some acc) ∧ ∃ id, m'.maxId.get? _ = some id ∧ _
      rcases List.mem_append.mp hf with hf | hf
      · obtain ⟨hacc₁, id₁, hid₁, hle₁⟩ := h.ticks f hf x hfx
        refine ⟨hold _ hacc₁, ?_⟩
        by_cases hk : (x.1.symbol, x.2) = (tick.symbol, bucket)
        · rw [hk] at hid₁ ⊢
          exact ⟨id, hget, le_trans hle₁ (hmono id₁ hid₁)⟩
        · exact ⟨id₁, (hothers _ hk).trans hid₁, hle₁⟩
      · rw [List.mem_singleton.mp hf] at hfx ⊢
        rw [hx] at hfx
        cases hfx
        exact ⟨⟨acc', by rw [haccs]; exact Dict.get?_set_self ..⟩, id, hget, hle⟩
    · rw [haccs, Dict.get?_set] at ha
      split at ha
      · next hk =>
        rcases hs with ⟨x, hx', hs⟩ | hnone
        · rw [hx] at hx'
          cases hx'
          rw [hk]
          exact hs
        · rw [hx] at hnone
          cases hnone
      · exact hl k a ha

theorem Carries.ingestAll {entries : List Entry} (h : Carries cfg m es)
    (hm : m.ingestAll cfg entries = some m') :
    Carries cfg m' (es ++ entries) ∧
      ((∀ e ∈ entries, Storable cfg e ∨ tickOf cfg e = none) → Listed cfg m → Listed cfg m') := by
  induction entries generalizing m es with
  | nil =>
    cases hm
    rw [List.append_nil]
    exact ⟨h, fun _ hl => hl⟩
  | cons e entries ih =>
    unfold Persister.ingestAll at hm
    obtain ⟨m₁, hm₁, hrest⟩ := Option.bind_eq_some_iff.mp hm
    obtain ⟨hc, hl⟩ := h.ingestEntry hm₁
    obtain ⟨hc', hl'⟩ := ih hc hrest
    rw [List.append_cons]
    refine ⟨hc', fun hs hlist => hl' (fun e' he' => hs e' (List.mem_cons_of_mem _ he')) ?_⟩
    exact hl (hs e (List.mem_cons_self ..)) hlist

/-- A fold of ticks leaves a provider in memory. -/
theorem provider_ingestAll (hm : m.ingestAll cfg es = some m') (hne : es ≠ [])
    (hst : ∀ e ∈ es, Storable cfg e) : m'.provider.isEmpty = false := by
  obtain ⟨init, e, rfl⟩ : ∃ init e, es = init ++ [e] :=
    ⟨_, _, (List.dropLast_append_getLast hne).symm⟩
  rw [ingestAll_concat] at hm
  obtain ⟨m₁, -, hm⟩ := Option.bind_eq_some_iff.mp hm
  obtain ⟨m₂, hm₂, rfl⟩ := Option.map_eq_some_iff.mp hm
  obtain ⟨x, hx, -⟩ := hst e (List.mem_append_right _ (List.mem_singleton_self e))
  have hget := (get?_ingestEntry hx hm₂ x.1.symbol).2.2
  rw [if_pos rfl] at hget
  exact Dict.isEmpty_eq_false_of_get? hget

/-! ## Committing it -/

/-- A batch of rows of known symbols commits. -/
theorem Carries.exists_upsert (h : Carries cfg m es) (hl : Listed cfg m) (table : BarTable K) :
    ∃ table', upsertBars cfg.instruments table m.batch = some table' := by
  unfold upsertBars
  refine ⟨_, if_pos fun r hr => ?_⟩
  obtain ⟨⟨k, acc⟩, hmem, hr⟩ := List.mem_filterMap.mp hr
  obtain ⟨id, -, rfl⟩ := Option.map_eq_some_iff.mp hr
  have hacc := Dict.mem_entries_iff.mp hmem
  have hsym := hl k acc hacc
  rw [← h.keyed k acc hacc] at hsym
  exact hsym

/-- A batch with a row of an unknown symbol does not. -/
theorem Carries.upsert_eq_none (h : Carries cfg m es) (he : e ∈ es) {x : RawTick K × Int}
    (hx : tickOf cfg e = some x) (hsym : x.1.symbol ∉ cfg.instruments) (table : BarTable K) :
    upsertBars cfg.instruments table m.batch = none := by
  obtain ⟨⟨acc, hacc⟩, id, hid, -⟩ := h.ticks e he x hx
  have hfind := find?_batch h.keyed (x.1.symbol, x.2)
  rw [hacc, Option.bind_some, hid, Option.map_some] at hfind
  unfold upsertBars
  refine if_neg fun hall => hsym ?_
  have hmem := hall _ (List.mem_of_find?_eq_some hfind)
  have hkey := h.keyed _ acc hacc
  exact (Prod.mk.injEq .. ▸ hkey).1 ▸ hmem

/-- What a commit leaves in a row, by the watermarks. -/
theorem Carries.get?_upsert (h : Carries cfg m es) {table table' : BarTable K}
    (hu : upsertBars cfg.instruments table m.batch = some table') (k : BarKey) :
    (∀ r, table.get? k = some r → ∃ r', table'.get? k = some r' ∧ r.lastStreamId ≤ r'.lastStreamId) ∧
      ∀ acc id, m.accs.get? k = some acc → m.maxId.get? k = some id →
        ∃ r', table'.get? k = some r' ∧ id ≤ r'.lastStreamId := by
  unfold upsertBars at hu
  split at hu
  · cases hu
    rw [get?_foldl_upsertRow table (nodup_batch h.keyed), find?_batch h.keyed]
    constructor
    · intro r hr
      rw [hr]
      cases (m.accs.get? k).bind _ with
      | none => exact ⟨r, rfl, le_refl _⟩
      | some b => exact ⟨mergeRow r b, rfl, (le_lastStreamId_mergeRow r b).1⟩
    · intro acc id hacc hid
      rw [hacc, Option.bind_some, hid, Option.map_some]
      cases htable : table.get? k with
      | none => exact ⟨_, rfl, le_refl id⟩
      | some r =>
        have hle := (le_lastStreamId_mergeRow r { acc.sealBar with lastStreamId := id }).2
        exact ⟨_, rfl, hle⟩
  · cases hu

/-- What a batch does to a row: nothing, or it is merged, and then the row's watermark is the batch's. -/
theorem Carries.row_upsert (h : Carries cfg m es)
    (hu : upsertBars cfg.instruments table m.batch = some table') (k : BarKey) :
    table'.get? k = table.get? k ∨
      ∃ r, table'.get? k = some r ∧ m.maxId.get? k = some r.lastStreamId ∧
        ∃ b, barOf ((pricesOf cfg k es).map Prod.snd) = some b ∧
          r.marked.bar = ((table.get? k).map (·.marked.bar)).elim b (mergeBars · b) := by
  unfold upsertBars at hu
  split at hu
  · cases hu
    rw [get?_foldl_upsertRow table (nodup_batch h.keyed), find?_batch h.keyed, ← h.bars k]
    cases hacc : m.accs.get? k with
    | none => exact .inl rfl
    | some acc =>
      cases hid : m.maxId.get? k with
      | none => exact .inl rfl
      | some id =>
        simp only [Option.bind_some, Option.map_some]
        cases hrow : table.get? k with
        | none => exact .inr ⟨_, rfl, rfl, _, rfl, rfl⟩
        | some old =>
          simp only [Option.map_some, Option.getD_some]
          by_cases hlt : old.lastStreamId < id
          · refine .inr ⟨_, rfl, ?_, _, rfl, ?_⟩
            · rw [mergeRow, if_pos hlt]
            · rw [bar_mergeRow, if_pos hlt]
              rfl
          · refine .inl ?_
            rw [mergeRow, if_neg hlt]
  · cases hu

/-- **The batch settles its entries.** -/
theorem Carries.settles (h : Carries cfg m es) {table table' : BarTable K}
    (hu : upsertBars cfg.instruments table m.batch = some table') (he : e ∈ es)
    (hs : Storable cfg e) : Ticks.Settled cfg table' e := by
  obtain ⟨x, hx, -⟩ := hs
  obtain ⟨⟨acc, hacc⟩, id, hid, hle⟩ := h.ticks e he x hx
  obtain ⟨r, hr, hidr⟩ := (h.get?_upsert hu _).2 acc id hacc hid
  refine ⟨((x.1.symbol, x.2), RawTick.mid x.1), ?_, r, hr, le_trans hle hidr⟩
  rw [Option.mem_def, entryPrice_eq, hx]
  rfl

/-- What is settled stays so. -/
theorem Carries.settled_mono (h : Carries cfg m es) {table table' : BarTable K}
    (hu : upsertBars cfg.instruments table m.batch = some table')
    (hs : Ticks.Settled cfg table e) : Ticks.Settled cfg table' e := by
  obtain ⟨x, hx, r, hr, hle⟩ := hs
  obtain ⟨r', hr', hrr⟩ := (h.get?_upsert hu x.1).1 r hr
  exact ⟨x, hx, r', hr', le_trans hle hrr⟩

end Persister

end FxTracker.Worker
