import FxTracker.Worker.Bars

/-!
# The persister's memory

`fx_worker/persister.py`: what a `Persister` keeps between reads, how an entry is folded into it, and
the batch it commits.

* `holds_ingestAll` — the memory after a fold is the summary of the entries folded in, whatever
  mixture of ticks and malformed entries they are
* `covers_commit`, `covers_replay` — a committed batch adds its entries to what the table covers
  when they are the next ones, and changes nothing when they are covered already
-/

namespace FxTracker.Worker

variable {K : Type}

abbrev Entry := StreamId × Fields

/-- What a worker is set up with. A page holds at least one row. -/
structure PersisterConfig (K : Type) where
  codec : Codec K
  bucketSeconds : Int
  flushMaxRows : Nat
  flushMaxRows_pos : 0 < flushMaxRows
  /-- The rows of the `instruments` table. -/
  instruments : List String

/-- What `_ingest_entry` reads of an entry. -/
structure RawTick (K : Type) where
  symbol : String
  bid : K
  ask : K
  ts : Int
  provider : String

/-- The `try` of `_ingest_entry`: `none` if the entry is malformed. -/
def parseTick (codec : Codec K) (fields : Fields) : Option (RawTick K) := do
  let symbol ← fields.get? "s"
  let bid ← codec.float (← fields.get? "b")
  let ask ← codec.float (← fields.get? "a")
  let ts ← codec.fromisoformat (← fields.get? "t")
  return { symbol, bid, ask, ts := ts.instant, provider := (fields.get? "p").getD "" }

/-- The fields of a `Persister` that outlive a read. -/
structure Persister (K : Type) where
  accs : Dict BarKey (BucketAccumulator K)
  lastPrice : Dict String K
  lastBucket : Dict String Int
  provider : Dict String String
  maxId : Dict BarKey StreamId
  unacked : List StreamId

namespace Persister

/-- A new process. -/
def fresh : Persister K := ⟨.empty, .empty, .empty, .empty, .empty, []⟩

section Fold

variable [FloatOps K] [LT K] [DecidableLT K]

def RawTick.mid (tick : RawTick K) : K := (tick.bid + tick.ask) / (2 : ℕ)

/-- The accumulator of a row, started if there is none. -/
def accFor (m : Persister K) (bucketSeconds : Int) (key : BarKey) (tick : RawTick K) :
    Option (BucketAccumulator K) :=
  match m.accs.get? key with
  | some acc => some acc
  | none => BucketAccumulator.start tick.symbol tick.ts (RawTick.mid tick) bucketSeconds .stream

/-- `_ingest_entry` of a tick that parsed; `none` where an exception escapes. -/
def ingestTick (bucketSeconds : Int) (m : Persister K) (id : StreamId) (tick : RawTick K) :
    Option (Persister K) := do
  let lastPrice :=
    if (m.provider.get? tick.symbol).getD tick.provider ≠ tick.provider
    then m.lastPrice.erase tick.symbol else m.lastPrice
  let mid := RawTick.mid tick
  let bucket ← floorToBucket tick.ts bucketSeconds
  let lastPrice :=
    if bucketSeconds * gapBarMultiple < bucket - (m.lastBucket.get? tick.symbol).getD bucket
    then lastPrice.erase tick.symbol else lastPrice
  let key := (tick.symbol, bucket)
  let acc ← m.accFor bucketSeconds key tick
  let acc ← acc.add mid (lastPrice.get? tick.symbol)
  return { m with
    accs := m.accs.set key acc
    lastPrice := lastPrice.set tick.symbol mid
    lastBucket := m.lastBucket.set tick.symbol bucket
    provider := m.provider.set tick.symbol tick.provider
    maxId := match m.maxId.get? key with
      | some prev => if prev < id then m.maxId.set key id else m.maxId
      | none => m.maxId.set key id }

/-- `_ingest_entry`. -/
def ingestEntry (cfg : PersisterConfig K) (m : Persister K) (e : Entry) : Option (Persister K) :=
  match parseTick cfg.codec e.2 with
  | some tick => m.ingestTick cfg.bucketSeconds e.1 tick
  | none => some m

/-- The loop over what a read answered. -/
def ingestAll (cfg : PersisterConfig K) (m : Persister K) : List Entry → Option (Persister K)
  | [] => some m
  | e :: entries => do
    let m ← m.ingestEntry cfg e
    ingestAll cfg { m with unacked := m.unacked ++ [e.1] } entries

/-- The loop over two reads. -/
theorem ingestAll_append (cfg : PersisterConfig K) (m : Persister K) (xs ys : List Entry) :
    m.ingestAll cfg (xs ++ ys) = (m.ingestAll cfg xs).bind fun m => m.ingestAll cfg ys := by
  induction xs generalizing m with
  | nil => rfl
  | cons x xs ih =>
    rw [List.cons_append, ingestAll, ingestAll]
    cases m.ingestEntry cfg x with
    | none => rfl
    | some m' => exact ih _

/-- What folding a tick in does to the accumulators. -/
theorem ingestTick_eq_some {m m' : Persister K} {bs : Int} {id : StreamId} {tick : RawTick K}
    (h : m.ingestTick bs id tick = some m') :
    ∃ bucket acc acc' prev, floorToBucket tick.ts bs = some bucket ∧
      m.accFor bs (tick.symbol, bucket) tick = some acc ∧ acc.add (RawTick.mid tick) prev = some acc' ∧
      m'.accs = m.accs.set (tick.symbol, bucket) acc' ∧
      (m'.maxId = match m.maxId.get? (tick.symbol, bucket) with
        | some last => if last < id then m.maxId.set (tick.symbol, bucket) id else m.maxId
        | none => m.maxId.set (tick.symbol, bucket) id) ∧
      m'.unacked = m.unacked := by
  unfold ingestTick at h
  simp only [Option.bind_eq_bind, Option.bind_eq_some_iff, Option.pure_def, Option.some.injEq] at h
  obtain ⟨bucket, hbucket, acc, hacc, acc', hadd, rfl⟩ := h
  exact ⟨bucket, acc, acc', _, hbucket, hacc, hadd, rfl, rfl, rfl⟩

end Fold

/-- The batch `flush` commits. Every key of `_accs` has its `_max_id`: they are set together. -/
def batch (m : Persister K) : List (BarRow K) :=
  m.accs.entries.filterMap fun e =>
    (m.maxId.get? e.1).map fun id => { e.2.sealBar with lastStreamId := id }

section Batch

variable {m : Persister K} (h : ∀ k acc, m.accs.get? k = some acc → (acc.symbol, acc.bucket) = k)

include h

/-- The rows of the batch are distinct where every accumulator knows its key. -/
theorem nodup_batch : (m.batch.map BarRow.key).Nodup :=
  Dict.nodup_filterMap fun k acc r hacc hr => by
    obtain ⟨id, -, rfl⟩ := Option.map_eq_some_iff.mp hr
    exact h k acc hacc

theorem find?_batch (k : BarKey) :
    m.batch.find? (·.key = k) = (m.accs.get? k).bind fun acc =>
      (m.maxId.get? k).map fun id => { acc.sealBar with lastStreamId := id } :=
  Dict.find?_filterMap (fun k acc r hacc hr => by
    obtain ⟨id, -, rfl⟩ := Option.map_eq_some_iff.mp hr
    exact h k acc hacc) k

end Batch

/-- What a successful `flush` forgets. -/
def clearBatch (m : Persister K) : Persister K :=
  { m with accs := .empty, maxId := .empty, unacked := [] }

/-- What `drain_own_pending` forgets before it reads. -/
def clear (m : Persister K) : Persister K := { m.clearBatch with lastPrice := .empty }

end Persister

/-! ## What the memory summarises -/

section Summary

variable [LinearOrder K] [FloatOps K]
  {cfg : PersisterConfig K} {m m' : Persister K} {es : List Entry} {e : Entry}

/-- The row an entry counts in, and its price there; none if it does not parse or has no bucket. -/
def entryPrice (cfg : PersisterConfig K) (fields : Fields) : Option (BarKey × K) := do
  let tick ← parseTick cfg.codec fields
  let bucket ← floorToBucket tick.ts cfg.bucketSeconds
  return ((tick.symbol, bucket), Persister.RawTick.mid tick)

/-- The prices a list of entries brings to a row, each with its stream id. -/
def pricesOf (cfg : PersisterConfig K) (k : BarKey) (es : List Entry) : List (StreamId × K) :=
  es.filterMap fun e => (entryPrice cfg e.2).bind fun p => if p.1 = k then some (e.1, p.2) else none

omit [LinearOrder K] in
theorem pricesOf_append (k : BarKey) (xs ys : List Entry) :
    pricesOf cfg k (xs ++ ys) = pricesOf cfg k xs ++ pricesOf cfg k ys :=
  List.filterMap_append ..

omit [LinearOrder K] in
theorem mem_pricesOf_iff {k : BarKey} {x : StreamId × K} :
    x ∈ pricesOf cfg k es ↔ ∃ e ∈ es, e.1 = x.1 ∧ entryPrice cfg e.2 = some (k, x.2) := by
  unfold pricesOf
  rw [List.mem_filterMap]
  constructor
  · rintro ⟨e, he, hx⟩
    obtain ⟨p, hp, hpx⟩ := Option.bind_eq_some_iff.mp hx
    split at hpx
    · next hk =>
      cases hpx
      exact ⟨e, he, rfl, by rw [hp, ← hk]⟩
    · cases hpx
  · rintro ⟨e, he, hid, hp⟩
    refine ⟨e, he, ?_⟩
    rw [hp, Option.bind_some, if_pos rfl, hid]

namespace Persister

/-- What the memory would commit to a row. -/
def marked (m : Persister K) (k : BarKey) : Option (Marked StreamId K) :=
  (m.accs.get? k).bind fun acc => (m.maxId.get? k).map fun id =>
    { bar := ⟨acc.opening, acc.high, acc.low, acc.close, acc.tickCount⟩, mark := id }

/-- The memory has folded in exactly these entries since it was last cleared. -/
structure Holds (cfg : PersisterConfig K) (m : Persister K) (es : List Entry) : Prop where
  marked : ∀ k, m.marked k = summarize (pricesOf cfg k es)
  paired : ∀ k, m.accs.get? k = none ↔ m.maxId.get? k = none
  keyed : ∀ k acc, m.accs.get? k = some acc → (acc.symbol, acc.bucket) = k
  priced : ∀ e ∈ es, (parseTick cfg.codec e.2).isSome → (entryPrice cfg e.2).isSome
  unacked : m.unacked = es.map Prod.fst

theorem holds_clearBatch (cfg : PersisterConfig K) (m : Persister K) : Holds cfg m.clearBatch [] where
  marked := fun _ => rfl
  paired := fun _ => ⟨fun _ => rfl, fun _ => rfl⟩
  keyed := fun _ _ h => by cases h
  priced := fun _ h => by cases h
  unacked := rfl

theorem holds_clear (cfg : PersisterConfig K) (m : Persister K) : Holds cfg m.clear [] :=
  let h := holds_clearBatch cfg m
  ⟨h.marked, h.paired, h.keyed, h.priced, h.unacked⟩

/-- A memory that has folded a tick in has a row to commit. -/
theorem Holds.accs_isEmpty (h : Holds cfg m es)
    (hparse : ∀ e ∈ es, (parseTick cfg.codec e.2).isSome) : m.accs.isEmpty = true ↔ es = [] := by
  constructor
  · intro hempty
    rw [List.eq_nil_iff_forall_not_mem]
    intro e he
    obtain ⟨p, hp⟩ := Option.isSome_iff_exists.mp (h.priced e he (hparse e he))
    have hmem : (e.1, p.2) ∈ pricesOf cfg p.1 es := mem_pricesOf_iff.mpr ⟨e, he, rfl, hp⟩
    have hget : m.accs.get? p.1 = none := by
      rw [Dict.get?_eq_none_iff, Dict.keys, Dict.isEmpty_iff.mp hempty]
      exact List.not_mem_nil
    have hsum := h.marked p.1
    rw [Persister.marked, hget] at hsum
    rw [summarize_eq_none_iff.mp hsum.symm] at hmem
    cases hmem
  · rintro rfl
    rw [Dict.isEmpty_iff, ← List.map_eq_nil_iff, List.eq_nil_iff_forall_not_mem]
    intro k hk
    refine absurd hk (Dict.get?_eq_none_iff.mp ((h.paired k).mpr ?_))
    cases hacc : m.accs.get? k with
    | none => exact (h.paired k).mp hacc
    | some acc =>
      have hsum := h.marked k
      rw [Persister.marked, hacc, Option.bind_some] at hsum
      exact Option.map_eq_none_iff.mp hsum

/-! ### Folding one entry -/

/-- `add` in the terms of bars of prices. -/
theorem add_eq_some {acc acc' : BucketAccumulator K} {p : K} {prev : Option K}
    (h : acc.add p prev = some acc') :
    acc'.symbol = acc.symbol ∧ acc'.bucket = acc.bucket ∧
      (⟨acc'.opening, acc'.high, acc'.low, acc'.close, acc'.tickCount⟩ : Ohlc K) =
        Ohlc.add ⟨acc.opening, acc.high, acc.low, acc.close, acc.tickCount⟩ p := by
  obtain ⟨r, -, rfl⟩ := Option.map_eq_some_iff.mp h
  refine ⟨rfl, rfl, ?_⟩
  simp only [Ohlc.add, pyMax_eq_max, pyMin_eq_min]

/-- The id last folded into a row is that of one of the entries. -/
theorem Holds.last_mem (h : Holds cfg m es) {k : BarKey} {last : StreamId}
    (hlast : m.maxId.get? k = some last) : ∃ x ∈ es, x.1 = last := by
  obtain ⟨acc, hacc⟩ : ∃ acc, m.accs.get? k = some acc := by
    rw [← Option.isSome_iff_exists, Option.isSome_iff_ne_none]
    intro hnone
    rw [(h.paired k).mp hnone] at hlast
    cases hlast
  have hmarked := h.marked k
  rw [Persister.marked, hacc, hlast] at hmarked
  obtain ⟨x, hx, hmark⟩ := mark_mem hmarked.symm
  obtain ⟨e, he, hid, -⟩ := mem_pricesOf_iff.mp hx
  exact ⟨e, he, hid.trans hmark⟩

/-- The accumulator a tick goes to is that of its row, with the prices folded in so far. -/
theorem Holds.accFor (h : Holds cfg m es) {tick : RawTick K} {bucket : Int}
    (hbucket : floorToBucket tick.ts cfg.bucketSeconds = some bucket) {acc : BucketAccumulator K}
    (hacc : m.accFor cfg.bucketSeconds (tick.symbol, bucket) tick = some acc) (id : StreamId) :
    (acc.symbol, acc.bucket) = (tick.symbol, bucket) ∧
      some ⟨Ohlc.add ⟨acc.opening, acc.high, acc.low, acc.close, acc.tickCount⟩ (RawTick.mid tick), id⟩ =
        fold1 (m.marked (tick.symbol, bucket)) (id, RawTick.mid tick) := by
  unfold Persister.accFor at hacc
  split at hacc
  · next a ha =>
    cases hacc
    refine ⟨h.keyed _ _ ha, ?_⟩
    obtain ⟨last, hlast⟩ : ∃ last, m.maxId.get? (tick.symbol, bucket) = some last := by
      rw [← Option.isSome_iff_exists, Option.isSome_iff_ne_none]
      intro hnone
      rw [(h.paired _).mpr hnone] at ha
      cases ha
    rw [Persister.marked, ha, hlast]
    rfl
  · next ha =>
    obtain ⟨b, hb, rfl⟩ := Option.map_eq_some_iff.mp hacc
    rw [hbucket] at hb
    cases hb
    refine ⟨rfl, ?_⟩
    rw [Persister.marked, ha]
    simp only [Ohlc.add, max_self, min_self, Nat.zero_add]
    rfl

/-- **Folding a tick in** adds its price to its row. -/
theorem Holds.ingestTick (h : Holds cfg m es) {id : StreamId} {tick : RawTick K}
    (hasc : ∀ x ∈ es, x.1 < id) (hm : m.ingestTick cfg.bucketSeconds id tick = some m') :
    ∃ bucket, floorToBucket tick.ts cfg.bucketSeconds = some bucket ∧
      (∀ k, m'.marked k = if k = (tick.symbol, bucket) then
        fold1 (m.marked k) (id, RawTick.mid tick) else m.marked k) ∧
      (∀ k, m'.accs.get? k = none ↔ m'.maxId.get? k = none) ∧
      (∀ k acc, m'.accs.get? k = some acc → (acc.symbol, acc.bucket) = k) ∧
      m'.unacked = m.unacked := by
  obtain ⟨bucket, acc, acc', prev, hbucket, hacc, hadd, haccs, hmax, hun⟩ := ingestTick_eq_some hm
  obtain ⟨hsym, hbuc, hbar⟩ := add_eq_some hadd
  have hmax : m'.maxId = m.maxId.set (tick.symbol, bucket) id := by
    rw [hmax]
    cases hlast : m.maxId.get? (tick.symbol, bucket) with
    | none => rfl
    | some last =>
      obtain ⟨x, hx, rfl⟩ := h.last_mem hlast
      exact if_pos (hasc x hx)
  obtain ⟨hkey, hfold⟩ := h.accFor hbucket hacc id
  refine ⟨bucket, hbucket, fun k => ?_, fun k => ?_, fun k a hk => ?_, hun⟩
  · rw [Persister.marked, haccs, hmax, Dict.get?_set, Dict.get?_set]
    by_cases hk : k = (tick.symbol, bucket)
    · rw [if_pos hk, if_pos hk, if_pos hk, hk, ← hfold, ← hbar]
      rfl
    · rw [if_neg hk, if_neg hk, if_neg hk]
      rfl
  · rw [haccs, hmax, Dict.get?_set, Dict.get?_set]
    split
    · simp
    · exact h.paired k
  · rw [haccs, Dict.get?_set] at hk
    split at hk
    · next hkk =>
      cases hk
      rw [hsym, hbuc, hkk]
      exact hkey
    · exact h.keyed k a hk

omit [LinearOrder K] in
theorem pricesOf_concat (k : BarKey) (es : List Entry) (e : Entry) :
    pricesOf cfg k (es ++ [e]) = match entryPrice cfg e.2 with
      | some p => if p.1 = k then pricesOf cfg k es ++ [(e.1, p.2)] else pricesOf cfg k es
      | none => pricesOf cfg k es := by
  rw [pricesOf_append]
  cases hp : entryPrice cfg e.2 with
  | none => simp [pricesOf, hp]
  | some p => by_cases hk : p.1 = k <;> simp [pricesOf, hp, hk]

/-- **Folding an entry in**, tick or not. -/
theorem Holds.ingestEntry (h : Holds cfg m es) (hasc : ∀ x ∈ es, x.1 < e.1)
    (hm : m.ingestEntry cfg e = some m') :
    Holds cfg { m' with unacked := m'.unacked ++ [e.1] } (es ++ [e]) := by
  unfold Persister.ingestEntry at hm
  cases hparse : parseTick cfg.codec e.2 with
  | none =>
    rw [hparse] at hm
    cases hm
    have hprice : entryPrice cfg e.2 = none := by rw [entryPrice, hparse]; rfl
    refine ⟨fun k => ?_, h.paired, h.keyed, fun x hx hxp => ?_, ?_⟩
    · rw [pricesOf_concat, hprice]
      exact h.marked k
    · rcases List.mem_append.mp hx with hx | hx
      · exact h.priced x hx hxp
      · rw [List.mem_singleton.mp hx, hparse] at hxp
        cases hxp
    · rw [List.map_append, ← h.unacked]
      rfl
  | some tick =>
    rw [hparse] at hm
    obtain ⟨bucket, hbucket, hmarked, hpaired, hkeyed, hun⟩ := h.ingestTick hasc hm
    have hprice : entryPrice cfg e.2 = some ((tick.symbol, bucket), RawTick.mid tick) := by
      rw [entryPrice, hparse, Option.bind_eq_bind, Option.bind_some, hbucket]
      rfl
    refine ⟨fun k => ?_, hpaired, hkeyed, fun x hx hxp => ?_, ?_⟩
    · rw [pricesOf_concat, hprice]
      refine (hmarked k).trans ?_
      by_cases hk : k = (tick.symbol, bucket)
      · rw [if_pos hk]
        dsimp only
        rw [if_pos hk.symm, summarize_concat, h.marked]
      · rw [if_neg hk]
        dsimp only
        rw [if_neg (Ne.symm hk), h.marked]
    · rcases List.mem_append.mp hx with hx | hx
      · exact h.priced x hx hxp
      · rw [List.mem_singleton.mp hx, hprice]
        rfl
    · show m'.unacked ++ [e.1] = _
      rw [List.map_append, ← h.unacked, hun]
      rfl

/-- **Folding a page in.** -/
theorem holds_ingestAll (h : Holds cfg m es) {entries : List Entry}
    (hasc : (es ++ entries).Pairwise fun x y => x.1 < y.1)
    (hm : m.ingestAll cfg entries = some m') : Holds cfg m' (es ++ entries) := by
  induction entries generalizing m es with
  | nil =>
    cases hm
    rw [List.append_nil]
    exact h
  | cons e entries ih =>
    unfold ingestAll at hm
    obtain ⟨m₁, hm₁, hrest⟩ := Option.bind_eq_some_iff.mp hm
    have hlt : ∀ x ∈ es, x.1 < e.1 := fun x hx =>
      (List.pairwise_append.mp hasc).2.2 x hx e (List.mem_cons_self ..)
    rw [List.append_cons] at hasc ⊢
    exact ih (h.ingestEntry hlt hm₁) hasc hrest

/-! ### Committing the batch -/

/-- The row of the batch for a key says what the memory says of it. -/
theorem Holds.find?_batch (h : Holds cfg m es) (k : BarKey) :
    (m.batch.find? (·.key = k)).map BarRow.marked = summarize (pricesOf cfg k es) := by
  rw [← h.marked k, Persister.find?_batch h.keyed]
  unfold Persister.marked
  cases m.accs.get? k with
  | none => rfl
  | some acc =>
    simp only [Option.bind_some]
    cases m.maxId.get? k <;> rfl

end Persister

/-- The table holds exactly the summaries of these entries. -/
structure Covers (cfg : PersisterConfig K) (table : BarTable K) (es : List Entry) : Prop where
  marked : ∀ k, (table.get? k).map BarRow.marked = summarize (pricesOf cfg k es)
  keyed : ∀ k r, table.get? k = some r → r.key = k

theorem covers_empty (cfg : PersisterConfig K) : Covers cfg (.empty : BarTable K) [] :=
  ⟨fun _ => rfl, fun _ _ h => by cases h⟩

variable {table table' : BarTable K} {done : List Entry}

/-- What a commit leaves in each row: the batch's summary absorbed at the row's watermark. -/
theorem marked_upsertBars (hc : Covers cfg table done) (h : m.Holds cfg es)
    (hu : upsertBars cfg.instruments table m.batch = some table') :
    (∀ k, (table'.get? k).map BarRow.marked =
      absorb (summarize (pricesOf cfg k done)) (summarize (pricesOf cfg k es))) ∧
    ∀ k r, table'.get? k = some r → r.key = k := by
  unfold upsertBars at hu
  split at hu
  · cases hu
    refine ⟨fun k => ?_, fun k r hr => ?_⟩
    · rw [get?_foldl_upsertRow table (Persister.nodup_batch h.keyed), ← hc.marked k, ← h.find?_batch k]
      cases hfind : m.batch.find? (·.key = k) with
      | none => exact (absorb_none _).symm
      | some r =>
        cases htable : table.get? k with
        | none => rfl
        | some old => exact marked_mergeRow old r
    · rw [get?_foldl_upsertRow table (Persister.nodup_batch h.keyed)] at hr
      cases hfind : m.batch.find? (·.key = k) with
      | none =>
        rw [hfind] at hr
        exact hc.keyed k r hr
      | some b =>
        have hb : b.key = k := by simpa using List.find?_some hfind
        rw [hfind] at hr
        cases htable : table.get? k with
        | none =>
          rw [htable] at hr
          cases hr
          exact hb
        | some old =>
          rw [htable] at hr
          cases hr
          exact (key_mergeRow old b).trans (hc.keyed k old htable)
  · cases hu

omit [LinearOrder K] [FloatOps K] in
theorem id_of_price {o : Option (BarKey × K)} {k : BarKey} {x : StreamId × K}
    (h : (o.bind fun p => if p.1 = k then some (e.1, p.2) else none) = some x) : x.1 = e.1 := by
  obtain ⟨p, -, hp⟩ := Option.bind_eq_some_iff.mp h
  split at hp
  · cases hp
    rfl
  · cases hp

/-- **A batch of the next entries** joins what the table covers. -/
theorem covers_commit (hc : Covers cfg table done) (h : m.Holds cfg es)
    (hu : upsertBars cfg.instruments table m.batch = some table')
    (hlt : ∀ x ∈ done, ∀ y ∈ es, x.1 < y.1) : Covers cfg table' (done ++ es) := by
  obtain ⟨hmarked, hkeyed⟩ := marked_upsertBars hc h hu
  refine ⟨fun k => ?_, hkeyed⟩
  rw [hmarked, pricesOf_append, absorb_next]
  intro x hx y hy
  obtain ⟨e, he, hex, -⟩ := mem_pricesOf_iff.mp hx
  obtain ⟨f, hf, hfy, -⟩ := mem_pricesOf_iff.mp hy
  rw [← hex, ← hfy]
  exact hlt e he f hf

/-- **A batch of entries the table covers** changes nothing it says. -/
theorem covers_replay (hc : Covers cfg table done) (h : m.Holds cfg es)
    (hu : upsertBars cfg.instruments table m.batch = some table')
    (hasc : done.Pairwise fun x y => x.1 < y.1) (hsub : ∀ e ∈ es, e ∈ done) :
    Covers cfg table' done := by
  obtain ⟨hmarked, hkeyed⟩ := marked_upsertBars hc h hu
  refine ⟨fun k => ?_, hkeyed⟩
  rw [hmarked, absorb_replay]
  · refine hasc.filterMap _ fun e f hef x hx y hy => ?_
    rw [id_of_price hx, id_of_price hy]
    exact hef
  · intro y hy
    obtain ⟨e, he, hey, hp⟩ := mem_pricesOf_iff.mp hy
    exact mem_pricesOf_iff.mpr ⟨e, hsub e he, hey, hp⟩

end Summary

end FxTracker.Worker
