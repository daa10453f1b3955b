import FxTracker.Alerts.Detector
import FxTracker.Core.FloatMath

/-!
# The tick path

`IngestPipeline.handle` of `fx_ingestor/pipeline.py`: where a tick goes, which bar it seals, and what
`_write` puts into its transaction. Of `_seal_bar` there is what the detector is fed; the detector itself
is not part of a pipeline here. `none` stands for an exception.

* `SymbolState.fold_cases`, `IngestPipeline.effect_of_handle` — all that handling a tick can do
-/

namespace FxTracker.Ingestor

open Alerts

/-- A quote, as far as the pipeline reads it. The event time is in microseconds. -/
structure Tick (K : Type) where
  symbol : String
  bid : K
  ask : K
  tsEvent : Int
  seq : Int
  deriving DecidableEq

/-- `repr` of a float, and `isoformat` of a time in UTC. -/
structure Printer (K : Type) where
  repr : K → String
  isoformat : Int → String

/-- What a pipeline is set up with, and how Python reads and prints. -/
structure IngestConfig (K : Type) where
  bucketSeconds : Int
  bucketSeconds_pos : 0 < bucketSeconds
  codec : Codec K
  printer : Printer K

variable {K : Type} [FloatMath K] [LT K] [DecidableLT K]

def Tick.mid (tick : Tick K) : K := (tick.bid + tick.ask) / (2 : ℕ)

/-- The fields of `XADD stream:ticks`. -/
def entryFields (printer : Printer K) (provider : String) (tick : Tick K) : Fields where
  entries :=
    [("s", tick.symbol), ("b", printer.repr tick.bid), ("a", printer.repr tick.ask),
      ("t", printer.isoformat tick.tsEvent), ("q", toString tick.seq), ("p", provider)]
  nodup := by simp

/-- What is printed of the tick reads back as it was. -/
structure Reads (cfg : IngestConfig K) (tick : Tick K) : Prop where
  bid : cfg.codec.float (cfg.printer.repr tick.bid) = some tick.bid
  ask : cfg.codec.float (cfg.printer.repr tick.ask) = some tick.ask
  ts : (cfg.codec.fromisoformat (cfg.printer.isoformat tick.tsEvent)).map IsoTime.instant = some tick.tsEvent

/-! ## One symbol -/

/-- `SymbolState`, less the window, the moving variance and the detector. -/
structure SymbolState (K : Type) where
  bucket : Option (BucketAccumulator K)
  lastPrice : Option K
  lastSealed : Option Int

namespace SymbolState

def new : SymbolState K := ⟨none, none, none⟩

/-- `handle` up to `_write`, with the bar that the tick seals. -/
def fold (bucketSeconds : Int) (st : SymbolState K) (tick : Tick K) :
    Option (SymbolState K × Option (Bar K)) := do
  let bucketStart ← floorToBucket tick.tsEvent bucketSeconds
  let opened ← BucketAccumulator.start tick.symbol tick.tsEvent tick.mid bucketSeconds .stream
  let (acc, lastPrice, bar) :=
    match st.bucket with
    | none => (opened, st.lastPrice, none)
    | some acc =>
      if acc.bucket < bucketStart then
        (opened, if bucketSeconds * gapBarMultiple < bucketStart - acc.bucket then none else st.lastPrice,
          some acc.sealBar)
      else (acc, st.lastPrice, none)
  let acc ← acc.add tick.mid lastPrice
  return ({ st with bucket := some acc, lastPrice := some tick.mid }, bar)

/-- `_seal_bar` up to the detector, with what that is fed. -/
def sealBar (bucketSeconds : Int) (feedIsStale : Bool) (st : SymbolState K) (bar : Bar K) :
    SymbolState K × SealedBar K :=
  ({ st with lastSealed := some bar.bucket },
    { sigma := bar.realizedVol
      ts := bar.bucket * 1000000
      isGapBar := match st.lastSealed with
        | some last => bucketSeconds * gapBarMultiple < bar.bucket - last
        | none => false
      isBackfill := bar.source ≠ .stream
      feedIsStale })

/-- **All that a tick does to its symbol**: it opens the first bucket, it goes into the open one, or it closes
that and opens its own. -/
theorem fold_cases {bucketSeconds : Int} {st st' : SymbolState K} {tick : Tick K} {bar : Option (Bar K)}
    (h : st.fold bucketSeconds tick = some (st', bar)) :
    ∃ bucketStart opened acc acc' lastPrice, floorToBucket tick.tsEvent bucketSeconds = some bucketStart ∧
      BucketAccumulator.start tick.symbol tick.tsEvent tick.mid bucketSeconds .stream = some opened ∧
      acc.add tick.mid lastPrice = some acc' ∧
      st' = { st with bucket := some acc', lastPrice := some tick.mid } ∧
      ((st.bucket = none ∧ acc = opened ∧ bar = none) ∨
        (st.bucket = some acc ∧ bucketStart ≤ acc.bucket ∧ bar = none) ∨
        ∃ closed, st.bucket = some closed ∧ closed.bucket < bucketStart ∧ acc = opened ∧
          bar = some closed.sealBar) := by
  unfold fold at h
  simp only [Option.bind_eq_bind, Option.bind_eq_some_iff, Option.pure_def, Option.some.injEq,
    Prod.mk.injEq] at h
  obtain ⟨bucketStart, hstart, opened, hopened, acc', hadd, rfl, rfl⟩ := h
  cases hbucket : st.bucket with
  | none =>
    rw [hbucket] at hadd
    exact ⟨bucketStart, opened, _, acc', _, hstart, hopened, hadd, rfl, .inl ⟨rfl, rfl, rfl⟩⟩
  | some acc =>
    rw [hbucket] at hadd
    dsimp only at hadd ⊢
    by_cases hlt : acc.bucket < bucketStart
    · rw [if_pos hlt] at hadd
      rw [if_pos hlt]
      exact ⟨bucketStart, opened, _, acc', _, hstart, hopened, hadd, rfl,
        .inr (.inr ⟨acc, rfl, hlt, rfl, rfl⟩)⟩
    · rw [if_neg hlt] at hadd
      rw [if_neg hlt]
      exact ⟨bucketStart, opened, _, acc', _, hstart, hopened, hadd, rfl,
        .inr (.inl ⟨rfl, not_lt.mp hlt, rfl⟩)⟩

end SymbolState

/-! ## The pipeline -/

/-- The fields of an `IngestPipeline` that outlive a tick. The hold-off is in seconds. -/
structure IngestPipeline (K : Type) where
  provider : String
  heldUntil : Option Int
  feedIsStale : Bool
  /-- `state_for` starts a symbol that has no state yet. -/
  state : String → SymbolState K

/-- What the transaction of a tick is: the stream entry, and on a seal the bar and what the detector was fed. -/
structure Written (K : Type) where
  entry : Fields
  bar : Option (Bar K × SealedBar K)

namespace IngestPipeline

def new : IngestPipeline K := ⟨"", none, false, fun _ => .new⟩

/-- The tick falls under the hold-off. -/
def held (p : IngestPipeline K) (tick : Tick K) : Bool :=
  match p.heldUntil with
  | some heldUntil => tick.tsEvent < heldUntil * 1000000
  | none => false

def setState (p : IngestPipeline K) (symbol : String) (st : SymbolState K) : IngestPipeline K :=
  { p with state := fun s => if s = symbol then st else p.state s }

/-- `handle`. A tick under the hold-off writes nothing. -/
def handle (cfg : IngestConfig K) (p : IngestPipeline K) (tick : Tick K) :
    Option (IngestPipeline K × Option (Written K)) :=
  if p.held tick then some (p, none)
  else do
    let (st, bar) ← (p.state tick.symbol).fold cfg.bucketSeconds tick
    let entry := entryFields cfg.printer p.provider tick
    match bar with
    | none => return (p.setState tick.symbol st, some ⟨entry, none⟩)
    | some bar =>
      let (st, fed) := st.sealBar cfg.bucketSeconds p.feedIsStale bar
      return (p.setState tick.symbol st, some ⟨entry, some (bar, fed)⟩)

/-- A tick that is dropped changes nothing. -/
theorem handle_dropped {cfg : IngestConfig K} {p p' : IngestPipeline K} {tick : Tick K}
    (h : p.handle cfg tick = some (p', none)) : p' = p ∧ p.held tick = true := by
  unfold handle at h
  split at h
  · next hheld =>
    cases h
    exact ⟨rfl, hheld⟩
  · obtain ⟨⟨st, bar⟩, -, h⟩ := Option.bind_eq_some_iff.mp h
    cases bar <;> cases h

/-- What handling a tick does: it goes into `acc`, which is then the open bucket `acc'`. -/
structure Effect (cfg : IngestConfig K) (p p' : IngestPipeline K) (tick : Tick K) (w : Written K)
    (bucketStart : Int) (acc acc' : BucketAccumulator K) : Prop where
  floor : floorToBucket tick.tsEvent cfg.bucketSeconds = some bucketStart
  passed : p.held tick = false
  entry : w.entry = entryFields cfg.printer p.provider tick
  provider : p'.provider = p.provider
  heldUntil : p'.heldUntil = p.heldUntil
  others : ∀ s, s ≠ tick.symbol → p'.state s = p.state s
  after : (p'.state tick.symbol).bucket = some acc'
  added : ∃ lastPrice, acc.add tick.mid lastPrice = some acc'
  kept_or_opened :
    ((p.state tick.symbol).bucket = some acc ∧ bucketStart ≤ acc.bucket ∧ w.bar = none) ∨
      BucketAccumulator.start tick.symbol tick.tsEvent tick.mid cfg.bucketSeconds .stream = some acc ∧
        (((p.state tick.symbol).bucket = none ∧ w.bar = none) ∨
          ∃ closed fed, (p.state tick.symbol).bucket = some closed ∧ closed.bucket < bucketStart ∧
            w.bar = some (closed.sealBar, fed) ∧ fed.ts = closed.bucket * 1000000)

/-- The open bucket afterwards is that of the tick, or it stayed open. -/
theorem Effect.bucket_after {cfg : IngestConfig K} {p p' : IngestPipeline K} {tick : Tick K} {w : Written K}
    {bucketStart : Int} {acc acc' : BucketAccumulator K}
    (h : Effect cfg p p' tick w bucketStart acc acc') :
    ((p.state tick.symbol).bucket = some acc ∧ acc'.bucket = acc.bucket ∧ w.bar = none) ∨
      acc'.bucket = bucketStart := by
  obtain ⟨lastPrice, hadd⟩ := h.added
  have hsame := (BucketAccumulator.add_fixed hadd).2
  rcases h.kept_or_opened with ⟨hkept, -, hbar⟩ | ⟨hopened, -⟩
  · exact .inl ⟨hkept, hsame, hbar⟩
  · have hfloor := (BucketAccumulator.start_eq_some hopened).1
    rw [h.floor] at hfloor
    cases hfloor
    exact .inr hsame

/-- A tick closes an earlier bucket, or no bar is written. -/
theorem Effect.bar_cases {cfg : IngestConfig K} {p p' : IngestPipeline K} {tick : Tick K} {w : Written K}
    {bucketStart : Int} {acc acc' : BucketAccumulator K}
    (h : Effect cfg p p' tick w bucketStart acc acc') :
    w.bar = none ∨ ∃ closed fed, (p.state tick.symbol).bucket = some closed ∧
      closed.bucket < bucketStart ∧ w.bar = some (closed.sealBar, fed) ∧
      fed.ts = closed.bucket * 1000000 := by
  rcases h.kept_or_opened with ⟨-, -, hbar⟩ | ⟨-, ⟨-, hbar⟩ | hclosed⟩
  · exact .inl hbar
  · exact .inl hbar
  · exact .inr hclosed

/-- **All that handling a tick can do.** -/
theorem effect_of_handle {cfg : IngestConfig K} {p p' : IngestPipeline K} {tick : Tick K} {w : Written K}
    (h : p.handle cfg tick = some (p', some w)) :
    ∃ bucketStart acc acc', Effect cfg p p' tick w bucketStart acc acc' := by
  unfold handle at h
  split at h
  · cases h
  · next hheld =>
    have hpass : p.held tick = false := Bool.eq_false_iff.mpr hheld
    obtain ⟨⟨st, bar⟩, hfold, h⟩ := Option.bind_eq_some_iff.mp h
    obtain ⟨bucketStart, opened, acc, acc', lastPrice, hfloor, hopened, hadd, rfl, hcases⟩ :=
      SymbolState.fold_cases hfold
    refine ⟨bucketStart, acc, acc', ?_⟩
    have hother : ∀ st : SymbolState K, ∀ s, s ≠ tick.symbol → (p.setState tick.symbol st).state s = p.state s :=
      fun _ _ hne => if_neg hne
    have hself : ∀ st : SymbolState K, (p.setState tick.symbol st).state tick.symbol = st :=
      fun _ => if_pos rfl
    cases bar with
    | none =>
      cases h
      refine ⟨hfloor, hpass, rfl, rfl, rfl, hother _, congrArg SymbolState.bucket (hself _), ⟨_, hadd⟩, ?_⟩
      rcases hcases with ⟨hbucket, rfl, -⟩ | ⟨hbucket, hle, -⟩ | ⟨_, _, _, _, hbar⟩
      · exact .inr ⟨hopened, .inl ⟨hbucket, rfl⟩⟩
      · exact .inl ⟨hbucket, hle, rfl⟩
      · cases hbar
    | some bar =>
      cases h
      refine ⟨hfloor, hpass, rfl, rfl, rfl, hother _, congrArg SymbolState.bucket (hself _), ⟨_, hadd⟩, ?_⟩
      rcases hcases with ⟨_, _, hbar⟩ | ⟨_, _, hbar⟩ | ⟨closed, hbucket, hlt, rfl, hbar⟩
      · cases hbar
      · cases hbar
      · cases hbar
        exact .inr ⟨hopened, .inr ⟨closed, _, hbucket, hlt, rfl, rfl⟩⟩

/-- The end of `adopt_provider`: the hold-off, from the newest entry of the stream. -/
def holdOff (cfg : IngestConfig K) (p : IngestPipeline K) : Option Fields → Option (IngestPipeline K)
  | none => some p
  | some newest => do
    let ts ← cfg.codec.fromisoformat (← newest.get? "t")
    let last ← floorToBucket ts.instant cfg.bucketSeconds
    -- past the last `datetime` there is an `OverflowError`
    if representable (last + cfg.bucketSeconds) then
      return { p with heldUntil := some (last + cfg.bucketSeconds) }
    else none

omit [FloatMath K] [LT K] [DecidableLT K] in
theorem state_holdOff {cfg : IngestConfig K} {p p' : IngestPipeline K} {newest : Option Fields}
    (h : p.holdOff cfg newest = some p') : p'.state = p.state := by
  cases newest with
  | none =>
    cases h
    rfl
  | some newest =>
    simp only [holdOff, Option.bind_eq_bind, Option.bind_eq_some_iff] at h
    obtain ⟨t, -, ts, -, last, -, h⟩ := h
    split at h <;> cases h
    rfl

end IngestPipeline

/-! ## A pipeline for runs on fixed inputs -/

def sampleTime (minute : Nat) : String := "1970-01-01T00:0" ++ toString minute ++ ":00+00:00"

/-- The price 1, and the first ten minutes. -/
def sampleConfig : IngestConfig ℚ where
  bucketSeconds := 60
  bucketSeconds_pos := by decide
  codec :=
    { float := fun raw => if raw = "1.0" then some 1 else none
      int := fun _ => none
      fromisoformat := fun raw =>
        ((List.range 10).find? fun minute => raw = sampleTime minute).map fun minute =>
          { wall := minute * 60000000, offset := some 0 }
      isFinite := fun _ => true }
  printer :=
    { repr := fun x => if x = 1 then "1.0" else ""
      isoformat := fun ts => sampleTime (ts / 60000000).toNat }

def sampleTick (minute : Nat) : Tick ℚ := ⟨"EURUSD", 1, 1, minute * 60000000, 0⟩

theorem reads_sampleTick {tick : Tick ℚ} (h : tick = sampleTick 0 ∨ tick = sampleTick 1) :
    Reads sampleConfig tick := by
  rcases h with rfl | rfl
  · exact ⟨rfl, rfl, by decide +kernel⟩
  · exact ⟨rfl, rfl, by decide +kernel⟩

end FxTracker.Ingestor
