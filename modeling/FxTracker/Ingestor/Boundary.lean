import FxTracker.Ingestor.Agreement
import FxTracker.Ingestor.Feed

/-!
# Where one provider ends and the next begins

A switch drops ticks until the minute after that of the newest entry of the stream. The hold-off is derived
after the script, from that entry alone, and only the process that derived it knows it
(`IngestPipeline.adopt_provider`).

* `unmixed_rows` — no row mixes providers where the newest entry is of the last minute at every switch, and
  other leaders of the new provider get no tick of a symbol that is not past the old one's
* `mixed_after_crash` — a crash between the script and the hold-off
-/

namespace FxTracker.Ingestor.Feed

open Worker

variable {K κ : Type}

/-- The row the persister counts an entry in, and the provider it carries. -/
def entryRow [FloatOps K] (cfg : IngestConfig K) (fields : Fields) : Option (BarKey × String) := do
  let tick ← parseTick cfg.codec fields
  let bucket ← floorToBucket tick.ts cfg.bucketSeconds
  return ((tick.symbol, bucket), tick.provider)

variable [DecidableEq κ] [FloatMath K] {cfg : IngestConfig K} {s t : State K κ} {k : κ}

/-- The entries of a row carry one provider. -/
def Unmixed (cfg : IngestConfig K) (stream : List Fields) : Prop :=
  ∀ e ∈ stream, ∀ f ∈ stream, ∀ row p q, entryRow cfg e = some (row, p) → entryRow cfg f = some (row, q) → p = q

/-- Where a hold-off is derived, no entry of another provider is of a later minute than the newest entry. -/
def NewestIsLast (cfg : IngestConfig K) (s : State K κ) : Action K κ → Prop
  | .holdOff k => ∀ m, s.process k = some m → ∀ newest ∈ s.stream.getLast?, ∀ last p,
      entryRow cfg newest = some (last, p) → ∀ e ∈ s.stream, ∀ row q, entryRow cfg e = some (row, q) →
        q ≠ m.provider → row.2 ≤ last.2
  | _ => True

/-- A leader without the hold-off of the last switch gets no tick of a symbol that is not past the minutes
other providers wrote of it. -/
def PastOthers (cfg : IngestConfig K) (s : State K κ) : Action K κ → Prop
  | .tick k tick _ => s.switcher = some k ∨ ∀ m, s.process k = some m → m.pipeline.held tick = false →
      ∀ e ∈ s.stream, ∀ row q, entryRow cfg e = some (row, q) → row.1 = tick.symbol → q ≠ m.provider →
        row.2 < tick.bucket cfg.bucketSeconds
  | _ => True

/-- Python reads back what it prints. -/
def Readable (cfg : IngestConfig K) : Action K κ → Prop
  | .tick _ tick _ => Reads cfg tick
  | _ => True

/-- The row of a tick's entry. -/
theorem entryRow_entryFields {tick : Tick K} (h : Reads cfg tick) (provider : String) {b : Int}
    (hb : floorToBucket tick.tsEvent cfg.bucketSeconds = some b) :
    entryRow cfg (entryFields cfg.printer provider tick) = some ((tick.symbol, b), provider) := by
  unfold entryRow
  rw [parseTick_entryFields h, Option.bind_eq_bind, Option.bind_some, hb]
  rfl

/-- The hold-off is the end of the newest entry's minute. -/
theorem holdOff_eq_some {p p' : IngestPipeline K} {newest : Fields} {last : BarKey} {q : String}
    (hrow : entryRow cfg newest = some (last, q)) (h : p.holdOff cfg (some newest) = some p') :
    p' = { p with heldUntil := some (last.2 + cfg.bucketSeconds) } := by
  simp only [entryRow, Option.bind_eq_bind, Option.bind_eq_some_iff, Option.pure_def, Option.some.injEq,
    Prod.mk.injEq] at hrow
  obtain ⟨tick, hparse, b, hfloor, rfl, -⟩ := hrow
  simp only [parseTick, Option.bind_eq_bind, Option.bind_eq_some_iff, Option.pure_def,
    Option.some.injEq] at hparse
  obtain ⟨_, -, _, -, _, -, _, -, _, -, raw, hraw, ts, hts, rfl⟩ := hparse
  simp only [IngestPipeline.holdOff, hraw, hts, hfloor, Option.bind_eq_bind, Option.bind_some] at h
  split at h <;> cases h
  rfl

theorem entryRow_bucket {fields : Fields} {row : BarKey} {q : String}
    (h : entryRow cfg fields = some (row, q)) : ∃ n, row.2 = cfg.bucketSeconds * n := by
  simp only [entryRow, Option.bind_eq_bind, Option.bind_eq_some_iff, Option.pure_def, Option.some.injEq,
    Prod.mk.injEq] at h
  obtain ⟨tick, -, b, hfloor, rfl, -⟩ := h
  exact ⟨_, floorToBucket_eq_some cfg.bucketSeconds_pos hfloor⟩

/-! ## The invariant -/

/-- The hold-off ends after every minute that another provider wrote. -/
def Covers (cfg : IngestConfig K) (stream : List Fields) (m : Member K) : Prop :=
  ∀ e ∈ stream, ∀ row q, entryRow cfg e = some (row, q) → q ≠ m.provider →
    ∃ n, m.pipeline.heldUntil = some (cfg.bucketSeconds * n) ∧ row.2 < cfg.bucketSeconds * n

/-- What holds between two steps. -/
structure Bounded (cfg : IngestConfig K) (s : State K κ) : Prop where
  rows : ∀ e ∈ s.stream, (entryRow cfg e).isSome
  unmixed : Unmixed cfg s.stream
  leader : ∀ k phase, s.leader = some (k, phase) → ∃ m, s.process k = some m ∧
    (phase ≠ .elected → s.marker = some m.provider ∧ m.pipeline.provider = m.provider)
  holding : ∀ k, s.switcher = some k → ∃ m, s.process k = some m ∧ s.marker = some m.provider ∧
    Covers cfg s.stream m

omit [DecidableEq κ] in
theorem bounded_idle (marker : Option String) : Bounded cfg (.idle marker : State K κ) where
  rows _ he := nomatch he
  unmixed _ he := nomatch he
  leader _ _ hl := nomatch hl
  holding _ hl := nomatch hl

theorem Bounded.kill (h : Bounded cfg s) (k : κ) : Bounded cfg (s.kill k) where
  rows := h.rows
  unmixed := h.unmixed
  leader k' phase hl := by
    obtain ⟨hl, hne⟩ := Option.filter_eq_some_iff.mp hl
    obtain ⟨m, hm, hrest⟩ := h.leader k' phase hl
    exact ⟨m, (if_neg (by simpa using hne)).trans hm, hrest⟩
  holding k' hl := by
    obtain ⟨hl, hne⟩ := Option.filter_eq_some_iff.mp hl
    obtain ⟨m, hm, hrest⟩ := h.holding k' hl
    exact ⟨m, (if_neg (by simpa using hne)).trans hm, hrest⟩

/-- The leader's pipeline moves on, with its provider and its hold-off unchanged. -/
theorem Bounded.put {m : Member K} {pipeline : IngestPipeline K} (h : Bounded cfg s)
    (hm : s.leads k .leading = some m) (hprovider : pipeline.provider = m.pipeline.provider)
    (hheld : pipeline.heldUntil = m.pipeline.heldUntil) :
    Bounded cfg (s.put k (some { m with pipeline })) where
  rows := h.rows
  unmixed := h.unmixed
  leader k' phase hl := by
    refine exists_process_put (leads_eq_some_iff.mp hm).2 ?_ (h.leader k' phase hl)
    exact fun hrest hne => ⟨(hrest hne).1, hprovider.trans (hrest hne).2⟩
  holding k' hl := by
    refine exists_process_put (leads_eq_some_iff.mp hm).2 ?_ (h.holding k' hl)
    rintro ⟨hmarker, hcovers⟩
    refine ⟨hmarker, fun e he row q hrow hq => ?_⟩
    rw [hheld]
    exact hcovers e he row q hrow hq

omit [DecidableEq κ] in
/-- Nothing that another provider wrote of the tick's symbol is of the tick's minute or a later one. -/
theorem Bounded.lt_bucket {m : Member K} {tick : Tick K} {b : Int} {o : Outcome} (h : Bounded cfg s)
    (hm : s.process k = some m) (hpast : PastOthers cfg s (.tick k tick o))
    (hpass : m.pipeline.held tick = false) (hb : floorToBucket tick.tsEvent cfg.bucketSeconds = some b)
    {e : Fields} (he : e ∈ s.stream) {row : BarKey} {q : String} (hrow : entryRow cfg e = some (row, q))
    (hsymbol : row.1 = tick.symbol) (hq : q ≠ m.provider) : row.2 < b := by
  rcases hpast with hswitcher | hpast
  · -- the tick got past the hold-off
    obtain ⟨m', hm', -, hcovers⟩ := h.holding k hswitcher
    rw [hm] at hm'
    cases hm'
    obtain ⟨n, hheld, hlt⟩ := hcovers e he row q hrow hq
    unfold IngestPipeline.held at hpass
    rw [hheld] at hpass
    exact lt_of_lt_of_le hlt
      (le_floorToBucket cfg.bucketSeconds_pos (not_lt.mp (of_decide_eq_false hpass)) hb)
  · have hlt := hpast m hm hpass e he row q hrow hsymbol hq
    unfold Tick.bucket at hlt
    rw [hb] at hlt
    exact hlt

omit [DecidableEq κ] in
/-- **A tick of the recorded provider** joins the stream. -/
theorem Bounded.append {m : Member K} {tick : Tick K} {b : Int} {o : Outcome} (h : Bounded cfg s)
    (hlead : s.leader = some (k, .leading)) (hm : s.process k = some m) (hreads : Reads cfg tick)
    (hpast : PastOthers cfg s (.tick k tick o)) (hpass : m.pipeline.held tick = false)
    (hb : floorToBucket tick.tsEvent cfg.bucketSeconds = some b)
    (hstream : t.stream = s.stream ++ [entryFields cfg.printer m.pipeline.provider tick])
    (hmarker : t.marker = s.marker) (hprocess : t.process = s.process) (hleader : t.leader = s.leader)
    (hswitcher : t.switcher = s.switcher) : Bounded cfg t := by
  obtain ⟨m', hm', hrecorded⟩ := h.leader k .leading hlead
  rw [hm] at hm'
  cases hm'
  obtain ⟨hmark, hprovider⟩ := hrecorded (by decide)
  have hnew := entryRow_entryFields hreads m.pipeline.provider hb
  rw [hprovider] at hnew hstream
  refine ⟨fun e he => ?_, fun e he f hf row p q hp hq => ?_, ?_, fun k' hk' => ?_⟩
  · rw [hstream] at he
    rcases List.mem_append.mp he with he | he
    · exact h.rows e he
    · rw [List.mem_singleton.mp he, hnew]
      rfl
  · -- an entry of the same row is of the same provider
    have hagree : ∀ e ∈ s.stream, ∀ q, entryRow cfg e = some ((tick.symbol, b), q) → q = m.provider := by
      intro e he q hrow
      by_contra hne
      have hlt := h.lt_bucket hm hpast hpass hb he hrow rfl hne
      exact absurd hlt (lt_irrefl b)
    rw [hstream] at he hf
    rcases List.mem_append.mp he with he | he <;> rcases List.mem_append.mp hf with hf | hf
    · exact h.unmixed e he f hf row p q hp hq
    · rw [List.mem_singleton.mp hf, hnew] at hq
      cases hq
      exact hagree e he p hp
    · rw [List.mem_singleton.mp he, hnew] at hp
      cases hp
      exact (hagree f hf q hq).symm
    · rw [List.mem_singleton.mp he, hnew] at hp
      rw [List.mem_singleton.mp hf, hnew] at hq
      cases hp
      cases hq
      rfl
  · rw [hmarker, hprocess, hleader]
    exact h.leader
  · rw [hswitcher] at hk'
    obtain ⟨m', hm', hmark', hcovers⟩ := h.holding k' hk'
    refine ⟨m', hprocess ▸ hm', hmarker.trans hmark', fun e he row q hrow hq => ?_⟩
    rw [hstream] at he
    rcases List.mem_append.mp he with he | he
    · exact hcovers e he row q hrow hq
    · -- the new entry is of the recorded provider
      rw [List.mem_singleton.mp he, hnew] at hrow
      cases hrow
      rw [hmark] at hmark'
      exact absurd (Option.some.inj hmark') hq

/-- A switch forgets the hold-off of the one before, and the marker names its leader's provider. -/
theorem Bounded.switched (h : Bounded cfg s) (m : Member K) :
    Bounded cfg
      { s.put k (some { m with pipeline := { m.pipeline with provider := m.provider } }) with
        marker := some m.provider, leader := some (k, .switched), switcher := none } where
  rows := h.rows
  unmixed := h.unmixed
  leader k' phase hl := by
    cases hl
    exact ⟨_, if_pos rfl, fun _ => ⟨rfl, rfl⟩⟩
  holding _ hl := nomatch hl

/-- **The hold-off of a switch** covers the other providers, if the newest entry is of the last minute. -/
theorem Bounded.holdOff {m : Member K} {pipeline : IngestPipeline K} (h : Bounded cfg s)
    (hm : s.leads k .switched = some m) (hlast : NewestIsLast cfg s (.holdOff k))
    (hoff : m.pipeline.holdOff cfg s.stream.getLast? = some pipeline) :
    Bounded cfg
      { s.put k (some { m with pipeline }) with leader := some (k, .leading), switcher := some k } := by
  obtain ⟨hlead, hproc⟩ := leads_eq_some_iff.mp hm
  obtain ⟨m', hm', hrecorded⟩ := h.leader k .switched hlead
  rw [hproc] at hm'
  cases hm'
  obtain ⟨hmark, hprovider⟩ := hrecorded (by decide)
  have hcovers : pipeline.provider = m.pipeline.provider ∧ Covers cfg s.stream { m with pipeline } := by
    cases hnewest : s.stream.getLast? with
    | none =>
      rw [hnewest] at hoff
      cases hoff
      rw [List.getLast?_eq_none_iff] at hnewest
      refine ⟨rfl, fun e he => ?_⟩
      rw [hnewest] at he
      cases he
    | some newest =>
      rw [hnewest] at hoff
      obtain ⟨⟨last, p⟩, hrow⟩ := Option.isSome_iff_exists.mp (h.rows newest (List.mem_of_getLast? hnewest))
      rw [holdOff_eq_some hrow hoff]
      refine ⟨rfl, fun e he row q hq hne => ?_⟩
      have hle : row.2 ≤ last.2 := hlast m hproc newest hnewest last p hrow e he row q hq hne
      obtain ⟨n, hn⟩ := entryRow_bucket hrow
      refine ⟨n + 1, ?_, ?_⟩
      · show some (last.2 + cfg.bucketSeconds) = _
        rw [hn, Int.mul_add, Int.mul_one]
      · have hpos := cfg.bucketSeconds_pos
        rw [Int.mul_add, Int.mul_one, ← hn]
        omega
  refine ⟨h.rows, h.unmixed, fun k' phase hl => ?_, fun k' hl => ?_⟩
  · cases hl
    exact ⟨_, if_pos rfl, fun _ => ⟨hmark, hcovers.1.trans hprovider⟩⟩
  · cases hl
    exact ⟨_, if_pos rfl, hmark, hcovers.2⟩

variable [LT K] [DecidableLT K]

/-- **One tick.** -/
theorem Bounded.tick {tick : Tick K} {o : Outcome} (h : Bounded cfg s) (hreads : Reads cfg tick)
    (hpast : PastOthers cfg s (.tick k tick o)) (hstep : stepTick cfg s k tick o = some t) :
    Bounded cfg t := by
  obtain ⟨m, pipeline, hm, ⟨-, rfl⟩ | ⟨w, fed, hhandle, rfl, hend⟩⟩ := stepTick_cases hstep
  · exact ⟨h.rows, h.unmixed, h.leader, h.holding⟩
  · obtain ⟨hlead, hproc⟩ := leads_eq_some_iff.mp hm
    obtain ⟨bucketStart, acc, acc', heff⟩ := IngestPipeline.effect_of_handle hhandle
    have hwritten : Bounded cfg
        ((({ s with ticks := s.ticks ++ [tick] } : State K κ).feed tick.symbol w).write tick.symbol w) :=
      h.append hlead hproc hreads hpast heff.passed heff.floor (congrArg (s.stream ++ [·]) heff.entry)
        rfl rfl rfl rfl
    rcases hend with rfl | rfl | rfl
    · exact hwritten.put hm heff.provider heff.heldUntil
    · exact hwritten.kill k
    · have hfed : Bounded cfg (({ s with ticks := s.ticks ++ [tick] } : State K κ).feed tick.symbol w) :=
        ⟨h.rows, h.unmixed, h.leader, h.holding⟩
      exact hfed.kill k

theorem Bounded.step {a : Action K κ} (h : Bounded cfg s) (hreads : Readable cfg a)
    (hlast : NewestIsLast cfg s a) (hpast : PastOthers cfg s a) (hstep : step cfg s a = some t) :
    Bounded cfg t := by
  cases a with
  | start k provider =>
    simp only [Feed.step] at hstep
    split at hstep
    · next hnone =>
      cases hstep
      have hne : ∀ k' m, s.process k' = some m → k' ≠ k := by
        rintro k' m hm rfl
        rw [hm] at hnone
        cases hnone
      refine ⟨h.rows, h.unmixed, fun k' phase hl => ?_, fun k' hl => ?_⟩
      · obtain ⟨m, hm, hrest⟩ := h.leader k' phase hl
        exact ⟨m, (if_neg (hne k' m hm)).trans hm, hrest⟩
      · obtain ⟨m, hm, hrest⟩ := h.holding k' hl
        exact ⟨m, (if_neg (hne k' m hm)).trans hm, hrest⟩
    · cases hstep
  | acquire k =>
    simp only [Feed.step] at hstep
    split at hstep
    · next hfree =>
      cases hstep
      obtain ⟨m, hm⟩ := Option.isSome_iff_exists.mp hfree.1
      refine ⟨h.rows, h.unmixed, fun k' phase hl => ?_, h.holding⟩
      cases hl
      exact ⟨m, hm, fun hne => absurd rfl hne⟩
    · cases hstep
  | adopt k =>
    obtain ⟨m, hm, hstep⟩ := Option.bind_eq_some_iff.mp hstep
    have hproc := (leads_eq_some_iff.mp hm).2
    dsimp only at hstep
    split at hstep
    · next hmark =>
      cases hstep
      refine ⟨h.rows, h.unmixed, fun k' phase hl => ?_, fun k' hl => ?_⟩
      · cases hl
        exact ⟨_, if_pos rfl, fun _ => ⟨hmark, rfl⟩⟩
      · exact exists_process_put (P := fun m => s.marker = some m.provider ∧ Covers cfg s.stream m) hproc id
          (h.holding k' hl)
    · cases hstep
      exact h.switched m
  | adoptUnheard k =>
    obtain ⟨m, hm, hstep⟩ := Option.bind_eq_some_iff.mp hstep
    cases hstep
    refine ⟨h.rows, h.unmixed, fun k' phase hl => ?_, fun _ hl => ?_⟩
    · -- the only leader was the process that ended
      obtain ⟨hl, hne⟩ := Option.filter_eq_some_iff.mp hl
      have heq : some (k, Phase.elected) = some (k', phase) := (leads_eq_some_iff.mp hm).1.symm.trans hl
      cases heq
      simp at hne
    · cases hl
  | holdOff k =>
    obtain ⟨m, hm, hstep⟩ := Option.bind_eq_some_iff.mp hstep
    obtain ⟨pipeline, hoff, hstep⟩ := Option.bind_eq_some_iff.mp hstep
    cases hstep
    exact h.holdOff hm hlast hoff
  | tick k tick o => exact h.tick hreads hpast hstep
  | feedStale k stale =>
    obtain ⟨m, hm, hstep⟩ := Option.bind_eq_some_iff.mp hstep
    cases hstep
    exact h.put hm rfl rfl
  | handBack k =>
    obtain ⟨m, -, hstep⟩ := Option.map_eq_some_iff.mp hstep
    cases hstep
    refine ⟨h.rows, h.unmixed, fun _ _ hl => ?_, h.holding⟩
    cases hl
  | crash k =>
    cases hstep
    exact h.kill k

/-! ## The rows of the persister -/

/-- No two entries of one row of the persister carry different providers. -/
def RowsUnmixed (pcfg : PersisterConfig K) (stream : List Fields) : Prop :=
  ∀ e ∈ stream, ∀ f ∈ stream, ∀ row x y, entryPrice pcfg e = some (row, x) →
    entryPrice pcfg f = some (row, y) →
      (parseTick pcfg.codec e).map RawTick.provider = (parseTick pcfg.codec f).map RawTick.provider

omit [LT K] [DecidableLT K] in
/-- The persister counts an entry in the row it is of. -/
theorem entryRow_of_entryPrice {pcfg : PersisterConfig K} (hcodec : pcfg.codec = cfg.codec)
    (hbucket : pcfg.bucketSeconds = cfg.bucketSeconds) {fields : Fields} {row : BarKey} {x : K}
    (h : entryPrice pcfg fields = some (row, x)) :
    ∃ q, entryRow cfg fields = some (row, q) ∧ (parseTick pcfg.codec fields).map RawTick.provider = some q := by
  simp only [entryPrice, Option.bind_eq_bind, Option.bind_eq_some_iff, Option.pure_def, Option.some.injEq,
    Prod.mk.injEq] at h
  obtain ⟨tick, hparse, b, hfloor, rfl, -⟩ := h
  refine ⟨tick.provider, ?_, by rw [hparse]; rfl⟩
  unfold entryRow
  rw [← hcodec, hparse, Option.bind_eq_bind, Option.bind_some, ← hbucket, hfloor]
  rfl

/--
**No row mixes two providers.**

Any processes and providers, crashes anywhere, ticks in any order. As long as the newest entry is of the last
minute that was written when a hold-off is derived from it, and a leader without the hold-off of the last
switch gets no tick that is not past the minutes which other providers wrote of its symbol, all that the
persister counts in one row carries one provider.
-/
theorem unmixed_rows {marker : Option String} {pcfg : PersisterConfig K} (hcodec : pcfg.codec = cfg.codec)
    (hbucket : pcfg.bucketSeconds = cfg.bucketSeconds)
    (h : ((system cfg κ marker).guard fun s a =>
      Readable cfg a ∧ NewestIsLast cfg s a ∧ PastOthers cfg s a).Reachable s) :
    RowsUnmixed pcfg s.stream := by
  have hbounded : Bounded cfg s := by
    refine h.invariant (fun s hs => ?_) fun s a t hs ht => ?_
    · cases hs
      exact bounded_idle marker
    · obtain ⟨hstep, hreads, hlast, hpast⟩ := ht
      exact hs.step hreads hlast hpast hstep
  intro e he f hf row x y hx hy
  obtain ⟨p, hp, hep⟩ := entryRow_of_entryPrice hcodec hbucket hx
  obtain ⟨q, hq, hfq⟩ := entryRow_of_entryPrice hcodec hbucket hy
  rw [hep, hfq, hbounded.unmixed e he f hf row p q hp hq]

/-! ## Runs on fixed inputs -/

/-- The script of a switch was applied, and its process ended before the hold-off. -/
def crashedSwitch : List (Action ℚ Nat) :=
  [.start 0 "another"] ++ lead 0 ++ [tickAt 0 0, .crash 0, .start 1 "tiingo", .acquire 1, .adoptUnheard 1,
    .start 1 "tiingo"] ++ lead 1 ++ [tickAt 1 0]

/-- Minute 0 has ticks of both providers. -/
theorem mixed_after_crash :
    ∃ s, (system sampleConfig Nat (some "another")).Reachable s ∧ ¬ RowsUnmixed samplePersister s.stream := by
  have hrun : Lts.exec (step sampleConfig) (.idle (some "another")) crashedSwitch = some _ :=
    (Option.some_get (show (Lts.exec (step sampleConfig) (.idle (some "another")) crashedSwitch).isSome by
      decide +kernel)).symm
  refine ⟨_, Lts.reachable_of_exec hrun, fun hunmixed => ?_⟩
  have hsame := hunmixed (entryFields sampleConfig.printer "another" (sampleTick 0)) (by decide +kernel)
    (entryFields sampleConfig.printer "tiingo" (sampleTick 0)) (by decide +kernel) ("EURUSD", 0) 1 1
    (by decide +kernel) (by decide +kernel)
  revert hsame
  decide +kernel

/-- A switch in which the process that made it goes on. -/
def completeSwitch : List (Action ℚ Nat) :=
  [.start 0 "another"] ++ lead 0 ++ [tickAt 0 0, .handBack 0, .start 1 "tiingo"] ++ lead 1 ++
    [.holdOff 1, tickAt 1 0, tickAt 1 1]

/-- What of the condition can be evaluated: nothing but the newest entry, or no entry of others. -/
def sampleOk (s : State ℚ Nat) : Action ℚ Nat → Bool
  | .holdOff _ => s.stream.length ≤ 1
  | .tick k tick _ =>
    (tick = sampleTick 0 ∨ tick = sampleTick 1) ∧ (s.switcher = some k ∨ s.stream.isEmpty)
  | _ => true

theorem ok_of_sampleOk {s : State ℚ Nat} {a : Action ℚ Nat} (h : sampleOk s a = true) :
    Readable sampleConfig a ∧ NewestIsLast sampleConfig s a ∧ PastOthers sampleConfig s a := by
  cases a with
  | holdOff k =>
    refine ⟨trivial, fun m _ newest hnewest last p hlast e he row q hrow _ => ?_, trivial⟩
    -- the entry is the newest one
    have hle : s.stream.length ≤ 1 := of_decide_eq_true h
    obtain ⟨rest, hrest⟩ := List.getLast?_eq_some_iff.mp hnewest
    rw [hrest, List.length_append, List.length_singleton] at hle
    have hnil : rest = [] := List.length_eq_zero_iff.mp (by omega)
    rw [hrest, hnil, List.nil_append, List.mem_singleton] at he
    rw [he, hlast] at hrow
    cases hrow
    exact le_refl _
  | tick k tick o =>
    obtain ⟨htick, hcovered⟩ := of_decide_eq_true h
    refine ⟨reads_sampleTick htick, trivial, ?_⟩
    rcases hcovered with hswitcher | hempty
    · exact .inl hswitcher
    · refine .inr fun _ _ _ e he => ?_
      rw [List.isEmpty_iff.mp hempty] at he
      cases he
  | _ => exact ⟨trivial, trivial, trivial⟩

/-- The new provider's tick of minute 0 is dropped. -/
theorem unmixed_rows_completeSwitch :
    ∃ s, Lts.exec (step sampleConfig) (.idle (some "another")) completeSwitch = some s ∧
      s.stream.length = 2 ∧ RowsUnmixed samplePersister s.stream := by
  have hrun : Lts.exec (step sampleConfig) (.idle (some "another")) completeSwitch = some _ :=
    (Option.some_get (show (Lts.exec (step sampleConfig) (.idle (some "another")) completeSwitch).isSome by
      decide +kernel)).symm
  have hmeets : Lts.Meets (step sampleConfig) (fun s a => sampleOk s a = true) (.idle (some "another"))
      completeSwitch := by decide +kernel
  have hreach : ((system sampleConfig Nat (some "another")).guard fun s a =>
      Readable sampleConfig a ∧ NewestIsLast sampleConfig s a ∧ PastOthers sampleConfig s a).Reachable _ :=
    Lts.reachable_of_meets (.init rfl) (hmeets.mono fun _ _ h => ok_of_sampleOk h) hrun
  exact ⟨_, hrun, by decide +kernel, unmixed_rows rfl rfl hreach⟩

end FxTracker.Ingestor.Feed
