import FxTracker.Ingestor.Recovery
import FxTracker.Worker.Backlog
import FxTracker.Worker.ExactlyOnce
import Mathlib.Data.Fintype.Basic

/-!
# Recovered history beside the tick stream

The ingestor appends ticks to a stream that each append may trim (`_write` of
`fx_ingestor/pipeline.py`), workers persist what the stream and its pending list hold, each at its own
pace, and recovery runs insert the minutes that have no row.

* `never_mixed` — where a run inserts only minutes the workers have nothing left to write for, and no
  tick of a recovered minute comes later, no batch is merged into a recovered row
* `mixed_by_late_worker` — a worker that was down longer than the horizon merges its ticks into one
-/

namespace FxTracker.Ingestor.Recovery

open Worker Worker.Ticks Redis

variable {K κ : Type}

/-- A recovery run, and the minutes it asks for. -/
structure Run where
  id : Nat
  missing : List BarKey

structure State (K κ : Type) where
  now : Int
  /-- The stream, the rows of `bars_1m`, and the workers. -/
  persist : System K κ
  runIds : Dict BarKey Nat
  /-- The run that holds the advisory lock. -/
  run : Option Run

inductive Action (K κ : Type)
  | wait (later : Int)
  /-- `XADD` of a tick, with what is deleted below `bound`. -/
  | append (id : StreamId) (fields : Fields) (bound : StreamId)
  /-- `XAUTOCLAIM` takes deleted entries off the pending list. -/
  | forget (ids : List StreamId)
  | act (consumer : κ) (what : Act)
  /-- A run takes the lock and looks for missing minutes. -/
  | plan (id : Nat) (trigger : Trigger) (settled : String → List (Int × Int))
  /-- The provider answers a request of the run. -/
  | fetch (symbol : String) (wanted : List Int) (bars : List (Bar K))
  /-- The run ends, or its process does. -/
  | finish

def Action.isRecovery : Action K κ → Bool
  | .plan .. | .fetch .. | .finish => true
  | _ => false

namespace State

variable (s : State K κ)

def init (now : Int) : State K κ := ⟨now, .init, .empty, none⟩

/-- The `minid` of an append. -/
def minid (streamRetentionS : Int) : StreamId :=
  toLex ((s.now / 1000 - streamRetentionS * 1000).toNat, 0)

def store : Store K := ⟨s.persist.table, s.runIds⟩

def withStore (store : Store K) : State K κ :=
  { s with persist := { s.persist with table := store.table }, runIds := store.runIds }

/-- The pending entries of these ids that are deleted. -/
def deleted (ids : List StreamId) : List StreamId :=
  (s.persist.group.pel.filter fun p => p.1.1 ∈ ids ∧ p.1.2 = .empty).map (·.1.1)

end State

section Step

variable [DecidableEq κ] [FloatOps K] [LT K] [DecidableLT K] (cfg : RecoveryConfig K)

def step (s : State K κ) : Action K κ → Option (State K κ)
  | .wait later => if s.now ≤ later then some { s with now := later } else none
  | .append id fields bound =>
    if bound ≤ s.minid cfg.streamRetentionS then
      (s.persist.group.xadd id fields).map fun g =>
        { s with persist := { s.persist with group := g.trim bound .empty } }
    else none
  | .forget ids =>
    some { s with persist := { s.persist with group := s.persist.group.xack (s.deleted ids) } }
  | .act c what => (s.persist.act c cfg.worker what).map fun persist => { s with persist }
  | .plan id trigger settled =>
    match s.run, cfg.window s.now trigger with
    | none, some (window, symbols) =>
      some { s with run := some ⟨id, askable cfg.isOpen s.persist.table settled window symbols⟩ }
    | _, _ => none
  | .fetch symbol wanted bars =>
    match s.run with
    | some run =>
      if ∀ m ∈ wanted, (symbol, m) ∈ run.missing then
        match insertBars cfg.worker.instruments run.id s.store (received symbol wanted bars).values with
        | some store => some (s.withStore store)
        | none => some { s with run := none }
      else none
    | none => none
  | .finish => some { s with run := none }

/-- The runs of the system from an empty stream and an empty table. -/
def system (κ : Type) [DecidableEq κ] (now : Int) : Lts (State K κ) (Action K κ) :=
  .ofFn (.init now) (step cfg)

end Step

/-- The row is as recovery inserted it: no tick is in it. -/
def Untouched [Zero K] (r : BarRow K) : Prop :=
  r.source = .backfill ∧ r.tickCount = 0 ∧ r.sumRet = 0 ∧ r.sumRetSq = 0 ∧ r.lastStreamId = toLex (0, 0)

section Property

variable [DecidableEq κ] [FloatOps K] [LT K] [DecidableLT K]

/-- Recovered rows hold no ticks, no step changes one, and recovery changes no row. -/
def Unmixed (cfg : RecoveryConfig K) (s : State K κ) : Prop :=
  (∀ k r, s.runIds.contains k = true → s.persist.table.get? k = some r → Untouched r) ∧
    ∀ a t, step cfg s a = some t → ∀ k r, s.persist.table.get? k = some r →
      (s.runIds.contains k = true ∨ a.isRecovery = true) → t.persist.table.get? k = some r

/-- A run inserts a minute when no persister can write it any more, and no tick of a recovered minute
is appended. -/
def CaughtUp (cfg : RecoveryConfig K) (s : State K κ) : Action K κ → Prop
  | .append _ fields _ => ∀ k ∈ entryRow cfg.worker fields, s.runIds.contains k = false
  | .fetch symbol wanted bars =>
    ∀ bar ∈ (received symbol wanted bars).values,
      s.persist.table.contains (bar.symbol, bar.bucket) = false →
        ¬ Outstanding cfg.worker s.persist (bar.symbol, bar.bucket)
  | _ => True

end Property

/-! ## What a run keeps -/

section Proofs

variable [DecidableEq κ] [FloatOps K] [LT K] [DecidableLT K] {cfg : RecoveryConfig K} {s t : State K κ}

/-- No persister has anything left to write for a recovered row, and no recovered row has ticks. -/
structure Apart (cfg : RecoveryConfig K) (s : State K κ) : Prop where
  confined : Confined cfg.worker (fun k => s.runIds.contains k = false) s.persist
  rows : ∀ k r, s.runIds.contains k = true → s.persist.table.get? k = some r → Untouched r

/-- An answer the run takes: the table with the rows it adds, or none of them. -/
theorem fetch_cases {symbol : String} {wanted : List Int} {bars : List (Bar K)}
    (h : step cfg s (.fetch symbol wanted bars) = some t) :
    t = { s with run := none } ∨
      ∃ id, t = s.withStore ((received symbol wanted bars).values.foldl (insertBar id) s.store) := by
  rw [step] at h
  split at h
  · next run _ =>
    split at h
    · unfold insertBars at h
      split at h
      · next hstore =>
        cases h
        split at hstore
        · cases hstore
          exact .inr ⟨run.id, rfl⟩
        · cases hstore
      · cases h
        exact .inl rfl
    · cases h
  · cases h

/-- The step an action takes in the part of the state that matters here. -/
theorem Apart.fetch (hi : Apart cfg s) {symbol : String} {wanted : List Int} {bars : List (Bar K)}
    (hready : CaughtUp cfg s (.fetch symbol wanted bars))
    (h : step cfg s (.fetch symbol wanted bars) = some t) : Apart cfg t := by
  rcases fetch_cases h with rfl | ⟨id, rfl⟩
  · exact ⟨hi.confined, hi.rows⟩
  · have hget := get?_foldl_insertBar id (received symbol wanted bars).values s.store
    constructor
    · refine (hi.confined.restrict fun k hout hfree => ?_).congr rfl fun _ he => he
      rcases hget k with ⟨-, hids⟩ | ⟨hnone, bar, hbar, rfl, -⟩
      · show ((_ : Store K).runIds.contains k) = false
        rw [Dict.contains, hids]
        exact hfree
      · have habsent : s.persist.table.contains (bar.symbol, bar.bucket) = false := by
          rw [Dict.contains, show s.persist.table.get? _ = none from hnone]
          rfl
        exact absurd hout (hready bar hbar habsent)
    · intro k r hrec hrow
      rcases hget k with ⟨htable, hids⟩ | ⟨-, bar, -, -, htable⟩
      · refine hi.rows k r ?_ (htable ▸ hrow)
        rw [Dict.contains, ← show _ = s.runIds.get? k from hids]
        exact hrec
      · cases htable.symm.trans hrow
        exact ⟨rfl, rfl, rfl, rfl, rfl⟩

theorem Apart.step (hi : Apart cfg s) {a : Action K κ} (hready : CaughtUp cfg s a)
    (h : step cfg s a = some t) : Apart cfg t := by
  cases a with
  | wait later =>
    rw [Recovery.step] at h
    split at h
    · cases h
      exact ⟨hi.confined, hi.rows⟩
    · cases h
  | append id fields bound =>
    rw [Recovery.step] at h
    split at h
    · obtain ⟨g, hadd, rfl⟩ := Option.map_eq_some_iff.mp h
      exact ⟨hi.confined.append hadd hready, hi.rows⟩
    · cases h
  | forget ids =>
    cases h
    exact ⟨hi.confined.congr rfl fun _ he => Group.mem_backlog_xack he, hi.rows⟩
  | act c what =>
    obtain ⟨persist, hact, rfl⟩ := Option.map_eq_some_iff.mp h
    obtain ⟨hconfined, hsame⟩ := hi.confined.act hact
    refine ⟨hconfined, fun k r hrec hrow => hi.rows k r hrec ?_⟩
    have hne : ¬ s.runIds.contains k = false := by
      rw [Bool.not_eq_false]
      exact hrec
    rw [← hsame k hne]
    exact hrow
  | plan id trigger settled =>
    rw [Recovery.step] at h
    split at h
    · cases h
      exact ⟨hi.confined, hi.rows⟩
    · cases h
  | fetch symbol wanted bars => exact hi.fetch hready h
  | finish =>
    cases h
    exact ⟨hi.confined, hi.rows⟩

/-- **What a step leaves of the rows**: a recovered one as it is, and in recovery's own steps all. -/
theorem Apart.row_kept (hi : Apart cfg s) {a : Action K κ} (h : Recovery.step cfg s a = some t) {k : BarKey}
    {r : BarRow K} (hrow : s.persist.table.get? k = some r)
    (hk : s.runIds.contains k = true ∨ a.isRecovery = true) : t.persist.table.get? k = some r := by
  cases a with
  | wait later =>
    rw [Recovery.step] at h
    split at h
    · cases h
      exact hrow
    · cases h
  | append id fields bound =>
    rw [Recovery.step] at h
    split at h
    · obtain ⟨g, -, rfl⟩ := Option.map_eq_some_iff.mp h
      exact hrow
    · cases h
  | forget ids =>
    cases h
    exact hrow
  | act c what =>
    obtain ⟨persist, hact, rfl⟩ := Option.map_eq_some_iff.mp h
    rcases hk with hk | hk
    · refine ((hi.confined.act hact).2 k ?_).trans hrow
      rw [Bool.not_eq_false]
      exact hk
    · cases hk
  | plan id trigger settled =>
    rw [Recovery.step] at h
    split at h
    · cases h
      exact hrow
    · cases h
  | fetch symbol wanted bars =>
    rcases fetch_cases h with rfl | ⟨id, rfl⟩
    · exact hrow
    · rcases get?_foldl_insertBar id (received symbol wanted bars).values s.store k with
        ⟨htable, -⟩ | ⟨hnone, -⟩
      · exact htable.trans hrow
      · cases hnone.symm.trans hrow
  | finish =>
    cases h
    exact hrow

theorem apart_of_reachable {now : Int}
    (h : ((system cfg κ now).guard (CaughtUp cfg)).Reachable s) : Apart cfg s := by
  refine h.invariant (I := Apart cfg) (fun s hs => ?_) fun s a t hi ht => hi.step ht.2 ht.1
  rw [show s = .init now from hs]
  exact ⟨confined_init .., fun _ _ _ hr => nomatch hr⟩

end Proofs

variable [DecidableEq κ] [FloatOps K] [LT K] [DecidableLT K]

/--
**Recovered history and live ticks stay apart** where recovery waits for the workers.

In every run of appends that trim what they may, of workers that stop, crash and lag at will, and of
recovery runs: as long as a run inserts a minute only when no entry of it is undelivered, pending or
folded into a worker's memory, and no tick of a recovered minute is appended after, no row that
recovery inserted is merged with a batch. That recovery changes no row needs no condition.
-/
theorem never_mixed (cfg : RecoveryConfig K) {now : Int} {s : State K κ}
    (h : ((system cfg κ now).guard (CaughtUp cfg)).Reachable s) : Unmixed cfg s := by
  have hi := apart_of_reachable h
  exact ⟨hi.rows, fun _ _ hstep _ _ hrow hk => hi.row_kept hstep hrow hk⟩

def sampleConfig : RecoveryConfig Int where
  worker := Ticks.sampleConfig
  symbols := ["EURUSD"]
  streamRetentionS := 900
  lookback := 3600 * 1000000
  isOpen _ := true

/-- A bar of the provider's history. -/
def sampleBar (bucket : Int) : Bar Int := ⟨"EURUSD", bucket, 2, 6, 2, 5, 0, 0, 0, .backfill⟩

/-- A worker starts and commits what it reads. -/
def persistAll : List (Action Int Unit) :=
  [Act.acquire, .readPending, .claim fun _ => false, .top, .read 5, .check true, .commit].map (.act ())

/-- The worker commits the tick of minute 0 and acknowledges it. Recovery adds minute 1. A late tick of
minute 0 trims the first, and is committed. -/
def promptWorker : List (Action Int Unit) :=
  [.append (toLex (5, 0)) Ticks.sampleTick (toLex (0, 0))] ++ persistAll ++
    [.act () .ack, .wait 1260000000, .plan 1 .periodic fun _ => [],
      .fetch "EURUSD" [60] [sampleBar 0, sampleBar 60], .finish,
      .append (toLex (1260000, 0)) Ticks.sampleTick (toLex (360000, 0)),
      .act () (.sweepCheck false), .act () .top, .act () (.read 5), .act () (.check true),
      .act () .commit]

instance : ∀ (s : State Int Unit) a, Decidable (CaughtUp sampleConfig s a)
  | s, .append _ fields _ =>
    inferInstanceAs (Decidable (∀ k ∈ entryRow sampleConfig.worker fields, s.runIds.contains k = false))
  | s, .fetch symbol wanted bars =>
    inferInstanceAs (Decidable (∀ bar ∈ (received symbol wanted bars).values,
      s.persist.table.contains (bar.symbol, bar.bucket) = false →
        ¬ Outstanding sampleConfig.worker s.persist (bar.symbol, bar.bucket)))
  | _, .wait _ | _, .forget _ | _, .act .. | _, .plan .. | _, .finish => isTrue trivial

theorem never_mixed_promptWorker : ∃ s : State Int Unit,
    Lts.exec (step sampleConfig) (.init 0) promptWorker = some s ∧
      s.persist.table.entries.map (fun e => (e.1.2, e.2.tickCount)) = [(0, 2), (60, 0)] ∧
      Unmixed sampleConfig s := by
  have hrun : Lts.exec (step sampleConfig) (.init 0) promptWorker = some _ :=
    (Option.some_get (show (Lts.exec (step sampleConfig) (.init 0) promptWorker).isSome by
      decide +kernel)).symm
  have hmeets : Lts.Meets (step sampleConfig) (CaughtUp sampleConfig) (.init 0) promptWorker := by
    decide +kernel
  exact ⟨_, hrun, by decide +kernel,
    never_mixed sampleConfig (Lts.reachable_of_meets (.init rfl) hmeets hrun)⟩

/-- A tick of minute 0, and nothing after it: nothing is trimmed. After twenty minutes recovery adds
minute 0 from the provider, and then the worker starts. -/
def lateWorker : List (Action Int Unit) :=
  [.append (toLex (5, 0)) Ticks.sampleTick (toLex (0, 0)), .wait 1200000000, .plan 1 .periodic fun _ => [],
    .fetch "EURUSD" [0] [sampleBar 0], .finish] ++ persistAll

theorem mixed_by_late_worker : ∃ s : State Int Unit, (system sampleConfig Unit 0).Reachable s ∧
    s.runIds.get? ("EURUSD", 0) = some 1 ∧
      (s.persist.table.get? ("EURUSD", 0)).map (fun r => (r.high, r.tickCount, r.source)) =
        some (6, 1, .stream) ∧
      ¬ Unmixed sampleConfig s := by
  have hrun : Lts.exec (step sampleConfig) (.init 0) lateWorker = some _ :=
    (Option.some_get (show (Lts.exec (step sampleConfig) (.init 0) lateWorker).isSome by
      decide +kernel)).symm
  have hmixed : ((Option.get _ (show (Lts.exec (step sampleConfig) (.init 0) lateWorker).isSome by
      decide +kernel)).persist.table.get? ("EURUSD", 0)).map
        (fun r => (r.high, r.tickCount, r.source)) = some (6, 1, .stream) := by decide +kernel
  refine ⟨_, Lts.reachable_of_exec hrun, by decide +kernel, hmixed, fun h => ?_⟩
  obtain ⟨r, hrow, hr⟩ := Option.map_eq_some_iff.mp hmixed
  have hcount : r.tickCount = 0 := (h.1 _ r (by decide +kernel) hrow).2.1
  have htick : r.tickCount = 1 := congrArg (fun p => p.2.1) hr
  omega

end FxTracker.Ingestor.Recovery
