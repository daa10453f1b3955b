import FxTracker.Worker.Persister

/-!
# Recovering missed minutes

`fx_ingestor/recovery.py`: the minutes a run asks the provider for, and what it inserts into
`bars_1m`. Instants are microseconds, minutes the seconds of their start.

* `mem_openMinutes` — a run looks only at open minutes of its window
* `get?_foldl_insertBar` — an insertion adds rows, and changes none
-/

namespace FxTracker.Ingestor.Recovery

open Worker

variable {K : Type}

def floorMinute (ts : Int) : Int := ts / 60000000 * 60

/-- Minutes `start` through `last` (`end` in the source), inclusive. -/
structure Window where
  start : Int
  last : Int
  deriving DecidableEq

def recoveryWindow (now lookback horizon : Int) : Option Window :=
  let last := floorMinute (now - horizon) - 60
  let start := floorMinute (now - lookback)
  if start ≤ last then some ⟨start, last⟩ else none

def openMinutes (isOpen : Int → Bool) (window : Window) : List Int :=
  ((List.range ((window.last - window.start) / 60 + 1).toNat).map fun i : Nat =>
    window.start + 60 * (i : Int)).filter isOpen

/-- The minutes of the spans of `missing_spans`. -/
def missingMinutes (expected present : List Int) (settled : List (Int × Int)) : List Int :=
  expected.filter fun m => m ∉ present ∧ ¬ ∃ span ∈ settled, span.1 ≤ m ∧ m ≤ span.2

/-- What starts a run: the leader's timer, or the command line. -/
inductive Trigger
  | periodic
  | manual (symbols : List String) (since : Int) (till : Option Int)

/-- What the ingestor and its recovery are set up with. -/
structure RecoveryConfig (K : Type) where
  worker : PersisterConfig K
  symbols : List String
  /-- `FX_STREAM_RETENTION_S`. -/
  streamRetentionS : Int
  lookback : Int
  isOpen : Int → Bool

namespace RecoveryConfig

variable (cfg : RecoveryConfig K)

/-- The stream's retention plus two minutes. -/
def horizon : Int := (cfg.streamRetentionS + 120) * 1000000

/-- The window of a run, and the symbols it is for. -/
def window (now : Int) : Trigger → Option (Window × List String)
  | .periodic => (recoveryWindow now cfg.lookback cfg.horizon).map (·, cfg.symbols)
  | .manual symbols since till => do
    -- `_cli` takes its newest minute from the window of a day
    let latest ← recoveryWindow now (86400 * 1000000) cfg.horizon
    let start := floorMinute since
    let last := match till with
      | some till => min (floorMinute till) latest.last
      | none => latest.last
    if start ≤ last then some (⟨start, last⟩, symbols) else none

end RecoveryConfig

/-- `RecoveryStore.present`. -/
def present (table : BarTable K) (symbol : String) (window : Window) : List Int :=
  table.keys.filterMap fun k =>
    if k.1 = symbol ∧ window.start ≤ k.2 ∧ k.2 ≤ window.last then some k.2 else none

/-- The minutes a run asks for: open, without a row, and not passed over for what earlier runs were
answered. -/
def askable (isOpen : Int → Bool) (table : BarTable K) (settled : String → List (Int × Int))
    (window : Window) (symbols : List String) : List BarKey :=
  symbols.flatMap fun symbol =>
    (missingMinutes (openMinutes isOpen window) (present table symbol window) (settled symbol)).map
      (symbol, ·)

/-- The bars of an answer that `_fetch` takes: the last for each minute it wanted. -/
def received (symbol : String) (wanted : List Int) (bars : List (Bar K)) : Dict Int (Bar K) :=
  (bars.filter fun b =>
    b.symbol = symbol ∧ b.bucket ∈ wanted ∧ b.bucket = floorMinute (b.bucket * 1000000)).foldl
      (fun d b => d.set b.bucket b) .empty

/-! ## What a run looks at -/

theorem mem_openMinutes {isOpen : Int → Bool} {window : Window} {m : Int}
    (h : m ∈ openMinutes isOpen window) : window.start ≤ m ∧ m ≤ window.last ∧ isOpen m = true := by
  obtain ⟨hm, hopen⟩ := List.mem_filter.mp h
  obtain ⟨i, hi, rfl⟩ := List.mem_map.mp hm
  rw [List.mem_range] at hi
  refine ⟨by omega, by omega, hopen⟩

/-! ## What it inserts -/

section Insert

variable [Zero K]

/-- A row of `_INSERT_BARS`. -/
def recoveredRow (bar : Bar K) : BarRow K :=
  { bar with
    tickCount := 0
    sumRet := 0
    sumRetSq := 0
    source := .backfill
    lastStreamId := toLex (0, 0) }

/-- `bars_1m` and its column `recovery_run_id`, which only recovery sets. -/
structure Store (K : Type) where
  table : BarTable K
  runIds : Dict BarKey Nat

/-- One row of the statement: `ON CONFLICT (symbol, bucket) DO NOTHING`. -/
def insertBar (runId : Nat) (store : Store K) (bar : Bar K) : Store K :=
  if store.table.contains (bar.symbol, bar.bucket) then store
  else
    { table := store.table.set (bar.symbol, bar.bucket) (recoveredRow bar)
      runIds := store.runIds.set (bar.symbol, bar.bucket) runId }

/-- `insert`, one transaction; `none` where it fails on the foreign key. -/
def insertBars (instruments : List String) (runId : Nat) (store : Store K) (bars : List (Bar K)) :
    Option (Store K) :=
  if ∀ bar ∈ bars, bar.symbol ∈ instruments then some (bars.foldl (insertBar runId) store) else none

/-- **A row an insertion finds stays**, and a row it adds is that of one of the bars. -/
theorem get?_foldl_insertBar (runId : Nat) (bars : List (Bar K)) (store : Store K) (k : BarKey) :
    let store' := bars.foldl (insertBar runId) store
    (store'.table.get? k = store.table.get? k ∧ store'.runIds.get? k = store.runIds.get? k) ∨
      store.table.get? k = none ∧ ∃ bar ∈ bars, (bar.symbol, bar.bucket) = k ∧
        store'.table.get? k = some (recoveredRow bar) := by
  induction bars generalizing store with
  | nil => exact .inl ⟨rfl, rfl⟩
  | cons bar bars ih =>
    dsimp only at ih ⊢
    rw [List.foldl_cons]
    have hone : insertBar runId store bar = store ∨ store.table.get? (bar.symbol, bar.bucket) = none ∧
        insertBar runId store bar =
          { table := store.table.set (bar.symbol, bar.bucket) (recoveredRow bar)
            runIds := store.runIds.set (bar.symbol, bar.bucket) runId } := by
      unfold insertBar
      split
      · exact .inl rfl
      · next h => exact .inr ⟨by simpa [Dict.contains] using h, rfl⟩
    rcases hone with hone | ⟨hnone, hone⟩
    · rw [hone]
      refine (ih store).imp_right ?_
      rintro ⟨hk, b, hb, h⟩
      exact ⟨hk, b, List.mem_cons_of_mem _ hb, h⟩
    · by_cases hkey : (bar.symbol, bar.bucket) = k
      · -- the row it adds now is not touched by the rest of the statement
        right
        refine ⟨hkey ▸ hnone, bar, List.mem_cons_self .., hkey, ?_⟩
        subst hkey
        rcases ih (insertBar runId store bar) with ⟨htable, -⟩ | ⟨habsent, -⟩
        · rw [htable, hone, Dict.get?_set, if_pos rfl]
        · rw [hone, Dict.get?_set, if_pos rfl] at habsent
          cases habsent
      · have hsame : (insertBar runId store bar).table.get? k = store.table.get? k ∧
            (insertBar runId store bar).runIds.get? k = store.runIds.get? k := by
          rw [hone]
          exact ⟨Dict.get?_set_ne _ _ (Ne.symm hkey), Dict.get?_set_ne _ _ (Ne.symm hkey)⟩
        rcases ih (insertBar runId store bar) with ⟨htable, hids⟩ | ⟨hk, b, hb, h⟩
        · exact .inl ⟨htable.trans hsame.1, hids.trans hsame.2⟩
        · exact .inr ⟨hsame.1 ▸ hk, b, List.mem_cons_of_mem _ hb, h⟩

end Insert

end FxTracker.Ingestor.Recovery
