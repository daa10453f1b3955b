import FxTracker.Lib.Lts
import FxTracker.Redis.Group
import FxTracker.Worker.AlertConflicts
import Mathlib.Logic.Function.Basic

/-!
# Alert delivery

`fx_worker/alerts.py`: any number of `AlertPersister`s with distinct consumer names on one group.
There is no lease. Every Redis command and the `INSERT` are atomic; between any two of them any
other worker may act, the operation may fail, and the process may die.

* `effectively_once` — whatever the interleaving, an acknowledged entry has exactly one row, with
  its own fields, committed before the acknowledgement; and every row comes from an entry
-/

namespace FxTracker.Worker.AlertPersister

open Redis

variable {K κ : Type}

/-! ## The system -/

/-- Where `run` stands between two batches. -/
inductive Loc
  /-- In `drain_own_pending`, about to read. -/
  | drain
  /-- In `claim_abandoned`, about to claim from `start`. -/
  | claim (start : Option StreamId) (sweep : Bool)
  /-- In the loop. -/
  | steady

/-- What a worker is doing. `sweep` says that the claim is the periodic one, whose Redis errors are
suppressed. -/
inductive Stage
  | down
  | idle (loc : Loc)
  /-- In `_consume`, before the `INSERT` commits; it goes on at `next`. -/
  | consuming (entries : List (StreamId × Fields)) (next : Loc) (sweep : Bool)
  /-- In `_flush`, after the commit and before the `XACK`. -/
  | acking (entries : List (StreamId × Fields)) (next : Loc) (sweep : Bool)

/-- The stream with its group, the table, and every worker. -/
structure System (K κ : Type) where
  group : Group StreamId Fields κ
  table : AlertTable K
  worker : κ → Stage

/-- Nothing appended, nothing stored, nobody running. -/
def System.init : System K κ := ⟨.empty, .empty, fun _ => .down⟩

/-- What one worker does next. -/
inductive Act
  | start
  | readPending
  /-- `XAUTOCLAIM`, when these ids are idle enough. -/
  | claim (idle : StreamId → Bool)
  | read
  /-- The periodic sweep comes due. -/
  | sweep
  | insert
  /-- The statement commits and its answer is lost. -/
  | insertLost (failure : Failure)
  | ack
  /-- The `XACK` takes effect and its answer is lost. -/
  | ackLost
  | fail (failure : Failure)
  | crash

inductive Action (κ : Type)
  | append (id : StreamId) (fields : Fields)
  | act (consumer : κ) (what : Act)

variable (codec : Codec K) (batch : Nat)

/-- The rows of a batch: `_consume` skips what does not parse. -/
def rowsOf (entries : List (StreamId × Fields)) : List (AlertRow K) :=
  entries.filterMap fun e => parseAlert codec e.2

/-- Where a failure leaves a worker: `run_forever` starts `run` again after a Redis or OS error, the
sweep swallows a Redis error, anything else ends the process. -/
def afterFailure (sweep : Bool) : Failure → Stage
  | .redis => if sweep then .idle .steady else .idle .drain
  | .os => .idle .drain
  | .other => .down

/-- `_consume` of what a read answered: nothing is flushed when nothing came. -/
def consume (entries : List (StreamId × Fields)) (next ifNone : Loc) (sweep : Bool) : Stage :=
  if entries = [] then .idle ifNone else .consuming entries next sweep

variable [DecidableEq κ]

def System.set (s : System K κ) (c : κ) (w : Stage) : System K κ :=
  { s with worker := Function.update s.worker c w }

/-- One step of worker `c`. -/
def System.act (s : System K κ) (c : κ) : Act → Option (System K κ)
  | .start =>
    match s.worker c with
    | .down => some (s.set c (.idle .drain))
    | _ => none
  | .readPending =>
    match s.worker c with
    | .idle .drain =>
      some (s.set c (consume (s.group.xreadPending c batch) .drain (.claim none false) false))
    | _ => none
  | .claim idle =>
    match s.worker c with
    | .idle (.claim start sweep) =>
      let (claimed, next) := s.group.claimable idle start batch
      let goOn := if next = none then .steady else .claim next sweep
      some ({ s with group := s.group.xautoclaim c claimed }.set c
        (consume claimed goOn .steady sweep))
    | _ => none
  | .read =>
    match s.worker c with
    | .idle .steady =>
      some ({ s with group := s.group.xreadNew c batch }.set c
        (consume (s.group.fresh batch) .steady .steady false))
    | _ => none
  | .sweep =>
    match s.worker c with
    | .idle .steady => some (s.set c (.idle (.claim none true)))
    | _ => none
  | .insert =>
    match s.worker c with
    | .consuming entries next sweep =>
      some ({ s with table := (insertAlerts s.table (rowsOf codec entries)).table }.set c
        (.acking entries next sweep))
    | _ => none
  | .insertLost failure =>
    match s.worker c with
    | .consuming entries _ sweep =>
      some ({ s with table := (insertAlerts s.table (rowsOf codec entries)).table }.set c
        (afterFailure sweep failure))
    | _ => none
  | .ack =>
    match s.worker c with
    | .acking entries next _ =>
      some ({ s with group := s.group.xack (entries.map Prod.fst) }.set c (.idle next))
    | _ => none
  | .ackLost =>
    match s.worker c with
    | .acking entries _ sweep =>
      some ({ s with group := s.group.xack (entries.map Prod.fst) }.set c
        (afterFailure sweep .redis))
    | _ => none
  | .fail failure =>
    match s.worker c with
    | .down => none
    | .idle (.claim _ sweep) => some (s.set c (afterFailure sweep failure))
    | .idle _ => some (s.set c (afterFailure false failure))
    | .consuming _ _ sweep | .acking _ _ sweep => some (s.set c (afterFailure sweep failure))
  | .crash => some (s.set c .down)

def System.step (s : System K κ) : Action κ → Option (System K κ)
  | .append id fields => (s.group.xadd id fields).map fun group => { s with group }
  | .act c what => s.act codec batch c what

/-- The system from an empty stream and an empty table. -/
def alertLts : Lts (System K κ) (Action κ) := .ofFn .init (System.step codec batch)

/-- Every appended entry parses, under a `(symbol, seq)` the stream does not hold yet. -/
def DistinctAlerts (s : System K κ) : Action κ → Prop
  | .append _ fields => ∃ row, parseAlert codec fields = some row ∧
      ∀ e ∈ s.group.log, ∀ r, parseAlert codec e.2 = some r → r.key ≠ row.key
  | .act .. => True

/-! ## The invariant -/

/-- The entry's row is in the table, with exactly its fields. -/
def Stored (table : AlertTable K) (e : StreamId × Fields) : Prop :=
  ∃ row, parseAlert codec e.2 = some row ∧ table.get? row.key = some row

/-- The entries of the stream all parse, and no two of them give one key. -/
def DistinctLog (log : List (StreamId × Fields)) : Prop :=
  log.Pairwise fun e f => ∀ r r', parseAlert codec e.2 = some r → parseAlert codec f.2 = some r' →
    r.key ≠ r'.key

/-- What holds of the batch a worker has in hand. -/
def StageOk (log : List (StreamId × Fields)) (table : AlertTable K) : Stage → Prop
  | .down | .idle _ => True
  | .consuming entries _ _ => ∀ e ∈ entries, e ∈ log
  | .acking entries _ _ => ∀ e ∈ entries, e ∈ log ∧ Stored codec table e

/-- Every stored row is held under its key and comes from an entry. -/
def FromLog (log : List (StreamId × Fields)) (table : AlertTable K) : Prop :=
  ∀ k r, table.get? k = some r → r.key = k ∧ ∃ e ∈ log, parseAlert codec e.2 = some r

structure AlertsOk (s : System K κ) : Prop where
  parses : ∀ e ∈ s.group.log, ∃ row, parseAlert codec e.2 = some row
  distinct : DistinctLog codec s.group.log
  acked : ∀ e ∈ s.group.acked, Stored codec s.table e
  fromLog : FromLog codec s.group.log s.table
  worker : ∀ c, StageOk codec s.group.log s.table (s.worker c)

/-! ## One step -/

variable {codec} {s t : System K κ} {log log' : List (StreamId × Fields)}
  {table table' : AlertTable K} {e f : StreamId × Fields} {r r' : AlertRow K}

omit [DecidableEq κ] in
theorem alertsOk_init : AlertsOk codec (System.init : System K κ) where
  parses := fun _ he => by cases he
  distinct := List.Pairwise.nil
  acked := fun _ he => by cases he
  fromLog := fun _ _ hr => by cases hr
  worker := fun _ => trivial

/-- Entries with one key are one entry, so they give one row. -/
theorem DistinctLog.row_eq (h : DistinctLog codec log) (he : e ∈ log) (hf : f ∈ log)
    (hr : parseAlert codec e.2 = some r) (hr' : parseAlert codec f.2 = some r')
    (hkey : r.key = r'.key) : r = r' := by
  have hpair : log.Pairwise fun a b => ∀ x y, parseAlert codec a.2 = some x →
      parseAlert codec b.2 = some y → x.key = y.key → x = y :=
    h.imp fun hab x y hx hy hxy => absurd hxy (hab x y hx hy)
  have hflip : log.Pairwise fun b a => ∀ x y, parseAlert codec a.2 = some x →
      parseAlert codec b.2 = some y → x.key = y.key → x = y :=
    hpair.imp fun hab x y hx hy hxy => (hab y x hy hx hxy.symm).symm
  refine hpair.forall_of_forall_of_flip ?_ hflip he hf r r' hr hr' hkey
  intro a _ x y hx hy _
  exact Option.some.inj (hx.symm.trans hy)

/-- A later table keeps what is stored. -/
theorem Stored.mono (h : Stored codec table e)
    (htable : ∀ k r, table.get? k = some r → table'.get? k = some r) : Stored codec table' e := by
  obtain ⟨row, hp, hrow⟩ := h
  exact ⟨row, hp, htable _ _ hrow⟩

theorem StageOk.mono {w : Stage} (h : StageOk codec log table w) (hlog : ∀ e ∈ log, e ∈ log')
    (htable : ∀ k r, table.get? k = some r → table'.get? k = some r) :
    StageOk codec log' table' w := by
  cases w with
  | down | idle => exact trivial
  | consuming => exact fun e he => hlog e (h e he)
  | acking => exact fun e he => ⟨hlog e (h e he).1, (h e he).2.mono htable⟩

/-- What an act of a worker can do: the stream keeps its entries and the table its rows, and what it
acknowledges is stored. -/
structure Advance (codec : Codec K) (s t : System K κ) : Prop where
  log : t.group.log = s.group.log
  acked : ∀ e ∈ t.group.acked, e ∈ s.group.acked ∨ Stored codec s.table e
  table : ∀ k r, s.table.get? k = some r → t.table.get? k = some r
  fromLog : FromLog codec s.group.log t.table
  stage : ∀ d, t.worker d = s.worker d ∨ StageOk codec s.group.log t.table (t.worker d)

omit [DecidableEq κ] in
theorem AlertsOk.advance (h : AlertsOk codec s) (ha : Advance codec s t) : AlertsOk codec t where
  parses := by
    rw [ha.log]
    exact h.parses
  distinct := by
    rw [ha.log]
    exact h.distinct
  acked := fun e he => ((ha.acked e he).elim (h.acked e) id).mono ha.table
  fromLog := by
    rw [ha.log]
    exact ha.fromLog
  worker := by
    intro d
    rw [ha.log]
    rcases ha.stage d with hd | hd
    · rw [hd]
      exact (h.worker d).mono (fun _ he => he) ha.table
    · exact hd

/-- A worker moves to `w`; the others stay. -/
theorem stage_set {c : κ} {w : Stage} (hw : StageOk codec log table w) (d : κ) :
    (s.set c w).worker d = s.worker d ∨ StageOk codec log table ((s.set c w).worker d) := by
  show Function.update s.worker c w d = _ ∨ StageOk codec log table (Function.update s.worker c w d)
  by_cases hd : d = c
  · rw [hd, Function.update_self]
    exact Or.inr hw
  · rw [Function.update_of_ne hd]
    exact Or.inl rfl

/-- An act that only moves the worker. -/
theorem AlertsOk.move (h : AlertsOk codec s) {c : κ} {w : Stage}
    (hw : StageOk codec s.group.log s.table w) : Advance codec s (s.set c w) where
  log := rfl
  acked := fun _ he => Or.inl he
  table := fun _ _ hr => hr
  fromLog := h.fromLog
  stage := stage_set hw

theorem stageOk_afterFailure (sweep : Bool) (failure : Failure) :
    StageOk codec log table (afterFailure sweep failure) := by
  cases failure with
  | redis => cases sweep <;> exact trivial
  | os | other => exact trivial

theorem stageOk_consume {entries : List (StreamId × Fields)} (h : ∀ e ∈ entries, e ∈ log)
    (next ifNone : Loc) (sweep : Bool) :
    StageOk codec log table (consume entries next ifNone sweep) := by
  unfold consume
  split
  · exact trivial
  · exact h

omit [DecidableEq κ] in
/-- **What a commit leaves**: the rows it found, and the row of every entry of the batch. -/
theorem AlertsOk.insert (h : AlertsOk codec s) {entries : List (StreamId × Fields)}
    (hentries : ∀ e ∈ entries, e ∈ s.group.log) :
    (∀ k r, s.table.get? k = some r →
      (insertAlerts s.table (rowsOf codec entries)).table.get? k = some r) ∧
    FromLog codec s.group.log (insertAlerts s.table (rowsOf codec entries)).table ∧
    ∀ e ∈ entries, Stored codec (insertAlerts s.table (rowsOf codec entries)).table e := by
  have hget : ∀ k, (insertAlerts s.table (rowsOf codec entries)).table.get? k =
      (s.table.get? k).or ((rowsOf codec entries).find? (·.key = k)) :=
    get?_insertNew s.table (rowsOf codec entries)
  have hrows : ∀ r ∈ rowsOf codec entries, ∃ e ∈ s.group.log, parseAlert codec e.2 = some r := by
    intro r hr
    obtain ⟨e, he, hp⟩ := List.mem_filterMap.mp hr
    exact ⟨e, hentries e he, hp⟩
  have hfrom : FromLog codec s.group.log (insertAlerts s.table (rowsOf codec entries)).table := by
    intro k r hr
    rw [hget, Option.or_eq_some_iff] at hr
    rcases hr with hr | ⟨-, hr⟩
    · exact h.fromLog k r hr
    · exact ⟨by simpa using List.find?_some hr, hrows r (List.mem_of_find?_eq_some hr)⟩
  refine ⟨?_, hfrom, ?_⟩
  · intro k r hr
    rw [hget, hr, Option.some_or]
  · intro e he
    obtain ⟨row, hp⟩ := h.parses e (hentries e he)
    have hmem : row ∈ rowsOf codec entries := List.mem_filterMap.mpr ⟨e, he, hp⟩
    have hsome : ((insertAlerts s.table (rowsOf codec entries)).table.get? row.key).isSome := by
      rw [hget, Option.isSome_or, Bool.or_eq_true, List.find?_isSome]
      exact Or.inr ⟨row, hmem, by simp⟩
    obtain ⟨r, hr⟩ := Option.isSome_iff_exists.mp hsome
    -- whatever is stored under the key comes from an entry, and only this one has the key
    obtain ⟨hkey, f, hf, hpf⟩ := hfrom _ _ hr
    have heq : r = row := h.distinct.row_eq hf (hentries e he) hpf hp hkey
    exact ⟨row, hp, heq ▸ hr⟩

/-- An act that acknowledges the batch a worker has committed. -/
theorem AlertsOk.xack (h : AlertsOk codec s) {c : κ} {entries : List (StreamId × Fields)}
    (hentries : ∀ e ∈ entries, e ∈ s.group.log ∧ Stored codec s.table e) {w : Stage}
    (hw : StageOk codec s.group.log s.table w) :
    Advance codec s ({ s with group := s.group.xack (entries.map Prod.fst) }.set c w) where
  log := rfl
  acked := by
    intro e he
    refine (Group.acked_xack he).imp_right fun hid => ?_
    obtain ⟨f, hf, hfe⟩ := List.mem_map.mp hid
    have hlog : e ∈ s.group.log := Group.mem_log_of_mem_acked (g := s.group.xack _) he
    have heq : f = e := Group.eq_of_id_eq (hentries f hf).1 hlog hfe
    exact heq ▸ (hentries f hf).2
  table := fun _ _ hr => hr
  fromLog := h.fromLog
  stage := stage_set hw

/-- **One act of a worker.** -/
theorem AlertsOk.act (h : AlertsOk codec s) {batch : Nat} {c : κ} {what : Act}
    (hs : s.act codec batch c what = some t) : Advance codec s t := by
  have hc := h.worker c
  unfold System.act at hs
  cases what with
  | start | sweep =>
    simp only at hs
    split at hs
    · cases hs
      exact h.move trivial
    · cases hs
  | readPending =>
    simp only at hs
    split at hs
    · cases hs
      exact h.move (stageOk_consume (fun e he => Group.mem_log_of_mem_xreadPending he) ..)
    · cases hs
  | claim idle =>
    simp only at hs
    split at hs
    · cases hs
      -- entries change hands, and none is acknowledged
      refine ⟨rfl, fun e he => Or.inl ?_, fun _ _ hr => hr, h.fromLog,
        stage_set (stageOk_consume (fun e he => Group.mem_log_of_mem_claimable he) ..)⟩
      exact Group.acked_xautoclaim s.group c _ ▸ he
    · cases hs
  | read =>
    simp only at hs
    split at hs
    · cases hs
      exact ⟨rfl, fun e he => Or.inl (Group.acked_xreadNew _ _ _ e he), fun _ _ hr => hr, h.fromLog,
        stage_set (stageOk_consume (fun e he => Group.mem_log_of_mem_fresh he) ..)⟩
    · cases hs
  | insert =>
    simp only at hs
    split at hs
    · next hw =>
      cases hs
      rw [hw] at hc
      obtain ⟨htable, hfrom, hstored⟩ := h.insert hc
      exact ⟨rfl, fun e he => Or.inl he, htable, hfrom,
        stage_set fun e he => ⟨hc e he, hstored e he⟩⟩
    · cases hs
  | insertLost failure =>
    simp only at hs
    split at hs
    · next hw =>
      cases hs
      rw [hw] at hc
      obtain ⟨htable, hfrom, -⟩ := h.insert hc
      exact ⟨rfl, fun e he => Or.inl he, htable, hfrom, stage_set (stageOk_afterFailure ..)⟩
    · cases hs
  | ack =>
    simp only at hs
    split at hs
    · next hw =>
      cases hs
      rw [hw] at hc
      exact h.xack hc trivial
    · cases hs
  | ackLost =>
    simp only at hs
    split at hs
    · next hw =>
      cases hs
      rw [hw] at hc
      exact h.xack hc (stageOk_afterFailure ..)
    · cases hs
  | fail failure =>
    simp only at hs
    split at hs
    · cases hs
    all_goals
      cases hs
      exact h.move (stageOk_afterFailure ..)
  | crash =>
    cases hs
    exact h.move trivial

omit [DecidableEq κ] in
theorem AlertsOk.append (h : AlertsOk codec s) {id : StreamId} {fields : Fields}
    (hok : DistinctAlerts codec s (.append id fields)) {group : Group StreamId Fields κ}
    (hx : s.group.xadd id fields = some group) : AlertsOk codec { s with group := group } := by
  obtain ⟨row, hp, hfresh⟩ := hok
  obtain ⟨hlog, -, -⟩ := Group.xadd_eq_some hx
  have hsub : ∀ e ∈ s.group.log, e ∈ group.log := by
    intro e he
    rw [hlog]
    exact List.mem_append_left _ he
  refine ⟨?_, ?_, ?_, ?_, fun c => (h.worker c).mono hsub fun _ _ hr => hr⟩
  · intro e he
    rw [hlog, List.mem_append, List.mem_singleton] at he
    rcases he with he | rfl
    · exact h.parses e he
    · exact ⟨row, hp⟩
  · show DistinctLog codec group.log
    rw [hlog, DistinctLog, List.pairwise_append]
    refine ⟨h.distinct, List.pairwise_singleton .., ?_⟩
    intro e he f hf r r' hr hr'
    rw [List.mem_singleton.mp hf, hp] at hr'
    cases hr'
    exact hfresh e he r hr
  · intro e he
    rw [Group.acked_xadd hx] at he
    exact h.acked e he
  · intro k r hr
    obtain ⟨hkey, e, he, hpe⟩ := h.fromLog k r hr
    exact ⟨hkey, e, hsub e he, hpe⟩

theorem AlertsOk.step (h : AlertsOk codec s) {batch : Nat} {a : Action κ}
    (hok : DistinctAlerts codec s a) (hs : s.step codec batch a = some t) : AlertsOk codec t := by
  cases a with
  | append id fields =>
    obtain ⟨group, hx, rfl⟩ := Option.map_eq_some_iff.mp hs
    exact h.append hok hx
  | act c what => exact h.advance (h.act hs)

theorem alertsOk_of_reachable {batch : Nat}
    (hr : ((alertLts codec batch : Lts (System K κ) _).guard (DistinctAlerts codec)).Reachable s) :
    AlertsOk codec s :=
  hr.invariant (fun _ h => h ▸ alertsOk_init) fun _ _ _ h hs => h.step hs.2 hs.1

/-- **A step acknowledges only what is stored already.** -/
theorem AlertsOk.acked_step (h : AlertsOk codec s) {batch : Nat} {a : Action κ}
    (hs : s.step codec batch a = some t) :
    ∀ e ∈ t.group.acked, e ∈ s.group.acked ∨ Stored codec s.table e := by
  cases a with
  | append id fields =>
    obtain ⟨group, hx, rfl⟩ := Option.map_eq_some_iff.mp hs
    intro e he
    exact Or.inl (Group.acked_xadd hx ▸ he)
  | act c what => exact (h.act hs).acked

/-! ## Every run -/

/--
**Effectively-once persistence of alerts.**

For any number of workers, every stream whose entries all parse under distinct `(symbol, seq)`, and
every interleaving of appends, reads, claims, inserts, acknowledgements, failures, crashes and
restarts, in every state reached: each acknowledged entry has exactly one row in the table, with
exactly its own fields; every row comes from an entry; and whatever step comes next acknowledges
only entries whose row is committed already.
-/
theorem effectively_once (codec : Codec K) (batch : Nat) {s : System K κ}
    (hr : ((alertLts codec batch).guard (DistinctAlerts codec)).Reachable s) :
    (∀ e ∈ s.group.acked, ∃ row, parseAlert codec e.2 = some row ∧
      s.table.values.filter (·.key = row.key) = [row]) ∧
    (∀ r ∈ s.table.values, ∃ e ∈ s.group.log, parseAlert codec e.2 = some r) ∧
    ∀ a t, s.step codec batch a = some t →
      ∀ e ∈ t.group.acked, e ∈ s.group.acked ∨ Stored codec s.table e := by
  have h := alertsOk_of_reachable hr
  refine ⟨?_, ?_, fun a t hs => h.acked_step hs⟩
  · intro e he
    obtain ⟨row, hp, hrow⟩ := h.acked e he
    refine ⟨row, hp, ?_⟩
    rw [Dict.filter_values_eq (fun k r hr => (h.fromLog k r hr).1), hrow]
    rfl
  · intro r hr
    obtain ⟨⟨k, v⟩, hmem, rfl⟩ := List.mem_map.mp hr
    exact (h.fromLog k v (Dict.mem_entries_iff.mp hmem)).2

/-- Readers of the few texts the sample entry holds. -/
def sampleCodec : Codec Int where
  float raw := if raw = "3" then some 3 else none
  int raw := if raw = "1" then some 1 else none
  fromisoformat raw :=
    if raw = "1970-01-01T00:00:00+00:00" then some { wall := 0, offset := some 0 } else none
  isFinite _ := true

def sampleFields : Fields :=
  ⟨[("s", "EURUSD"), ("seq", "1"), ("ts", "1970-01-01T00:00:00+00:00"), ("old_regime", "normal"),
    ("new_regime", "stressed"), ("trigger_value", "3"), ("threshold_value", "3"),
    ("cause", "threshold")], by decide⟩

/-- A worker commits and dies before its `XACK`; another claims the entry and acknowledges it. -/
def replay : List (Action Bool) :=
  [(true, .start), (true, .readPending), (true, .claim fun _ => true), (true, .read),
    (true, .insert), (true, .crash), (false, .start), (false, .readPending),
    (false, .claim fun _ => true), (false, .insert), (false, .ack)].map fun p => .act p.1 p.2

theorem effectively_once_replay :
    ∃ s : System Int Bool,
      Lts.exec (System.step sampleCodec 10) .init
        (.append (toLex (5, 0)) sampleFields :: replay) = some s ∧
      s.group.acked = [(toLex (5, 0), sampleFields)] ∧
      ∃ row, parseAlert sampleCodec sampleFields = some row ∧
        s.table.values.filter (·.key = row.key) = [row] := by
  refine ⟨_, rfl, rfl, ?_⟩
  have hfirst : ((alertLts sampleCodec 10 : Lts (System Int Bool) _).guard
      (DistinctAlerts sampleCodec)).Reachable _ := .step (a := .append (toLex (5, 0)) sampleFields) (.init rfl)
        ⟨rfl, _, rfl, fun _ he => nomatch he⟩
  have hacts : ∀ a ∈ replay, ∀ u, DistinctAlerts sampleCodec u a := by
    intro a ha u
    obtain ⟨p, -, rfl⟩ := List.mem_map.mp ha
    exact trivial
  have hr := Lts.reachable_guard_exec hfirst hacts rfl
  exact (effectively_once sampleCodec 10 hr).1 _ (List.mem_singleton_self _)

end FxTracker.Worker.AlertPersister
