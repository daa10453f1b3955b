import FxTracker.Lib.Lts
import FxTracker.Redis.Group
import FxTracker.Worker.Persister
import Mathlib.Logic.Function.Basic

/-!
# The persister's loop

`fx_worker/persister.py`, `run` and `run_forever`, and the lease of `fx_platform/leader.py`, for any
number of workers with distinct consumer names on one stream, group, lease and table.

A step is what one worker does from one `await` to the next, or an append by the ingestor. Losing the
lease and failing are steps of their own, enabled wherever they can come.
-/

namespace FxTracker.Worker.Ticks

open Redis

variable {K κ : Type}

/-- Where a worker goes on after a `flush`. -/
inductive Resume
  | drain
  | claim (next : StreamId) (sweep : Bool)
  /-- The last page of a claim: to the top of the loop. -/
  | loop
  | sweepCheck
  /-- The flush after the loop. -/
  | exit

/-- Where a worker stands. -/
inductive Phase
  /-- Not in `run`: no process, or one that waits for the lease. -/
  | stopped
  /-- In `drain_own_pending`, about to read. -/
  | drain
  /-- In `claim_abandoned`, about to claim from `start`. -/
  | claim (start : Option StreamId) (sweep : Bool)
  | loopTop
  /-- In the loop's `XREADGROUP`. -/
  | reading
  /-- The read is folded in; `_should_flush` comes next. -/
  | check
  /-- The sweep interval is tested next. -/
  | sweepCheck
  /-- In `flush`, before the commit. -/
  | flushing (resume : Resume) (sweep : Bool)
  /-- In `flush`, between the commit and the `XACK`. -/
  | acking (resume : Resume) (sweep : Bool)

def Phase.isSweep : Phase → Bool
  | .claim _ sweep => sweep
  | _ => false

def Phase.isFlushing : Phase → Bool
  | .flushing .. => true
  | _ => false

def Phase.isAcking : Phase → Bool
  | .acking .. => true
  | _ => false

def Resume.phase : Resume → Phase
  | .drain => .drain
  | .claim next sweep => .claim (some next) sweep
  | .loop => .loopTop
  | .sweepCheck => .sweepCheck
  | .exit => .stopped

structure WorkerState (K : Type) where
  phase : Phase
  memory : Persister K
  /-- The lease's `lost` event. -/
  lost : Bool

structure System (K κ : Type) where
  group : Group StreamId Fields κ
  table : BarTable K
  lease : Option κ
  worker : κ → WorkerState K

/-- What one worker does next. -/
inductive Act
  /-- `hold` gets the lease, and `run` begins. -/
  | acquire
  /-- The renewal fails: `lost` is set, and the lease is free. -/
  | lose
  | readPending
  /-- `XAUTOCLAIM`, where the periodic sweep finds these ids idle enough. -/
  | claim (idle : StreamId → Bool)
  | top
  /-- The loop test finds `_stopping` set. -/
  | stop
  | read (count : Nat)
  | check (due : Bool)
  | sweepCheck (due : Bool)
  | commit
  /-- The statement commits and its answer is lost. -/
  | commitLost (failure : Failure)
  | ack
  /-- The `XACK` takes effect and its answer is lost. -/
  | ackLost
  /-- The pending operation fails without effect. -/
  | fail (failure : Failure)
  | crash

inductive Action (κ : Type)
  | append (id : StreamId) (fields : Fields)
  | act (consumer : κ) (what : Act)

namespace System

def init : System K κ := ⟨.empty, .empty, none, fun _ => ⟨.stopped, .fresh, false⟩⟩

variable [DecidableEq κ] (s : System K κ) (c : κ) (w : WorkerState K)

def put : System K κ := { s with worker := Function.update s.worker c w }

theorem put_unit (s : System K Unit) (c : Unit) (w : WorkerState K) :
    s.put c w = { s with worker := fun _ => w } := rfl

/-- `run` ended: the lease is released, if it is still held. -/
def leave (memory : Persister K) : System K κ :=
  { s.put c { w with phase := .stopped, memory } with
    lease := if s.lease = some c then none else s.lease }

def goOn : Resume → System K κ
  -- `_stopping` is set: the process ends
  | .exit => s.leave c w .fresh
  | resume => s.put c { w with phase := resume.phase }

/-- `flush` returns at once if there is nothing to commit; it then acknowledges nothing. -/
def beginFlush (resume : Resume) (sweep : Bool) : System K κ :=
  if w.memory.accs.isEmpty then s.goOn c w resume
  else s.put c { w with phase := .flushing resume sweep }

/-- The sweep swallows a Redis error; `run_forever` starts again after a Redis or OS error; anything
else ends the process. -/
def failed (sweep : Bool) : Failure → System K κ
  | .redis => if sweep then s.put c { w with phase := .loopTop } else s.leave c w w.memory
  | .os => s.leave c w w.memory
  | .other => s.leave c w .fresh

variable [FloatOps K] [LT K] [DecidableLT K] (cfg : PersisterConfig K)

/-- A page is folded in and flushed; an exception that escapes the fold ends the process. -/
def receive (entries : List Entry) (resume : Resume) (sweep : Bool) : System K κ :=
  match w.memory.ingestAll cfg entries with
  | some memory => s.beginFlush c { w with memory } resume sweep
  | none => s.leave c w .fresh

/-- One step of worker `c`. -/
def act : Act → Option (System K κ)
  | .acquire =>
    match (s.worker c).phase with
    | .stopped =>
      if s.lease = none then
        some ({ s with lease := some c }.put c
          { phase := .drain, memory := (s.worker c).memory.clear, lost := false })
      else none
    | _ => none
  | .lose =>
    if s.lease = some c then
      some ({ s with lease := none }.put c { s.worker c with lost := true })
    else none
  | .readPending =>
    match (s.worker c).phase with
    | .drain =>
      match s.group.xreadPending c cfg.flushMaxRows with
      | [] => some (s.put c { s.worker c with phase := .claim none false })
      | entries => some (s.receive c (s.worker c) cfg entries .drain false)
    | _ => none
  | .claim idle =>
    match (s.worker c).phase with
    | .claim start sweep =>
      -- at startup `min_idle_ms` is 0
      let (claimed, next) :=
        s.group.claimable (fun id => !sweep || idle id) start cfg.flushMaxRows
      let s' := { s with group := s.group.xautoclaim c claimed }
      match claimed with
      | [] => some (s'.put c { s.worker c with phase := .loopTop })
      | entries =>
        let resume := match next with
          | some next => Resume.claim next sweep
          | none => .loop
        some (s'.receive c (s.worker c) cfg entries resume sweep)
    | _ => none
  | .top =>
    match (s.worker c).phase with
    | .loopTop =>
      if (s.worker c).lost then some (s.leave c (s.worker c) (s.worker c).memory)
      else some (s.put c { s.worker c with phase := .reading })
    | _ => none
  | .stop =>
    match (s.worker c).phase with
    | .loopTop => some (s.beginFlush c (s.worker c) .exit false)
    | _ => none
  | .read count =>
    match (s.worker c).phase with
    | .reading =>
      if count ≤ cfg.flushMaxRows then
        let s' := { s with group := s.group.xreadNew c count }
        match (s.worker c).memory.ingestAll cfg (s.group.fresh count) with
        | some memory => some (s'.put c { s.worker c with phase := .check, memory })
        | none => some (s'.leave c (s.worker c) .fresh)
      else none
    | _ => none
  | .check due =>
    match (s.worker c).phase with
    | .check =>
      if cfg.flushMaxRows ≤ (s.worker c).memory.unacked.length ∧ due = false then none
      else if due then some (s.beginFlush c (s.worker c) .sweepCheck false)
      else some (s.put c { s.worker c with phase := .sweepCheck })
    | _ => none
  | .sweepCheck due =>
    match (s.worker c).phase with
    | .sweepCheck =>
      some (s.put c { s.worker c with phase := if due then .claim none true else .loopTop })
    | _ => none
  | .commit =>
    match (s.worker c).phase with
    | .flushing resume sweep =>
      match upsertBars cfg.instruments s.table (s.worker c).memory.batch with
      | some table =>
        some ({ s with table }.put c { s.worker c with phase := .acking resume sweep })
      | none => some (s.leave c (s.worker c) .fresh)
    | _ => none
  | .commitLost failure =>
    match (s.worker c).phase with
    | .flushing _ sweep =>
      (upsertBars cfg.instruments s.table (s.worker c).memory.batch).map fun table =>
        { s with table }.failed c (s.worker c) sweep failure
    | _ => none
  | .ack =>
    match (s.worker c).phase with
    | .acking resume _ =>
      some ({ s with group := s.group.xack (s.worker c).memory.unacked }.goOn c
        { s.worker c with memory := (s.worker c).memory.clearBatch } resume)
    | _ => none
  | .ackLost =>
    match (s.worker c).phase with
    | .acking _ sweep =>
      some ({ s with group := s.group.xack (s.worker c).memory.unacked }.failed c
        (s.worker c) sweep .redis)
    | _ => none
  | .fail failure =>
    match (s.worker c).phase with
    | .stopped => none
    | .claim _ sweep | .flushing _ sweep | .acking _ sweep =>
      some (s.failed c (s.worker c) sweep failure)
    | _ => some (s.failed c (s.worker c) false failure)
  | .crash => some (s.leave c (s.worker c) .fresh)

def step : Action κ → Option (System K κ)
  | .append id fields => (s.group.xadd id fields).map fun group => { s with group }
  | .act c what => s.act c cfg what

end System

/-! ## The ways a step comes out -/

/-- Where a claim goes on after a page that came with this cursor. -/
def Resume.after (next : Option StreamId) (sweep : Bool) : Resume :=
  match next with
  | some next => .claim next sweep
  | none => .loop

/-- The operation awaited is one of the sweep, whose Redis errors are swallowed. -/
def Phase.swallows : Phase → Bool
  | .claim _ sweep | .flushing _ sweep | .acking _ sweep => sweep
  | _ => false

/-- The steps of worker `c`, one rule for each way an act comes out. -/
inductive Takes [DecidableEq κ] [FloatOps K] [LT K] [DecidableLT K] (cfg : PersisterConfig K)
    (s : System K κ) (c : κ) : Act → System K κ → Prop
  | acquire (hphase : (s.worker c).phase = .stopped) (hfree : s.lease = none) :
      Takes cfg s c .acquire ({ s with lease := some c }.put c
        { phase := .drain, memory := (s.worker c).memory.clear, lost := false })
  | lose (hheld : s.lease = some c) :
      Takes cfg s c .lose ({ s with lease := none }.put c { s.worker c with lost := true })
  /-- Nothing of its own is pending. -/
  | drained (hphase : (s.worker c).phase = .drain)
      (hnil : s.group.xreadPending c cfg.flushMaxRows = []) :
      Takes cfg s c .readPending (s.put c { s.worker c with phase := .claim none false })
  | readPending (hphase : (s.worker c).phase = .drain)
      (hne : s.group.xreadPending c cfg.flushMaxRows ≠ []) :
      Takes cfg s c .readPending (s.receive c (s.worker c) cfg
        (s.group.xreadPending c cfg.flushMaxRows) .drain false)
  /-- A page without entries ends the claim. -/
  | claimed {idle : StreamId → Bool} {start next : Option StreamId} {sweep : Bool}
      (hphase : (s.worker c).phase = .claim start sweep)
      (hpage : s.group.claimable (fun id => !sweep || idle id) start cfg.flushMaxRows = ([], next)) :
      Takes cfg s c (.claim idle) ({ s with group := s.group.xautoclaim c [] }.put c
        { s.worker c with phase := .loopTop })
  | claim {idle : StreamId → Bool} {start next : Option StreamId} {sweep : Bool} {page : List Entry}
      (hphase : (s.worker c).phase = .claim start sweep)
      (hpage : s.group.claimable (fun id => !sweep || idle id) start cfg.flushMaxRows = (page, next))
      (hne : page ≠ []) :
      Takes cfg s c (.claim idle) ({ s with group := s.group.xautoclaim c page }.receive c
        (s.worker c) cfg page (.after next sweep) sweep)
  /-- The loop test finds `lost` set. -/
  | lost (hphase : (s.worker c).phase = .loopTop) (hlost : (s.worker c).lost = true) :
      Takes cfg s c .top (s.leave c (s.worker c) (s.worker c).memory)
  | top (hphase : (s.worker c).phase = .loopTop) (hlost : (s.worker c).lost = false) :
      Takes cfg s c .top (s.put c { s.worker c with phase := .reading })
  | stop (hphase : (s.worker c).phase = .loopTop) :
      Takes cfg s c .stop (s.beginFlush c (s.worker c) .exit false)
  | read {count : Nat} {memory : Persister K} (hphase : (s.worker c).phase = .reading)
      (hcount : count ≤ cfg.flushMaxRows)
      (hfold : (s.worker c).memory.ingestAll cfg (s.group.fresh count) = some memory) :
      Takes cfg s c (.read count) ({ s with group := s.group.xreadNew c count }.put c
        { s.worker c with phase := .check, memory })
  | readRaises {count : Nat} (hphase : (s.worker c).phase = .reading)
      (hcount : count ≤ cfg.flushMaxRows)
      (hfold : (s.worker c).memory.ingestAll cfg (s.group.fresh count) = none) :
      Takes cfg s c (.read count) ({ s with group := s.group.xreadNew c count }.leave c
        (s.worker c) .fresh)
  | due (hphase : (s.worker c).phase = .check) :
      Takes cfg s c (.check true) (s.beginFlush c (s.worker c) .sweepCheck false)
  | notDue (hphase : (s.worker c).phase = .check)
      (hfew : (s.worker c).memory.unacked.length < cfg.flushMaxRows) :
      Takes cfg s c (.check false) (s.put c { s.worker c with phase := .sweepCheck })
  | sweepCheck {due : Bool} (hphase : (s.worker c).phase = .sweepCheck) :
      Takes cfg s c (.sweepCheck due)
        (s.put c { s.worker c with phase := if due then .claim none true else .loopTop })
  | commit {resume : Resume} {sweep : Bool} {table : BarTable K}
      (hphase : (s.worker c).phase = .flushing resume sweep)
      (hu : upsertBars cfg.instruments s.table (s.worker c).memory.batch = some table) :
      Takes cfg s c .commit
        ({ s with table }.put c { s.worker c with phase := .acking resume sweep })
  | commitRaises {resume : Resume} {sweep : Bool}
      (hphase : (s.worker c).phase = .flushing resume sweep)
      (hu : upsertBars cfg.instruments s.table (s.worker c).memory.batch = none) :
      Takes cfg s c .commit (s.leave c (s.worker c) .fresh)
  | commitLost {failure : Failure} {resume : Resume} {sweep : Bool} {table : BarTable K}
      (hphase : (s.worker c).phase = .flushing resume sweep)
      (hu : upsertBars cfg.instruments s.table (s.worker c).memory.batch = some table) :
      Takes cfg s c (.commitLost failure) ({ s with table }.failed c (s.worker c) sweep failure)
  | ack {resume : Resume} {sweep : Bool} (hphase : (s.worker c).phase = .acking resume sweep) :
      Takes cfg s c .ack ({ s with group := s.group.xack (s.worker c).memory.unacked }.goOn c
        { s.worker c with memory := (s.worker c).memory.clearBatch } resume)
  | ackLost {resume : Resume} {sweep : Bool} (hphase : (s.worker c).phase = .acking resume sweep) :
      Takes cfg s c .ackLost ({ s with group := s.group.xack (s.worker c).memory.unacked }.failed c
        (s.worker c) sweep .redis)
  | fail {failure : Failure} (hphase : (s.worker c).phase ≠ .stopped) :
      Takes cfg s c (.fail failure) (s.failed c (s.worker c) (s.worker c).phase.swallows failure)
  | crash : Takes cfg s c .crash (s.leave c (s.worker c) .fresh)

/-- **A step is one of these.** -/
theorem takes_of_act [DecidableEq κ] [FloatOps K] [LT K] [DecidableLT K] {cfg : PersisterConfig K}
    {s t : System K κ} {c : κ} {what : Act} (h : s.act c cfg what = some t) :
    Takes cfg s c what t := by
  cases what with
  | acquire =>
    rw [System.act] at h
    split at h
    · next hphase =>
      split at h
      · next hfree =>
        cases h
        exact .acquire hphase hfree
      · cases h
    · cases h
  | lose =>
    rw [System.act] at h
    split at h
    · next hheld =>
      cases h
      exact .lose hheld
    · cases h
  | readPending =>
    rw [System.act] at h
    split at h
    · next hphase =>
      split at h
      · next hnil =>
        cases h
        exact .drained hphase hnil
      · next hne =>
        cases h
        exact .readPending hphase hne
    · cases h
  | claim idle =>
    rw [System.act] at h
    split at h
    · next start sweep hphase =>
      cases hpage : s.group.claimable (fun id => !sweep || idle id) start cfg.flushMaxRows with
      | mk page next =>
        rw [hpage] at h
        dsimp only at h
        split at h
        · cases h
          exact .claimed hphase hpage
        · next hne =>
          cases h
          exact .claim hphase hpage hne
    · cases h
  | top =>
    rw [System.act] at h
    split at h
    · next hphase =>
      split at h
      · next hlost =>
        cases h
        exact .lost hphase hlost
      · next hlost =>
        cases h
        exact .top hphase (Bool.eq_false_iff.mpr hlost)
    · cases h
  | stop =>
    rw [System.act] at h
    split at h
    · next hphase =>
      cases h
      exact .stop hphase
    · cases h
  | read count =>
    rw [System.act] at h
    split at h
    · next hphase =>
      split at h
      · next hcount =>
        dsimp only at h
        split at h
        · next hfold =>
          cases h
          exact .read hphase hcount hfold
        · next hfold =>
          cases h
          exact .readRaises hphase hcount hfold
      · cases h
    · cases h
  | check due =>
    rw [System.act] at h
    split at h
    · next hphase =>
      split at h
      · cases h
      · next hfew =>
        cases due with
        | true =>
          cases h
          exact .due hphase
        | false =>
          cases h
          exact .notDue hphase (Nat.lt_of_not_le fun hle => hfew ⟨hle, rfl⟩)
    · cases h
  | sweepCheck due =>
    rw [System.act] at h
    split at h
    · next hphase =>
      cases h
      exact .sweepCheck hphase
    · cases h
  | commit =>
    rw [System.act] at h
    split at h
    · next hphase =>
      split at h
      · next hu =>
        cases h
        exact .commit hphase hu
      · next hu =>
        cases h
        exact .commitRaises hphase hu
    · cases h
  | commitLost failure =>
    rw [System.act] at h
    split at h
    · next hphase =>
      obtain ⟨table, hu, rfl⟩ := Option.map_eq_some_iff.mp h
      exact .commitLost hphase hu
    · cases h
  | ack =>
    rw [System.act] at h
    split at h
    · next hphase =>
      cases h
      exact .ack hphase
    · cases h
  | ackLost =>
    rw [System.act] at h
    split at h
    · next hphase =>
      cases h
      exact .ackLost hphase
    · cases h
  | fail failure =>
    have hfail : (s.worker c).phase ≠ .stopped → Takes cfg s c (.fail failure)
        (s.failed c (s.worker c) (s.worker c).phase.swallows failure) := .fail
    rw [System.act] at h
    cases hphase : (s.worker c).phase with
    | stopped =>
      rw [hphase] at h
      cases h
    | _ =>
      rw [hphase] at h hfail
      cases h
      exact hfail (by simp)
  | crash =>
    cases h
    exact .crash

/-! ## What a step leaves alone -/

namespace System

/-- `t` is `s` but for worker `c`, whose `lost` event is that of `w`. -/
structure Moves (s t : System K κ) (c : κ) (w : WorkerState K) : Prop where
  group : t.group = s.group
  table : t.table = s.table
  lost : (t.worker c).lost = w.lost
  others : ∀ d, d ≠ c → t.worker d = s.worker d

variable [DecidableEq κ] {s t : System K κ} {c : κ} {w : WorkerState K}

theorem worker_put_of_ne {d : κ} (h : d ≠ c) (w : WorkerState K) :
    (s.put c w).worker d = s.worker d := Function.update_of_ne h ..

@[simp] theorem worker_put_self (s : System K κ) (c : κ) (w : WorkerState K) :
    (s.put c w).worker c = w := Function.update_self ..

theorem moves_put {w' : WorkerState K} (h : w'.lost = w.lost) : Moves s (s.put c w') c w :=
  ⟨rfl, rfl, by rw [worker_put_self, h], fun _ hd => worker_put_of_ne hd w'⟩

theorem moves_leave (memory : Persister K) : Moves s (s.leave c w memory) c w :=
  let h : Moves s (s.put c { w with phase := .stopped, memory }) c w := moves_put rfl
  ⟨rfl, rfl, h.lost, h.others⟩

theorem moves_goOn (resume : Resume) : Moves s (s.goOn c w resume) c w := by
  cases resume with
  | exit => exact moves_leave _
  | _ => exact moves_put rfl

theorem moves_beginFlush (resume : Resume) (sweep : Bool) :
    Moves s (s.beginFlush c w resume sweep) c w := by
  unfold beginFlush
  split
  · exact moves_goOn _
  · exact moves_put rfl

theorem moves_failed (sweep : Bool) (failure : Failure) :
    Moves s (s.failed c w sweep failure) c w := by
  cases failure with
  | redis =>
    unfold failed
    dsimp only
    split
    · exact moves_put rfl
    · exact moves_leave _
  | os | other => exact moves_leave _

theorem moves_receive [FloatOps K] [LT K] [DecidableLT K] {cfg : PersisterConfig K}
    (entries : List Entry) (resume : Resume) (sweep : Bool) :
    Moves s (s.receive c w cfg entries resume sweep) c w := by
  unfold receive
  split
  · next memory _ =>
    let h : Moves s (s.beginFlush c { w with memory } resume sweep) c { w with memory } :=
      moves_beginFlush ..
    exact ⟨h.group, h.table, h.lost, h.others⟩
  · exact moves_leave _

/-- The step is the `XACK` of worker `c`. -/
def IsXack (s t : System K κ) (c : κ) : Prop :=
  t.group = s.group.xack (s.worker c).memory.unacked ∧
    ∃ resume sweep, (s.worker c).phase = .acking resume sweep

/-- What a step of worker `c` can do to the stream, and to whether a worker has lost the lease. -/
structure Effect (s t : System K κ) (c : κ) (what : Act) : Prop where
  log : t.group.log = s.group.log
  acked : (∀ e ∈ t.group.acked, e ∈ s.group.acked) ∨ IsXack s t c
  lost : what ≠ .lose → (t.worker c).lost = true → (s.worker c).lost = true
  others : ∀ d, d ≠ c → t.worker d = s.worker d

omit [DecidableEq κ] in
/-- A move of worker `c` from a state `u` that differs from `s` in the stream, the table, the lease. -/
theorem Moves.effect {u : System K κ} {what : Act} (h : Moves u t c w) (hu : u.worker = s.worker)
    (hw : what ≠ .lose → w.lost = true → (s.worker c).lost = true) (hlog : u.group.log = s.group.log)
    (hacked : (∀ e ∈ u.group.acked, e ∈ s.group.acked) ∨ IsXack s u c) : Effect s t c what where
  log := h.group ▸ hlog
  acked := by
    rcases hacked with ha | ⟨hg, hp⟩
    · exact .inl (h.group ▸ ha)
    · exact .inr ⟨h.group.trans hg, hp⟩
  lost := fun hne ht => hw hne (h.lost ▸ ht)
  others := fun d hd => (h.others d hd).trans (congrFun hu d)

/-- **What any step of a worker can do.** -/
theorem effect_of_act [FloatOps K] [LT K] [DecidableLT K] {cfg : PersisterConfig K} {what : Act}
    (h : s.act c cfg what = some t) : Effect s t c what := by
  have hsame : ∀ {u : System K κ} {w : WorkerState K}, Moves u t c w → u.worker = s.worker →
      u.group = s.group → (what ≠ .lose → w.lost = true → (s.worker c).lost = true) →
      Effect s t c what := fun hm hu hg hw =>
    hm.effect hu hw (by rw [hg]) (.inl (by rw [hg]; exact fun _ he => he))
  cases takes_of_act h with
  | acquire => exact hsame (moves_put rfl) rfl rfl fun _ hw => nomatch hw
  | lose => exact hsame (moves_put rfl) rfl rfl fun hne => absurd rfl hne
  | drained | top | notDue | sweepCheck | commit =>
    exact hsame (moves_put rfl) rfl rfl fun _ hw => hw
  | readPending => exact hsame (moves_receive ..) rfl rfl fun _ hw => hw
  | claimed =>
    exact (moves_put rfl).effect rfl (fun _ hw => hw) rfl
      (.inl (by rw [Group.acked_xautoclaim]; exact fun _ he => he))
  | claim =>
    exact (moves_receive ..).effect rfl (fun _ hw => hw) rfl
      (.inl (by rw [Group.acked_xautoclaim]; exact fun _ he => he))
  | lost | commitRaises | crash => exact hsame (moves_leave _) rfl rfl fun _ hw => hw
  | stop | due => exact hsame (moves_beginFlush ..) rfl rfl fun _ hw => hw
  | read => exact (moves_put rfl).effect rfl (fun _ hw => hw) rfl (.inl (s.group.acked_xreadNew c _))
  | readRaises =>
    exact (moves_leave _).effect rfl (fun _ hw => hw) rfl (.inl (s.group.acked_xreadNew c _))
  | commitLost | fail => exact hsame (moves_failed ..) rfl rfl fun _ hw => hw
  | ack hphase => exact (moves_goOn _).effect rfl (fun _ hw => hw) rfl (.inr ⟨rfl, _, _, hphase⟩)
  | ackLost hphase =>
    exact (moves_failed ..).effect rfl (fun _ hw => hw) rfl (.inr ⟨rfl, _, _, hphase⟩)

end System

/-- The system from an empty stream and an empty table. -/
def tickLts [DecidableEq κ] [FloatOps K] [LT K] [DecidableLT K] (cfg : PersisterConfig K) :
    Lts (System K κ) (Action κ) :=
  .ofFn .init fun s a => s.step cfg a

end FxTracker.Worker.Ticks
