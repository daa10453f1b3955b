import FxTracker.Worker.Contents
import FxTracker.Worker.Loop

/-!
# Runs of one persister that go on

One worker on a stream of any content, while Redis and PostgreSQL answer. Its process may be stopped
and started again at any time; a run that goes on by itself is fair if the flush interval elapses
again and again.

* `Isolates` — from wherever the worker can get to, every fair run commits and acknowledges everything
* `fair_eagerRun` — the worker can always go on, and fairly
-/

namespace FxTracker.Worker.Ticks

open Redis Persister

variable {K : Type} [FloatOps K] [LT K] [DecidableLT K]

/-! ## Runs -/

/-- The content of a stream. -/
structure TickStream where
  log : List Entry
  ascending : log.Pairwise fun e f => e.1 < f.1

/-- No worker has read of the stream yet. -/
def System.ofStream (stream : TickStream) : System K Unit :=
  { System.init with group := .ofLog stream.log stream.ascending }

/-- What can happen while Redis and PostgreSQL answer and the lease is kept. -/
def Act.Available : Act → Prop
  | .lose | .commitLost _ | .ackLost | .fail _ => False
  | _ => True

/-- What the worker does by itself. A read asks for entries. -/
def Act.Calm : Act → Prop
  | .lose | .commitLost _ | .ackLost | .fail _ | .stop | .crash => False
  | .read count => 0 < count
  | _ => True

/-- The worker alone on the stream. -/
def workerLts (cfg : PersisterConfig K) (stream : TickStream) : Lts (System K Unit) Act :=
  .ofFn (.ofStream stream) fun s what => s.act () cfg what

variable {cfg : PersisterConfig K} {stream : TickStream} {s t : System K Unit} {what : Act}

/-- The worker goes on by itself, and if it tests again and again whether a flush is due, then it is
again and again. -/
structure Fair (r : (workerLts cfg stream).Run) : Prop where
  calm : ∀ n, (r.label n).Calm
  due : (∀ n, ∃ m, n ≤ m ∧ ∃ d, r.label m = .check d) → ∀ n, ∃ m, n ≤ m ∧ r.label m = .check true

/-- Everything is acknowledged, and what can be stored is committed: the rows are the merges of batches of the
stream's entries, and the row of each entry that can be stored took in a batch that holds it. -/
structure Done (cfg : PersisterConfig K) (s : System K Unit) : Prop where
  acked : ∀ e ∈ s.group.log, e ∈ s.group.acked
  marked : ∀ e ∈ s.group.log, Storable cfg e → Settled cfg s.table e
  stored : ∃ taken, TakenIn cfg s.group.log s.table taken ∧
    ∀ e ∈ s.group.log, Storable cfg e → ∀ x ∈ tickOf cfg e, e ∈ (taken (x.1.symbol, x.2)).flatten

/-- The worker can go on, and however it does, it is done at some time. -/
def Finishes (cfg : PersisterConfig K) (stream : TickStream) (s : System K Unit) : Prop :=
  (∃ r : (workerLts cfg stream).Run, r.state 0 = s ∧ Fair r) ∧
    ∀ r : (workerLts cfg stream).Run, r.state 0 = s → Fair r → ∃ n, Done cfg (r.state n)

/-- The worker finishes from wherever it can get to. -/
def Isolates (cfg : PersisterConfig K) (stream : TickStream) : Prop :=
  ∀ s, ((workerLts cfg stream).guard fun _ what => what.Available).Reachable s →
    Finishes cfg stream s

/-! ## The worker can always go on -/

/-- The worker holds the lease while it is in `run`. -/
structure Leased (s : System K Unit) : Prop where
  lost : (s.worker ()).lost = false
  free : (s.worker ()).phase = .stopped → s.lease = none
  held : (s.worker ()).phase ≠ .stopped → s.lease = some ()

variable {c : Unit} {w : WorkerState K}

omit [FloatOps K] [LT K] [DecidableLT K] in
theorem leased_put (hs : s.lease = some ()) (hw : w.lost = false) (hp : w.phase ≠ .stopped) :
    Leased (s.put c w) where
  lost := by rw [System.worker_put_self]; exact hw
  free := fun h => by rw [System.worker_put_self] at h; exact absurd h hp
  held := fun _ => hs

omit [FloatOps K] [LT K] [DecidableLT K] in
theorem leased_leave (hs : s.lease = some () ∨ s.lease = none) (hw : w.lost = false)
    (memory : Persister K) : Leased (s.leave c w memory) where
  lost := (System.moves_leave (s := s) (c := c) memory).lost.trans hw
  free := fun _ => by
    unfold System.leave
    rcases hs with hs | hs <;> simp [hs]
  held := fun h => by
    have hp : ((s.put c { w with phase := .stopped, memory }).worker ()).phase = .stopped := by
      rw [System.worker_put_self]
    exact absurd hp h

omit [FloatOps K] [LT K] [DecidableLT K] in
theorem leased_goOn (hs : s.lease = some ()) (hw : w.lost = false) (resume : Resume) :
    Leased (s.goOn c w resume) := by
  cases resume with
  | exit => exact leased_leave (.inl hs) hw _
  | _ => exact leased_put hs hw (by simp [Resume.phase])

omit [FloatOps K] [LT K] [DecidableLT K] in
theorem leased_beginFlush (hs : s.lease = some ()) (hw : w.lost = false) (resume : Resume)
    (sweep : Bool) : Leased (s.beginFlush c w resume sweep) := by
  unfold System.beginFlush
  split
  · exact leased_goOn hs hw resume
  · exact leased_put hs hw (by simp)

theorem leased_receive (hs : s.lease = some ()) (hw : w.lost = false) (entries : List Entry)
    (resume : Resume) (sweep : Bool) : Leased (s.receive c w cfg entries resume sweep) := by
  unfold System.receive
  split
  · next memory _ => exact leased_beginFlush (w := { w with memory }) hs hw resume sweep
  · exact leased_leave (.inl hs) hw _

/-- Redis keeps the lease for the worker that holds it. -/
theorem Leased.act (h : Leased s) (ha : what.Available) (hs : s.act () cfg what = some t) :
    Leased t := by
  obtain ⟨hlost, hfree, hheld⟩ := h
  have held : ∀ {phase}, (s.worker ()).phase = phase → phase ≠ .stopped → s.lease = some () :=
    fun hp hne => hheld (hp ▸ hne)
  cases takes_of_act hs with
  | lose | commitLost | ackLost | fail => exact ha.elim
  | acquire => exact leased_put rfl rfl (by simp)
  | drained hp | top hp | read hp | notDue hp | commit hp =>
    refine leased_put ?_ ?_ (by simp)
    · exact held hp (by simp)
    · exact hlost
  | claimed hp =>
    refine leased_put ?_ ?_ (by simp)
    · exact held hp (by simp)
    · exact hlost
  | sweepCheck hp =>
    refine leased_put ?_ ?_ (by split <;> simp)
    · exact held hp (by simp)
    · exact hlost
  | readPending hp | claim hp =>
    refine leased_receive ?_ hlost ..
    exact held hp (by simp)
  | lost _ hgone =>
    rw [hlost] at hgone
    cases hgone
  | stop hp | due hp =>
    refine leased_beginFlush ?_ hlost ..
    exact held hp (by simp)
  | readRaises hp | commitRaises hp =>
    refine leased_leave (.inl ?_) hlost _
    exact held hp (by simp)
  | ack hp =>
    refine leased_goOn ?_ ?_ _
    · exact held hp (by simp)
    · exact hlost
  | crash =>
    refine leased_leave ?_ hlost _
    by_cases hp : (s.worker ()).phase = .stopped
    · exact .inr (hfree hp)
    · exact .inl (hheld hp)

/-- What the worker does next if it reads one entry at a time and flushes whenever it can. -/
def Phase.next : Phase → Act
  | .stopped => .acquire
  | .drain => .readPending
  | .claim .. => .claim fun _ => false
  | .loopTop => .top
  | .reading => .read 1
  | .check => .check true
  | .sweepCheck => .sweepCheck false
  | .flushing .. => .commit
  | .acking .. => .ack

theorem Phase.calm_next (phase : Phase) : phase.next.Calm := by
  cases phase <;> first | trivial | exact Nat.zero_lt_one

theorem Act.Calm.available (h : what.Calm) : what.Available := by
  cases what <;> trivial

/-- There is always a next step. -/
theorem Leased.exists_act (h : Leased s) (cfg : PersisterConfig K) :
    ∃ t, s.act () cfg (s.worker ()).phase.next = some t := by
  cases hp : (s.worker ()).phase with
  | stopped =>
    rw [Phase.next, System.act, hp]
    dsimp only
    rw [if_pos (h.free hp)]
    exact ⟨_, rfl⟩
  | drain =>
    rw [Phase.next, System.act, hp]
    dsimp only
    split <;> exact ⟨_, rfl⟩
  | claim start sweep =>
    rw [Phase.next, System.act, hp]
    dsimp only
    split <;> exact ⟨_, rfl⟩
  | loopTop =>
    rw [Phase.next, System.act, hp, h.lost]
    exact ⟨_, rfl⟩
  | reading =>
    rw [Phase.next, System.act, hp]
    dsimp only
    rw [if_pos (show 1 ≤ cfg.flushMaxRows from cfg.flushMaxRows_pos)]
    split <;> exact ⟨_, rfl⟩
  | check =>
    rw [Phase.next, System.act, hp]
    dsimp only
    rw [if_neg (by simp), if_pos rfl]
    exact ⟨_, rfl⟩
  | sweepCheck =>
    rw [Phase.next, System.act, hp]
    exact ⟨_, rfl⟩
  | flushing resume sweep =>
    rw [Phase.next, System.act, hp]
    dsimp only
    split <;> exact ⟨_, rfl⟩
  | acking resume sweep =>
    rw [Phase.next, System.act, hp]
    exact ⟨_, rfl⟩

/-- The states of that worker. -/
def eager (cfg : PersisterConfig K) (s : System K Unit) : Nat → System K Unit
  | 0 => s
  | n + 1 => ((eager cfg s n).act () cfg ((eager cfg s n).worker ()).phase.next).getD (eager cfg s n)

theorem leased_eager (cfg : PersisterConfig K) (h : Leased s) : ∀ n, Leased (eager cfg s n)
  | 0 => h
  | n + 1 => by
    have hn := leased_eager cfg h n
    obtain ⟨t, ht⟩ := hn.exists_act cfg
    rw [eager, ht]
    exact hn.act (Phase.calm_next _).available ht

def eagerRun (cfg : PersisterConfig K) (stream : TickStream) (h : Leased s) : (workerLts cfg stream).Run where
  state := eager cfg s
  label n := ((eager cfg s n).worker ()).phase.next
  step n := by
    obtain ⟨t, ht⟩ := (leased_eager cfg h n).exists_act cfg
    show (eager cfg s n).act () cfg _ = some (eager cfg s (n + 1))
    rw [eager, ht]
    rfl

/-- **The worker can always go on**, and fairly. -/
theorem fair_eagerRun (h : Leased s) : Fair (eagerRun cfg stream h) where
  calm := fun _ => Phase.calm_next _
  due := fun hcheck n => by
    obtain ⟨m, hm, due, hdue⟩ := hcheck n
    refine ⟨m, hm, ?_⟩
    change ((eager cfg s m).worker ()).phase.next = _ at hdue ⊢
    cases hp : ((eager cfg s m).worker ()).phase <;> rw [hp] at hdue <;> cases hdue
    rfl

theorem leased_of_reachable
    (hr : ((workerLts cfg stream).guard fun _ what => what.Available).Reachable s) : Leased s := by
  refine hr.invariant (fun s hs => ?_) fun s what t hs ht => hs.act ht.2 ht.1
  rw [hs]
  exact ⟨rfl, fun _ => rfl, fun h => absurd rfl h⟩

end FxTracker.Worker.Ticks
