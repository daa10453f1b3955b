import FxTracker.Api.Conflator

/-!
# The writer task

`fx_api/routers/stream.py`, `_writer`, beside the reader and the fan-out that share its session.

The writer runs until it awaits something that is not ready. Four of its awaits may be ready at
once and then do not yield to the event loop: waiting on an event that is set, taking a lock
nobody holds, and sending an empty batch. A pass that meets only these neither sends nor lets any
other task run.

* `wakeup_invariant_of_leaves_a_frame` — where every `unsubscribe` leaves a frame, a pass that
  found the event set sends a frame or ends closed, so no pass sends nothing without blocking
* `unsubscribe_spins` — a run that ends in such a pass, and repeats it for ever
-/

namespace FxTracker.Api

open ClientSession

variable {P : Type} {upper : String → String}

/-! ## The tasks of one connection -/

/-- Who holds `send_lock`. The reader holds it across the hello and each snapshot. -/
inductive SendLock
  | free
  | reader
  | writer
  deriving DecidableEq, Repr

/-- What one pass of the writer's loop has done so far. -/
structure Pass where
  /-- The event was set when the pass came to wait on it. -/
  immediate : Bool
  /-- The pass has awaited something that was not ready. -/
  blocked : Bool
  sent : Nat
  deriving DecidableEq, Repr

/-- Where the writer stands. -/
inductive WriterAt (P : Type)
  /-- At `while not session.closed`; the pass just ended, if there was one. -/
  | loopTop (last : Option Pass)
  /-- In `wait_for(session.wakeup.wait(), timeout=1.0)`, blocked. -/
  | waiting
  /-- The wait is over; saturation is tested next. -/
  | woken (pass : Pass)
  /-- At `async with send_lock`. -/
  | locking (pass : Pass)
  /-- In `_send_all`, with these frames left. -/
  | sending (pass : Pass) (frames : List P)
  | finished

/-- One connection: its session, its lock and its writer. -/
structure Conn (P : Type) where
  session : ClientSession P
  lock : SendLock
  writer : WriterAt P

namespace Conn

def fresh : Conn P := ⟨.fresh, .free, .loopTop none⟩

/-- What the tasks of a connection do, one await to the next. -/
inductive Event (P : Type)
  /-- The fan-out publishes. -/
  | offer (now : Int) (key : RoutingKey) (payload : P)
  /-- The reader takes the lock, subscribes while it holds it, and lets it go. -/
  | readerLock
  | subscribe (symbols : List String)
  | readerUnlock
  | unsubscribe (symbols : List String)
  | close (wake : Bool)
  /-- The writer tests the loop condition and comes to wait on the event. -/
  | enter
  /-- The event the writer is blocked on is set, or its second is over. -/
  | wake
  | timeout
  /-- The writer tests saturation. -/
  | check (now : Int)
  /-- The writer takes the lock and drains. -/
  | lockAndDrain
  /-- The lock is taken: the writer blocks on it. -/
  | blockOnLock
  /-- One frame goes to the socket. -/
  | send
  /-- The batch is out and the lock released. -/
  | sent
  /-- The send hits the deadline, or the socket is gone. -/
  | sendFailed

/-- One step of the connection. `deadline` is `ws_slow_client_deadline_s`. -/
def step (upper : String → String) (deadline : Int) (c : Conn P) : Event P → Option (Conn P)
  | .offer now key payload => some { c with session := c.session.offer now key payload }
  | .readerLock => if c.lock = .free then some { c with lock := .reader } else none
  | .subscribe symbols =>
    if c.lock = .reader then some { c with session := c.session.subscribe upper symbols } else none
  | .readerUnlock => if c.lock = .reader then some { c with lock := .free } else none
  | .unsubscribe symbols =>
    if c.lock = .reader then none
    else some { c with session := c.session.unsubscribe upper symbols }
  | .close wake => some { c with session := c.session.close wake }
  | .enter =>
    match c.writer with
    | .loopTop _ =>
      if c.session.closed then some { c with writer := .finished }
      else if c.session.wakeup then
        some { c with writer := .woken { immediate := true, blocked := false, sent := 0 } }
      else some { c with writer := .waiting }
    | _ => none
  | .wake =>
    match c.writer with
    | .waiting =>
      if c.session.wakeup then
        some { c with writer := .woken { immediate := false, blocked := true, sent := 0 } }
      else none
    | _ => none
  | .timeout =>
    match c.writer with
    | .waiting => some { c with writer := .woken { immediate := false, blocked := true, sent := 0 } }
    | _ => none
  | .check now =>
    match c.writer with
    | .woken pass =>
      if c.session.noteSaturation now deadline then
        some { c with session := c.session.close false, writer := .finished }
      else some { c with writer := .locking pass }
    | _ => none
  | .lockAndDrain =>
    match c.writer with
    | .locking pass =>
      if c.lock = .free then
        some { session := c.session.drain.2, lock := .writer, writer := .sending pass c.session.drain.1 }
      else none
    | _ => none
  | .blockOnLock =>
    match c.writer with
    | .locking pass =>
      if c.lock = .free then none
      else some { c with writer := .locking { pass with blocked := true } }
    | _ => none
  | .send =>
    match c.writer with
    | .sending pass (_ :: rest) => some { c with writer := .sending { pass with sent := pass.sent + 1 } rest }
    | _ => none
  | .sent =>
    match c.writer with
    | .sending pass [] => some { c with lock := .free, writer := .loopTop (some pass) }
    | _ => none
  | .sendFailed =>
    match c.writer with
    | .sending _ _ => some { session := c.session.close false, lock := .free, writer := .finished }
    | _ => none

/-- Every `unsubscribe` leaves a frame queued, finds none, or comes after the close. -/
def LeavesAFrameAt (upper : String → String) (c : Conn P) : Event P → Prop
  | .unsubscribe symbols => LeavesAFrame upper c.session (.unsubscribe symbols)
  | _ => True

end Conn

/-- The connection, run by the event loop from its registration. -/
def connLts (upper : String → String) (deadline : Int) : Lts (Conn P) (Conn.Event P) :=
  .ofFn .fresh (Conn.step upper deadline)

/-! ## What a pass achieves -/

/-- The pass sent a frame, or blocked, or the session is closed; and blocking on the lock alone
does not excuse a pass that found the event set. -/
def PassOk (s : ClientSession P) (pass : Pass) : Prop :=
  (pass.immediate = true → 0 < pass.sent ∨ s.closed = true) ∧
    (0 < pass.sent ∨ pass.blocked = true ∨ s.closed = true)

/-- What holds of the pass at each place the writer can stand. -/
def WriterOk (s : ClientSession P) : WriterAt P → Prop
  | .loopTop last => ∀ pass ∈ last, PassOk s pass
  | .waiting => True
  | .woken pass | .locking pass =>
    (pass.immediate = true → s.pending.isEmpty = false ∨ s.closed = true) ∧
      (pass.immediate = true ∨ pass.blocked = true)
  | .sending pass frames =>
    (pass.immediate = true → 0 < pass.sent + frames.length ∨ s.closed = true) ∧
      (pass.immediate = true ∨ pass.blocked = true)
  | .finished => True

/-- A change of the session that reopens nothing and empties no open queue keeps `WriterOk`. -/
theorem WriterOk.mono {s t : ClientSession P} {w : WriterAt P} (h : WriterOk s w)
    (hclosed : s.closed = true → t.closed = true)
    (hpending : s.pending.isEmpty = false → t.pending.isEmpty = false ∨ t.closed = true) :
    WriterOk t w := by
  cases w with
  | loopTop last =>
    intro pass hp
    obtain ⟨h₁, h₂⟩ := h pass hp
    exact ⟨fun hi => (h₁ hi).imp_right hclosed, h₂.imp_right (Or.imp_right hclosed)⟩
  | waiting => exact trivial
  | woken pass | locking pass =>
    refine ⟨fun hi => ?_, h.2⟩
    rcases h.1 hi with hp | hc
    · exact hpending hp
    · exact Or.inr (hclosed hc)
  | sending pass frames => exact ⟨fun hi => (h.1 hi).imp_right hclosed, h.2⟩
  | finished => exact trivial

/-- The invariant of a connection. -/
structure ConnOk (c : Conn P) : Prop where
  wakeup : WakeupOk c.session
  writer : WriterOk c.session c.writer

theorem connOk_fresh : ConnOk (Conn.fresh : Conn P) where
  wakeup := fun h => by cases h
  writer := fun _ h => by cases h

/-- An operation of the other tasks keeps the invariant if it leaves a frame. -/
theorem ConnOk.sessionOp {c : Conn P} (h : ConnOk c) (upper : String → String) (op : SessionOp P)
    (hop : LeavesAFrame upper c.session op)
    (hclosed : c.session.closed = true → (op.apply upper c.session).closed = true)
    (hpending : c.session.pending.isEmpty = false →
      (op.apply upper c.session).pending.isEmpty = false ∨
        (op.apply upper c.session).closed = true) (lock : SendLock) :
    ConnOk { c with session := op.apply upper c.session, lock := lock } where
  wakeup := wakeupOk_apply upper op h.wakeup hop
  writer := h.writer.mono hclosed hpending

theorem isEmpty_offer {s : ClientSession P} {now : Int} {key : RoutingKey} {payload : P}
    (h : s.pending.isEmpty = false) : (s.offer now key payload).pending.isEmpty = false := by
  cases hc : s.closed with
  | true => rw [offer_of_closed hc]; exact h
  | false => rw [(offer_of_open hc now key payload).2.1]; exact Dict.isEmpty_set ..

/-- What `LeavesAFrame` says of an `unsubscribe` that finds frames queued. -/
theorem isEmpty_unsubscribe_of_leaves {s : ClientSession P} {symbols : List String}
    (hop : LeavesAFrame upper s (.unsubscribe symbols)) (h : s.pending.isEmpty = false) :
    (s.unsubscribe upper symbols).pending.isEmpty = false ∨ s.closed = true := by
  rcases hop with hc | he | ⟨key, hk, hd⟩
  · exact Or.inr hc
  · rw [h] at he; cases he
  · exact Or.inl (isEmpty_eq_false_of_mem_keys (mem_keys_unsubscribe.mpr ⟨hk, hd⟩))

/-- **The steps of the reader and the fan-out keep the invariant.** -/
theorem connOk_step_others {deadline : Int} {c d : Conn P} (h : ConnOk c) {e : Conn.Event P}
    (hok : Conn.LeavesAFrameAt upper c e) (hs : Conn.step upper deadline c e = some d)
    (he : match e with
      | .offer .. | .readerLock | .subscribe _ | .readerUnlock | .unsubscribe _ | .close _ => True
      | _ => False) : ConnOk d := by
  cases e with
  | offer now key payload =>
    cases hs
    refine h.sessionOp upper (.offer now key payload) trivial ?_ ?_ c.lock
    · intro hc; rw [SessionOp.apply, closed_offer]; exact hc
    · exact fun hp => Or.inl (isEmpty_offer hp)
  | readerLock | readerUnlock =>
    simp only [Conn.step] at hs
    split at hs
    · cases hs; exact ⟨h.wakeup, h.writer⟩
    · cases hs
  | subscribe symbols =>
    simp only [Conn.step] at hs
    split at hs
    · cases hs
      exact h.sessionOp upper (.subscribe symbols) trivial id Or.inl c.lock
    · cases hs
  | unsubscribe symbols =>
    simp only [Conn.step] at hs
    split at hs
    · cases hs
    · cases hs
      refine h.sessionOp upper (.unsubscribe symbols) hok ?_ ?_ c.lock
      · intro hc; rw [SessionOp.apply, closed_unsubscribe]; exact hc
      · intro hp
        rw [SessionOp.apply, closed_unsubscribe]
        exact isEmpty_unsubscribe_of_leaves hok hp
  | close wake =>
    cases hs
    exact h.sessionOp upper (.close wake) trivial (fun _ => rfl)
      (fun _ => Or.inr rfl) c.lock
  | enter | wake | timeout | check | lockAndDrain | blockOnLock | send | sent | sendFailed =>
    exact he.elim

/-- **The steps of the writer keep the invariant**, with no condition on them. -/
theorem connOk_step_writer {deadline : Int} {c d : Conn P} (h : ConnOk c) {e : Conn.Event P}
    (hs : Conn.step upper deadline c e = some d)
    (he : match e with
      | .offer .. | .readerLock | .subscribe _ | .readerUnlock | .unsubscribe _ | .close _ => False
      | _ => True) : ConnOk d := by
  obtain ⟨hw, hwr⟩ := h
  cases e with
  | enter =>
    simp only [Conn.step] at hs
    split at hs
    · split at hs
      · cases hs; exact ⟨hw, trivial⟩
      · split at hs
        · next hset => cases hs; exact ⟨hw, fun _ => hw hset, Or.inl rfl⟩
        · cases hs; exact ⟨hw, trivial⟩
    · cases hs
  | wake =>
    simp only [Conn.step] at hs
    split at hs
    · split at hs
      · cases hs; exact ⟨hw, fun hi => (nomatch hi), Or.inr rfl⟩
      · cases hs
    · cases hs
  | timeout =>
    simp only [Conn.step] at hs
    split at hs
    · cases hs; exact ⟨hw, fun hi => (nomatch hi), Or.inr rfl⟩
    · cases hs
  | check now =>
    simp only [Conn.step] at hs
    split at hs
    · next pass hpc =>
      rw [hpc] at hwr
      split at hs
      · cases hs; exact ⟨fun _ => Or.inr rfl, trivial⟩
      · cases hs; exact ⟨hw, hwr⟩
    · cases hs
  | lockAndDrain =>
    simp only [Conn.step] at hs
    split at hs
    · next pass hpc =>
      rw [hpc] at hwr
      split at hs
      · cases hs
        refine ⟨wakeupOk_apply id .drain hw trivial, fun hi => ?_, hwr.2⟩
        -- the batch is what the wait found queued: only this task drains
        rcases hwr.1 hi with hp | hc
        · have hb : 0 < c.session.drain.1.length :=
            List.length_pos_of_ne_nil (drain_of_not_isEmpty hp).1
          exact Or.inl (by omega)
        · exact Or.inr (by rw [closed_drain]; exact hc)
      · cases hs
    · cases hs
  | blockOnLock =>
    simp only [Conn.step] at hs
    split at hs
    · next pass hpc =>
      rw [hpc] at hwr
      split at hs
      · cases hs
      · cases hs; exact ⟨hw, hwr.1, Or.inr rfl⟩
    · cases hs
  | send =>
    simp only [Conn.step] at hs
    split at hs
    · next pass f rest hpc =>
      cases hs
      rw [hpc] at hwr
      exact ⟨hw, fun _ => Or.inl (by show 0 < pass.sent + 1 + rest.length; omega), hwr.2⟩
    · cases hs
  | sent =>
    simp only [Conn.step] at hs
    split at hs
    · next pass hpc =>
      cases hs
      rw [hpc] at hwr
      refine ⟨hw, fun p hp => ?_⟩
      rw [Option.mem_some_iff] at hp
      subst hp
      refine ⟨hwr.1, ?_⟩
      rcases hwr.2 with hi | hb
      · exact (hwr.1 hi).imp_right Or.inr
      · exact Or.inr (Or.inl hb)
    · cases hs
  | sendFailed =>
    simp only [Conn.step] at hs
    split at hs
    · cases hs; exact ⟨fun _ => Or.inr rfl, trivial⟩
    · cases hs
  | offer | readerLock | subscribe | readerUnlock | unsubscribe | close => exact he.elim

theorem connOk_step {deadline : Int} {c d : Conn P} (h : ConnOk c) {e : Conn.Event P}
    (hok : Conn.LeavesAFrameAt upper c e) (hs : Conn.step upper deadline c e = some d) :
    ConnOk d := by
  cases e with
  | offer | readerLock | subscribe | readerUnlock | unsubscribe | close =>
    exact connOk_step_others h hok hs trivial
  | enter | wake | timeout | check | lockAndDrain | blockOnLock | send | sent | sendFailed =>
    exact connOk_step_writer h hs trivial

theorem connOk_of_reachable {deadline : Int} {c : Conn P}
    (hr : ((connLts upper deadline).guard (Conn.LeavesAFrameAt upper)).Reachable c) : ConnOk c :=
  hr.invariant (fun _ h => h ▸ connOk_fresh) fun _ _ _ h hs => connOk_step h hs.2 hs.1

/-! ## The wakeup invariant -/

/--
**The wakeup invariant holds exactly where `unsubscribe` leaves a frame.**

For a session alone: it holds after every operation of a run if and only if every `unsubscribe`
of the run leaves a frame queued, finds none, or comes after the close.
For a connection whose every `unsubscribe` is of that kind: it holds in every state of every
interleaving, and every pass of the writer that found the event set has sent a frame or ends
closed, so the writer never goes round without sending or blocking.
-/
theorem wakeup_invariant_of_leaves_a_frame (upper : String → String) (deadline : Int) :
    (∀ ops : List (SessionOp P),
      (∀ pre, pre <+: ops → WakeupOk (sessionAfter upper pre)) ↔
        ∀ pre op, pre ++ [op] <+: ops → LeavesAFrame upper (sessionAfter upper pre) op) ∧
    ∀ c : Conn P, ((connLts upper deadline).guard (Conn.LeavesAFrameAt upper)).Reachable c →
      WakeupOk c.session ∧ ∀ pass, c.writer = .loopTop (some pass) → PassOk c.session pass := by
  refine ⟨wakeupOk_run_iff, fun c hr => ?_⟩
  obtain ⟨hw, hwr⟩ := connOk_of_reachable hr
  refine ⟨hw, fun pass hpc => ?_⟩
  rw [hpc] at hwr
  exact hwr pass rfl

/--
**The frozen loop.** A tick is queued, the reader unsubscribes before the writer wakes: the event
stays set over an empty queue, and the writer's next pass sends nothing, blocks on nothing and
ends where it began, with the same session.
-/
theorem unsubscribe_spins :
    (¬ ∀ ops : List (SessionOp Unit), WakeupOk (sessionAfter id ops)) ∧
    ∃ c : Conn Unit,
      Lts.exec (Conn.step id 10) Conn.fresh
        [.readerLock, .subscribe ["EURUSD"], .readerUnlock, .offer 0 (.tick "EURUSD") (),
          .unsubscribe ["EURUSD"], .enter, .check 1, .lockAndDrain, .sent] = some c ∧
      c.session.closed = false ∧ c.writer = .loopTop (some ⟨true, false, 0⟩) ∧
      Lts.exec (Conn.step id 10) c [.enter, .check 2, .lockAndDrain, .sent] = some c := by
  refine ⟨fun h => ?_, _, rfl, rfl, rfl, rfl⟩
  have hbad : ¬ WakeupOk (sessionAfter id [.subscribe ["EURUSD"],
      .offer 0 (.tick "EURUSD") (), .unsubscribe ["EURUSD"]] : ClientSession Unit) := by decide
  exact hbad (h _)

end FxTracker.Api
