import FxTracker.Lib.Dict
import FxTracker.Lib.Lts
import Mathlib.Data.Finset.Basic

/-!
# The conflating client session

`fx_api/ws/conflator.py`. One browser connection holds the newest frame of each routing key and an
event its writer task waits on. Five operations touch the two: `offer`, `drain`, `subscribe`,
`unsubscribe` and closing.

* `wakeup_of_pending` — frames queued means the event is set, after any operations
* `wakeupOk_run_iff` — the converse (the event is set only with frames queued, or on a closed
  session) holds exactly as long as no `unsubscribe` takes the last frames out of the queue:
  `unsubscribe` and the early return of `drain` both leave the event as it was
-/

namespace FxTracker.Api

/-! ## The session -/

/-- What a frame is queued under. The source spells these `tick:EURUSD`, `vol:EURUSD`,
`alert:EURUSD:7` and `status`. -/
inductive RoutingKey
  | tick (symbol : String)
  | vol (symbol : String)
  | alert (symbol : String) (seq : Int)
  | status
  deriving DecidableEq, Repr

/-- `ClientSession`. Times are readings of `time.monotonic()`. -/
structure ClientSession (P : Type) where
  symbols : Finset String
  pending : Dict RoutingKey P
  wakeup : Bool
  conflated : Nat
  sent : Nat
  closed : Bool
  /-- When the oldest update still queued was queued. -/
  waitingSince : Option Int

namespace ClientSession

variable {P : Type}

/-- A session as `stream` registers it. -/
def fresh : ClientSession P where
  symbols := ∅
  pending := .empty
  wakeup := false
  conflated := 0
  sent := 0
  closed := false
  waitingSince := none

/-- Non-blocking publish. -/
def offer (s : ClientSession P) (now : Int) (key : RoutingKey) (payload : P) : ClientSession P :=
  if s.closed then s
  else
    { s with
      waitingSince := if s.pending.isEmpty then some now else s.waitingSince
      conflated := if s.pending.contains key then s.conflated + 1 else s.conflated
      pending := s.pending.set key payload
      wakeup := true }

/-- Take everything queued. With nothing queued it returns before it touches the event. -/
def drain (s : ClientSession P) : List P × ClientSession P :=
  if s.pending.isEmpty then ([], s)
  else
    (s.pending.values,
      { s with
        pending := .empty
        waitingSince := none
        wakeup := false
        sent := s.sent + s.pending.values.length })

/-- True when an update has waited for this client longer than the deadline. -/
def noteSaturation (s : ClientSession P) (now deadline : Int) : Bool :=
  match s.waitingSince with
  | none => false
  | some since => !s.pending.isEmpty && decide (deadline < now - since)

section Subscriptions

-- `str.upper`; nothing below depends on which characters it maps.
variable (upper : String → String)

def subscribe (s : ClientSession P) (symbols : List String) : ClientSession P :=
  { s with symbols := s.symbols ∪ (symbols.map upper).toFinset }

/-- One turn of the loop of `unsubscribe`. -/
def unsubscribeOne (s : ClientSession P) (symbol : String) : ClientSession P :=
  { s with
    symbols := s.symbols.erase (upper symbol)
    pending := (s.pending.erase (.tick (upper symbol))).erase (.vol (upper symbol)) }

def unsubscribe (s : ClientSession P) (symbols : List String) : ClientSession P :=
  symbols.foldl (unsubscribeOne upper) s

end Subscriptions

/-- `session.closed = True`, and with `wake` also `session.wakeup.set()`: the endpoint and
`ConnectionManager.stop` do both, the writer only the first. -/
def close (s : ClientSession P) (wake : Bool) : ClientSession P :=
  { s with closed := true, wakeup := s.wakeup || wake }

/-! ### What each operation leaves as it was -/

theorem offer_of_closed {s : ClientSession P} (h : s.closed = true) (now : Int) (key : RoutingKey)
    (payload : P) : s.offer now key payload = s := by simp [offer, h]

theorem offer_of_open {s : ClientSession P} (h : s.closed = false) (now : Int) (key : RoutingKey)
    (payload : P) : (s.offer now key payload).wakeup = true ∧
      (s.offer now key payload).pending = s.pending.set key payload ∧
      (s.offer now key payload).closed = false := by
  simp [offer, h]

@[simp] theorem closed_offer (s : ClientSession P) (now : Int) (key : RoutingKey) (payload : P) :
    (s.offer now key payload).closed = s.closed := by
  unfold offer; split <;> rfl

@[simp] theorem closed_drain (s : ClientSession P) : s.drain.2.closed = s.closed := by
  unfold drain; split <;> rfl

theorem drain_of_isEmpty {s : ClientSession P} (h : s.pending.isEmpty = true) :
    s.drain = ([], s) := by simp [drain, h]

theorem drain_of_not_isEmpty {s : ClientSession P} (h : s.pending.isEmpty = false) :
    s.drain.1 ≠ [] ∧ s.drain.2.wakeup = false ∧ s.drain.2.pending = .empty := by
  have hv : s.pending.values ≠ [] := by
    rw [ne_eq, Dict.values_eq_nil_iff, h]; simp
  simp [drain, h, hv]

variable {upper : String → String}

@[simp] theorem closed_unsubscribe (s : ClientSession P) (symbols : List String) :
    (s.unsubscribe upper symbols).closed = s.closed := by
  induction symbols generalizing s with
  | nil => rfl
  | cons x xs ih => exact ih (unsubscribeOne upper s x)

@[simp] theorem wakeup_unsubscribe (s : ClientSession P) (symbols : List String) :
    (s.unsubscribe upper symbols).wakeup = s.wakeup := by
  induction symbols generalizing s with
  | nil => rfl
  | cons x xs ih => exact ih (unsubscribeOne upper s x)

/-- The frames `unsubscribe` drops from the queue. -/
def DroppedBy (upper : String → String) (symbols : List String) (key : RoutingKey) : Prop :=
  ∃ x ∈ symbols, key = .tick (upper x) ∨ key = .vol (upper x)

instance (symbols : List String) (key : RoutingKey) :
    Decidable (DroppedBy upper symbols key) := by
  unfold DroppedBy; infer_instance

/-- **`unsubscribe` takes out the tick and volatility frames of the named symbols, no other.** -/
theorem get?_unsubscribe (s : ClientSession P) (symbols : List String) (key : RoutingKey) :
    (s.unsubscribe upper symbols).pending.get? key
      = if DroppedBy upper symbols key then none else s.pending.get? key := by
  induction symbols generalizing s with
  | nil => simp [unsubscribe, DroppedBy]
  | cons x xs ih =>
    have hone : (unsubscribeOne upper s x).pending.get? key
        = if key = .tick (upper x) ∨ key = .vol (upper x) then none else s.pending.get? key := by
      rw [unsubscribeOne, Dict.get?_erase, Dict.get?_erase]
      by_cases h₁ : key = .vol (upper x) <;> by_cases h₂ : key = .tick (upper x) <;> simp [h₁, h₂]
    show ((unsubscribeOne upper s x).unsubscribe upper xs).pending.get? key = _
    rw [ih, hone]
    have hiff : DroppedBy upper (x :: xs) key ↔
        (key = .tick (upper x) ∨ key = .vol (upper x)) ∨ DroppedBy upper xs key := by
      simp [DroppedBy]
    by_cases hx : key = .tick (upper x) ∨ key = .vol (upper x) <;>
      by_cases hxs : DroppedBy upper xs key <;> simp [hiff, hx, hxs]

theorem mem_keys_unsubscribe {s : ClientSession P} {symbols : List String} {key : RoutingKey} :
    key ∈ (s.unsubscribe upper symbols).pending.keys ↔
      key ∈ s.pending.keys ∧ ¬ DroppedBy upper symbols key := by
  rw [Dict.mem_keys_iff, Dict.mem_keys_iff, Dict.contains, Dict.contains, get?_unsubscribe]
  by_cases h : DroppedBy upper symbols key <;> simp [h]

end ClientSession

/-! ## Runs of a session -/

open ClientSession

variable {P : Type} {upper : String → String}

/-- One operation on a session, whichever task makes it. -/
inductive SessionOp (P : Type)
  | offer (now : Int) (key : RoutingKey) (payload : P)
  | drain
  | subscribe (symbols : List String)
  | unsubscribe (symbols : List String)
  | close (wake : Bool)

def SessionOp.apply (upper : String → String) (s : ClientSession P) :
    SessionOp P → ClientSession P
  | .offer now key payload => s.offer now key payload
  | .drain => s.drain.2
  | .subscribe symbols => s.subscribe upper symbols
  | .unsubscribe symbols => s.unsubscribe upper symbols
  | .close wake => s.close wake

/-- The session after `ops`, from registration. -/
def sessionAfter (upper : String → String) (ops : List (SessionOp P)) : ClientSession P :=
  ops.foldl (SessionOp.apply upper) fresh

theorem sessionAfter_concat (ops : List (SessionOp P)) (op : SessionOp P) :
    sessionAfter upper (ops ++ [op]) = op.apply upper (sessionAfter upper ops) := by
  simp [sessionAfter]

/-- The event is set only with something to send, or on a session that is closed. -/
def WakeupOk (s : ClientSession P) : Prop :=
  s.wakeup = true → s.pending.isEmpty = false ∨ s.closed = true

instance (s : ClientSession P) : Decidable (WakeupOk s) := by
  unfold WakeupOk; infer_instance

/--
The operation does not take the last queued frames of an open session away unsent.

Only an `unsubscribe` can: it does unless nothing is queued or some queued frame
is of another symbol or another kind (an alert, the feed status).
-/
def LeavesAFrame (upper : String → String) (s : ClientSession P) : SessionOp P → Prop
  | .unsubscribe symbols =>
    s.closed = true ∨ s.pending.isEmpty = true ∨
      ∃ key ∈ s.pending.keys, ¬ DroppedBy upper symbols key
  | _ => True

instance (s : ClientSession P) (op : SessionOp P) : Decidable (LeavesAFrame upper s op) := by
  cases op <;> unfold LeavesAFrame <;> infer_instance

theorem isEmpty_eq_false_of_mem_keys {s : ClientSession P} {key : RoutingKey}
    (h : key ∈ s.pending.keys) : s.pending.isEmpty = false := by
  rw [Dict.isEmpty_eq_false_iff]
  intro he
  rw [Dict.keys, he] at h
  cases h

/-- `unsubscribe` empties a queue exactly when it drops every frame of it. -/
theorem isEmpty_unsubscribe_iff {s : ClientSession P} {symbols : List String} :
    (s.unsubscribe upper symbols).pending.isEmpty = true ↔
      ∀ key ∈ s.pending.keys, DroppedBy upper symbols key := by
  rw [Dict.isEmpty_iff, ← List.map_eq_nil_iff (f := Prod.fst), List.eq_nil_iff_forall_not_mem]
  refine ⟨fun h key hk => ?_, fun h key hk => ?_⟩
  · by_contra hd
    exact h key (mem_keys_unsubscribe.mpr ⟨hk, hd⟩)
  · obtain ⟨hm, hd⟩ := mem_keys_unsubscribe.mp hk
    exact hd (h key hm)

/-- **Every operation that leaves a frame keeps the wakeup invariant.** -/
theorem wakeupOk_apply (upper : String → String) {s : ClientSession P} (op : SessionOp P)
    (h : WakeupOk s) (hop : LeavesAFrame upper s op) : WakeupOk (op.apply upper s) := by
  cases op with
  | offer now key payload =>
    cases hc : s.closed with
    | true => rw [SessionOp.apply, offer_of_closed hc]; exact h
    | false =>
      intro _
      rw [SessionOp.apply, (offer_of_open hc now key payload).2.1]
      exact Or.inl (Dict.isEmpty_set ..)
  | drain =>
    cases he : s.pending.isEmpty with
    | true => rw [SessionOp.apply, drain_of_isEmpty he]; exact h
    | false =>
      intro hw
      rw [SessionOp.apply, (drain_of_not_isEmpty he).2.1] at hw
      cases hw
  | subscribe symbols => exact h
  | unsubscribe symbols =>
    intro hw
    rw [SessionOp.apply, wakeup_unsubscribe] at hw
    rw [SessionOp.apply, closed_unsubscribe]
    rcases h hw with hp | hc
    · rcases hop with hc | he | ⟨key, hk, hd⟩
      · exact Or.inr hc
      · rw [he] at hp; cases hp
      · exact Or.inl (isEmpty_eq_false_of_mem_keys (mem_keys_unsubscribe.mpr ⟨hk, hd⟩))
    · exact Or.inr hc
  | close wake => exact fun _ => Or.inr rfl

/-- **Frames queued means the event is set**, whatever the operations were. -/
theorem wakeup_of_pending (ops : List (SessionOp P)) :
    (sessionAfter upper ops).pending.isEmpty = false →
      (sessionAfter upper ops).wakeup = true := by
  induction ops using List.reverseRecOn with
  | nil => intro h; cases h
  | append_singleton ops op ih =>
    rw [sessionAfter_concat]
    generalize sessionAfter upper ops = s at ih
    intro hp
    cases op with
    | offer now key payload =>
      cases hc : s.closed with
      | true =>
        rw [SessionOp.apply, offer_of_closed hc] at hp ⊢
        exact ih hp
      | false => exact (offer_of_open hc now key payload).1
    | drain =>
      cases he : s.pending.isEmpty with
      | true => rw [SessionOp.apply, drain_of_isEmpty he, he] at hp; cases hp
      | false => rw [SessionOp.apply, (drain_of_not_isEmpty he).2.2] at hp; cases hp
    | subscribe symbols => exact ih hp
    | unsubscribe symbols =>
      rw [SessionOp.apply, wakeup_unsubscribe]
      refine ih ?_
      by_contra he
      rw [Bool.not_eq_false] at he
      have hall : ∀ key ∈ s.pending.keys, DroppedBy upper symbols key := by
        intro key hk
        rw [isEmpty_eq_false_of_mem_keys hk] at he
        cases he
      rw [SessionOp.apply, isEmpty_unsubscribe_iff.mpr hall] at hp
      cases hp
    | close wake =>
      show (s.wakeup || wake) = true
      rw [ih hp, Bool.true_or]

/--
**The wakeup invariant along a run.** It holds after every operation exactly when every
`unsubscribe` of the run leaves a frame queued, or finds none, or comes after the close.
-/
theorem wakeupOk_run_iff (ops : List (SessionOp P)) :
    (∀ pre, pre <+: ops → WakeupOk (sessionAfter upper pre)) ↔
      ∀ pre op, pre ++ [op] <+: ops → LeavesAFrame upper (sessionAfter upper pre) op := by
  constructor
  · intro h pre op hpre
    cases op with
    | unsubscribe symbols =>
      have hafter := h _ hpre
      rw [sessionAfter_concat] at hafter
      by_cases he : (sessionAfter upper pre).pending.isEmpty = true
      · exact Or.inr (Or.inl he)
      · rw [Bool.not_eq_true] at he
        have hw := wakeup_of_pending pre he
        rcases hafter (by rw [SessionOp.apply, wakeup_unsubscribe]; exact hw) with hp | hc
        · refine Or.inr (Or.inr ?_)
          by_contra hno
          push Not at hno
          rw [SessionOp.apply, isEmpty_unsubscribe_iff.mpr hno] at hp
          cases hp
        · rw [SessionOp.apply, closed_unsubscribe] at hc
          exact Or.inl hc
    | offer | drain | subscribe | close => exact trivial
  · intro h pre
    induction pre using List.reverseRecOn with
    | nil => intro _ hw; cases hw
    | append_singleton pre op ih =>
      intro hpre
      rw [sessionAfter_concat]
      exact wakeupOk_apply upper op (ih ((List.prefix_append ..).trans hpre)) (h pre op hpre)

end FxTracker.Api
