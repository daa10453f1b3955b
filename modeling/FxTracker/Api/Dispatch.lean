import FxTracker.Api.Conflator
import Mathlib.Data.Finset.Card

/-!
# What reaches a session

`fx_api/ws/manager.py`, `_dispatch`, `fx_api/ws/protocol.py` and the reader's half of
`fx_api/routers/stream.py`.

A session hears the feed status and what is published of the symbols it wants. The reader checks
each request before it touches the session, and closes the connection on one it refuses.

Beside the session a **ledger** records what became of each frame, under its routing key: that it
was offered to the open session, handed to the socket, or taken out by an `unsubscribe`. No
function of the source reads it.

* `ofKey_drain`, `ofKey_unsubscribe` — what an operation writes under one key
* `entries_unsubscribe` — what an `unsubscribe` leaves queued
-/

namespace FxTracker.Api

variable {P : Type}

/-! ## The fan-out -/

/-- A message of a channel the fan-out listens to, with the frame `_dispatch` makes of it. -/
inductive Published (P : Type)
  | tick (symbol : String) (frame : P)
  | vol (symbol : String) (frame : P)
  | alert (symbol : String) (seq : Int) (frame : P)
  | status (frame : P)
  deriving DecidableEq, Repr

namespace Published

def key : Published P → RoutingKey
  | .tick symbol _ => .tick symbol
  | .vol symbol _ => .vol symbol
  | .alert symbol seq _ => .alert symbol seq
  | .status _ => .status

def frame : Published P → P
  | .tick _ frame | .vol _ frame | .alert _ _ frame | .status frame => frame

/-- The last part of the channel; the status channel has none. -/
def symbol? : Published P → Option String
  | .tick symbol _ | .vol symbol _ | .alert symbol _ _ => some symbol
  | .status _ => none

end Published

namespace ClientSession

variable (upper : String → String)

def wants (s : ClientSession P) (symbol : String) : Bool := decide (upper symbol ∈ s.symbols)

/-- Feed health goes to every client, the rest to those that want the symbol. -/
def hears (s : ClientSession P) (message : Published P) : Bool :=
  match message.symbol? with
  | none => true
  | some symbol => s.wants upper symbol

/-- `_dispatch`, for one session. -/
def dispatch (s : ClientSession P) (now : Int) (message : Published P) : ClientSession P :=
  if s.hears upper message then s.offer now message.key message.frame else s

end ClientSession

/-! ## The reader -/

/-- `MAX_SYMBOLS_PER_CLIENT`. -/
def maxSymbolsPerClient : Nat := 25

section Requests

-- `str.strip` and `str.upper`.
variable (strip upper : String → String)

/-- `SubscribeOp._normalise`: upper-case and de-duplicate, preserving order. -/
def normalise (v : List String) : List String := (v.map fun s => upper (strip s)).eraseDups

/-- The bounds `SubscribeOp` and `UnsubscribeOp` put on the list of symbols. -/
def LengthOk (symbols : List String) : Prop :=
  1 ≤ symbols.length ∧ symbols.length ≤ maxSymbolsPerClient

instance (symbols : List String) : Decidable (LengthOk symbols) := by
  unfold LengthOk; infer_instance

namespace ClientSession

/-- The endpoint on a `subscribe`; `none` where it closes the connection instead. -/
def onSubscribe (s : ClientSession P) (symbols : List String) : Option (ClientSession P) :=
  if LengthOk symbols then
    if maxSymbolsPerClient < (s.symbols ∪ (normalise strip upper symbols).toFinset).card then none
    else some (s.subscribe upper (normalise strip upper symbols))
  else none

/-- The endpoint on an `unsubscribe`; nothing is normalised here. -/
def onUnsubscribe (s : ClientSession P) (symbols : List String) : Option (ClientSession P) :=
  if LengthOk symbols then some (s.unsubscribe upper symbols) else none

end ClientSession

end Requests

/-! ## The ledger -/

/-- What became of a frame. -/
inductive Deed (P : Type)
  | offered (frame : P)
  | drained (frame : P)
  | removed (frame : P)
  deriving DecidableEq, Repr

namespace Deed

def offered? : Deed P → Option P
  | .offered frame => some frame
  | _ => none

def drained? : Deed P → Option P
  | .drained frame => some frame
  | _ => none

def removed? : Deed P → Option P
  | .removed frame => some frame
  | _ => none

end Deed

/-- Deeds in the order they were done, each under its routing key. -/
abbrev Deeds (P : Type) := List (RoutingKey × Deed P)

/-- The deeds of one key. -/
def ofKey (key : RoutingKey) (deeds : Deeds P) : List (Deed P) :=
  (deeds.filter fun d => d.1 = key).map Prod.snd

@[simp] theorem ofKey_nil (key : RoutingKey) : ofKey key ([] : Deeds P) = [] := rfl

@[simp] theorem ofKey_append (key : RoutingKey) (l m : Deeds P) :
    ofKey key (l ++ m) = ofKey key l ++ ofKey key m := by simp [ofKey]

namespace ClientSession

variable (upper : String → String)

/-- A message is an offer made while open if the session hears it and is not closed. -/
def deedsOfDispatch (s : ClientSession P) (message : Published P) : Deeds P :=
  if s.closed = false ∧ s.hears upper message = true then
    [(message.key, .offered message.frame)]
  else []

/-- A drain hands over every frame queued. -/
def deedsOfDrain (s : ClientSession P) : Deeds P :=
  s.pending.entries.map fun e => (e.1, .drained e.2)

/-- The frames that were queued and no longer are. -/
def deedsOfUnsubscribe (s : ClientSession P) (symbols : List String) : Deeds P :=
  (s.pending.entries.filter fun e => ¬ (s.unsubscribe upper symbols).pending.contains e.1).map
    fun e => (e.1, .removed e.2)

end ClientSession

/-- A session and what became of every frame so far. -/
structure Ledger (P : Type) where
  session : ClientSession P
  deeds : Deeds P

/-- What is done to a session, whichever task does it. -/
inductive StreamOp (P : Type)
  | dispatch (now : Int) (message : Published P)
  | drain
  | subscribe (symbols : List String)
  | unsubscribe (symbols : List String)
  | close (wake : Bool)
  deriving Repr

namespace Ledger

def fresh : Ledger P := ⟨.fresh, []⟩

/-- One operation; a refused request closes the connection and is no step. -/
def step (strip upper : String → String) (a : Ledger P) : StreamOp P → Option (Ledger P)
  | .dispatch now message => some
      { session := a.session.dispatch upper now message
        deeds := a.deeds ++ a.session.deedsOfDispatch upper message }
  | .drain => some { session := a.session.drain.2, deeds := a.deeds ++ a.session.deedsOfDrain }
  | .subscribe symbols =>
    (a.session.onSubscribe strip upper symbols).map fun s => { a with session := s }
  | .unsubscribe symbols =>
    (a.session.onUnsubscribe upper symbols).map fun s =>
      { session := s, deeds := a.deeds ++ a.session.deedsOfUnsubscribe upper symbols }
  | .close wake => some { a with session := a.session.close wake }

end Ledger

/-! ## What the operations do -/

theorem mem_normalise {strip upper : String → String} {v : List String} {symbol : String} :
    symbol ∈ normalise strip upper v ↔ ∃ x ∈ v, upper (strip x) = symbol := by
  simp [normalise]

namespace ClientSession

variable {upper : String → String}

/-- A request that is not refused adds the symbols and leaves the rest of the session as it was. -/
theorem eq_subscribe_of_onSubscribe {strip : String → String} {s t : ClientSession P}
    {symbols : List String} (h : s.onSubscribe strip upper symbols = some t) :
    t = s.subscribe upper (normalise strip upper symbols) := by
  unfold onSubscribe at h
  split at h
  · split at h
    · cases h
    · exact (Option.some.inj h).symm
  · cases h

theorem card_le_of_onSubscribe {strip : String → String} {s t : ClientSession P}
    {symbols : List String} (h : s.onSubscribe strip upper symbols = some t) :
    (s.symbols ∪ (normalise strip upper symbols).toFinset).card ≤ maxSymbolsPerClient := by
  unfold onSubscribe at h
  split at h
  · split at h
    · cases h
    · next hle => exact Nat.le_of_not_lt hle
  · cases h

theorem eq_unsubscribe_of_onUnsubscribe {s t : ClientSession P} {symbols : List String}
    (h : s.onUnsubscribe upper symbols = some t) : t = s.unsubscribe upper symbols := by
  unfold onUnsubscribe at h
  split at h
  · exact (Option.some.inj h).symm
  · cases h

theorem hears_iff {s : ClientSession P} {message : Published P} {symbol : String}
    (h : message.symbol? = some symbol) :
    s.hears upper message = true ↔ upper symbol ∈ s.symbols := by
  simp [hears, wants, h]

/-- A message is queued under its key where it is an offer, and changes nothing elsewhere. -/
theorem pending_dispatch (s : ClientSession P) (now : Int) (message : Published P) :
    (s.dispatch upper now message).pending
      = if s.closed = false ∧ s.hears upper message = true
        then s.pending.set message.key message.frame else s.pending := by
  unfold dispatch offer
  cases s.closed <;> cases s.hears upper message <;> rfl

@[simp] theorem symbols_dispatch (s : ClientSession P) (now : Int) (message : Published P) :
    (s.dispatch upper now message).symbols = s.symbols := by
  unfold dispatch offer
  split
  · split <;> rfl
  · rfl

@[simp] theorem closed_dispatch (s : ClientSession P) (now : Int) (message : Published P) :
    (s.dispatch upper now message).closed = s.closed := by
  unfold dispatch
  split
  · exact closed_offer ..
  · rfl

@[simp] theorem pending_drain (s : ClientSession P) : s.drain.2.pending = .empty := by
  unfold drain
  split
  · next h => exact Dict.ext (Dict.isEmpty_iff.mp h)
  · rfl

@[simp] theorem symbols_drain (s : ClientSession P) : s.drain.2.symbols = s.symbols := by
  unfold drain; split <;> rfl

theorem drain_frames (s : ClientSession P) : s.drain.1 = s.pending.values := by
  unfold drain
  split
  · next h => exact (Dict.values_eq_nil_iff.mpr h).symm
  · rfl

/-- What `unsubscribe` leaves queued, in order. -/
theorem entries_unsubscribe (s : ClientSession P) (symbols : List String) :
    (s.unsubscribe upper symbols).pending.entries
      = s.pending.entries.filter fun e => ¬ DroppedBy upper symbols e.1 := by
  induction symbols generalizing s with
  | nil => simp [unsubscribe, DroppedBy]
  | cons x xs ih =>
    show ((unsubscribeOne upper s x).unsubscribe upper xs).pending.entries = _
    rw [ih]
    simp only [unsubscribeOne, Dict.erase, List.filter_filter]
    refine List.filter_congr fun e _ => ?_
    have hiff : DroppedBy upper (x :: xs) e.1 ↔
        (e.1 = .tick (upper x) ∨ e.1 = .vol (upper x)) ∨ DroppedBy upper xs e.1 := by
      simp [DroppedBy]
    rw [Bool.eq_iff_iff]
    simp only [Bool.and_eq_true, decide_eq_true_eq, hiff]
    tauto

theorem symbols_unsubscribe (s : ClientSession P) (symbols : List String) :
    (s.unsubscribe upper symbols).symbols = s.symbols \ (symbols.map upper).toFinset := by
  induction symbols generalizing s with
  | nil => simp [unsubscribe]
  | cons x xs ih =>
    show ((unsubscribeOne upper s x).unsubscribe upper xs).symbols = _
    rw [ih]
    ext y
    simp [unsubscribeOne]
    tauto

@[simp] theorem counters_unsubscribe (s : ClientSession P) (symbols : List String) :
    (s.unsubscribe upper symbols).sent = s.sent ∧
      (s.unsubscribe upper symbols).conflated = s.conflated := by
  induction symbols generalizing s with
  | nil => exact ⟨rfl, rfl⟩
  | cons x xs ih => exact ih (unsubscribeOne upper s x)

/-- What is queued and dropped is what the ledger calls removed. -/
theorem deedsOfUnsubscribe_eq (s : ClientSession P) (symbols : List String) :
    s.deedsOfUnsubscribe upper symbols
      = (s.pending.entries.filter fun e => DroppedBy upper symbols e.1).map
          fun e => (e.1, .removed e.2) := by
  unfold deedsOfUnsubscribe
  congr 1
  refine List.filter_congr fun e he => ?_
  have hget := Dict.mem_entries_iff.mp he
  rw [Dict.contains, get?_unsubscribe, hget]
  by_cases h : DroppedBy upper symbols e.1 <;> simp [h]

/-! ### Under one key -/

theorem ofKey_map_entries (d : Dict RoutingKey P) (key : RoutingKey) (f : P → Deed P) :
    ofKey key (d.entries.map fun e => (e.1, f e.2)) = (d.get? key).toList.map f := by
  obtain ⟨l, hnd⟩ := d
  show ((l.map _).filter _).map _ = ((l.find? _).map _).toList.map f
  induction l with
  | nil => rfl
  | cons e rest ih =>
    rw [List.map_cons, List.nodup_cons] at hnd
    have ih := ih hnd.2
    by_cases hk : e.1 = key
    · have hrest : rest.filter (fun e => decide (e.1 = key)) = [] :=
        List.filter_eq_nil_iff.mpr fun e' he' h =>
          hnd.1 (List.mem_map.mpr ⟨e', he', (of_decide_eq_true h).trans hk.symm⟩)
      simp [hk, List.filter_map, Function.comp_def, hrest]
    · rw [List.map_cons, List.filter_cons_of_neg (by simpa using hk), ih,
        List.find?_cons_of_neg (by simpa using hk)]

theorem ofKey_drain (s : ClientSession P) (key : RoutingKey) :
    ofKey key s.deedsOfDrain = (s.pending.get? key).toList.map .drained :=
  ofKey_map_entries s.pending key .drained

theorem ofKey_unsubscribe (s : ClientSession P) (symbols : List String) (key : RoutingKey) :
    ofKey key (s.deedsOfUnsubscribe upper symbols)
      = if DroppedBy upper symbols key then (s.pending.get? key).toList.map .removed else [] := by
  rw [deedsOfUnsubscribe_eq]
  split
  · next h =>
    rw [← ofKey_map_entries s.pending key .removed]
    simp only [ofKey, List.filter_map, List.filter_filter, Function.comp_def]
    congr 2
    refine List.filter_congr fun e _ => ?_
    by_cases hk : e.1 = key <;> simp [hk, h]
  · next h =>
    rw [ofKey, List.map_eq_nil_iff, List.filter_eq_nil_iff]
    intro d hd hk
    obtain ⟨e, he, rfl⟩ := List.mem_map.mp hd
    have hdrop := of_decide_eq_true (List.mem_filter.mp he).2
    exact h (of_decide_eq_true hk ▸ hdrop)

theorem ofKey_dispatch (s : ClientSession P) (message : Published P) (key : RoutingKey) :
    ofKey key (s.deedsOfDispatch upper message)
      = if s.closed = false ∧ s.hears upper message = true ∧ message.key = key
        then [.offered message.frame] else [] := by
  unfold deedsOfDispatch
  by_cases h : s.closed = false ∧ s.hears upper message = true
  · by_cases hk : message.key = key <;> simp [ofKey, h, hk]
  · rw [if_neg h, if_neg (fun hc => h ⟨hc.1, hc.2.1⟩)]
    rfl

end ClientSession

end FxTracker.Api
