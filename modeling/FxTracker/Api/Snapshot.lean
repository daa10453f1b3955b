import FxTracker.Api.Dispatch
import FxTracker.Api.Writer
import FxTracker.Lib.Log
import FxTracker.Lib.Ranked

/-!
# The snapshot and what follows it

`_write` and `_seal_bar` of `fx_ingestor/pipeline.py`, `_dispatch` and `snapshot` of
`fx_api/ws/manager.py`, and the `subscribe` branch and the writer of `fx_api/routers/stream.py`.

The ingestor writes the keys of a symbol and publishes on its channels in one MULTI. The replica
takes messages off the channels, each of which is first in, first out. One client subscribes: the
reader takes the send lock, adds the symbols, reads their keys one by one and sends what it read;
the writer drains the session under the same lock.

A **trace** records what was done, in order. No function of the source reads it.

The payloads are texts the server passes on unread. Left out are the Redis streams and the bucket of
the running minute, which the MULTI also writes, the unsealed bar of the snapshot, which a second
round trip reads from that bucket, the expiry of the keys, feed health, and every way the connection
ends.
-/

namespace FxTracker.Api

/-- What the ingestor writes; a member of a sorted set is ordered by its score, then as a text. -/
structure Payloads where
  quote : Type
  bar : Type
  reading : Type
  regime : Type
  point : Type
  transition : Type

variable {T : Payloads}

/-! ## The ingestor's side -/

/-- What `_seal_bar` queues for a sealed bar: the volatility reading, the detector's state, a point
where the bar was evaluated, and a transition with its number where the regime changed. -/
structure SealedMinute (T : Payloads) where
  bar : T.bar
  reading : T.reading
  regime : T.regime
  point : Option T.point
  transition : Option (Int × T.transition)

/-- One tick's MULTI, with the bar it sealed if it crossed a boundary. -/
structure Multi (T : Payloads) where
  symbol : String
  quote : T.quote
  sealed : Option (SealedMinute T)

/-- The keys of one symbol that the snapshot reads. -/
structure Keys (T : Payloads) where
  quote : Option T.quote
  history : List T.bar
  vol : Option T.reading
  regime : Option T.regime
  zhist : List T.point

def Keys.absent : Keys T := ⟨none, [], none, none, []⟩

/-- A frame as `_dispatch` makes it of a message. -/
inductive Frame (T : Payloads)
  | tick (symbol : String) (quote : T.quote)
  | vol (symbol : String) (reading : T.reading) (bar : T.bar)
  | alert (symbol : String) (seq : Int) (transition : T.transition)

def Frame.symbol : Frame T → String
  | .tick symbol _ | .vol symbol _ _ | .alert symbol _ _ => symbol

/-- `ch:tick:`, `ch:vol:` and `ch:alerts:` of a symbol, and the channel of feed health. -/
inductive Channel
  | tick (symbol : String)
  | vol (symbol : String)
  | alert (symbol : String)
  | status
  deriving DecidableEq, Repr

def Published.channel {P : Type} : Published P → Channel
  | .tick symbol _ => .tick symbol
  | .vol symbol _ => .vol symbol
  | .alert symbol _ _ => .alert symbol
  | .status _ => .status

/-- The history keeps the most recent 1 440 bars: `zremrangebyrank(key, 0, -1441)`. -/
def historyCap : Nat := 1440

/-- `keys.ZHIST_MAXLEN`. -/
def zhistMaxlen : Nat := 1440

/-- The most bars `SubscribeOp` accepts. -/
def maxBars : Nat := 1440

namespace Multi

/-- What a MULTI publishes, in its order. -/
def publishes (m : Multi T) : List (Published (Frame T)) :=
  .tick m.symbol (.tick m.symbol m.quote) ::
    match m.sealed with
    | none => []
    | some e =>
      .vol m.symbol (.vol m.symbol e.reading e.bar) ::
        (e.transition.map fun a => .alert m.symbol a.1 (.alert m.symbol a.1 a.2)).toList

variable [LinearOrder T.bar] [LinearOrder T.point]

/-- What a MULTI writes to the keys of its symbol. -/
def write (m : Multi T) (k : Keys T) : Keys T :=
  match m.sealed with
  | none => { k with quote := some m.quote }
  | some e =>
    { quote := some m.quote
      history := hold historyCap k.history e.bar
      vol := some e.reading
      regime := some e.regime
      zhist := e.point.elim k.zhist (hold zhistMaxlen k.zhist) }

end Multi

/-! ## The snapshot -/

/-- One command of the pipeline of `snapshot`, which is no transaction. -/
inductive Command
  | quote (symbol : String)
  | history (symbol : String) (bars : Nat)
  | vol (symbol : String)
  | regime (symbol : String)
  | zhist (symbol : String) (bars : Nat)
  deriving DecidableEq, Repr

def Command.symbol : Command → String
  | .quote symbol | .history symbol _ | .vol symbol | .regime symbol | .zhist symbol _ => symbol

/-- The commands of one snapshot. -/
def commands (symbols : List String) (bars : Nat) : List Command :=
  symbols.flatMap fun symbol =>
    [.quote symbol, .history symbol bars, .vol symbol, .regime symbol, .zhist symbol bars]

/-- A reply, a sorted set's members oldest first. -/
inductive Value (T : Payloads)
  | quote (quote : Option T.quote)
  | history (bars : List T.bar)
  | vol (reading : Option T.reading)
  | regime (regime : Option T.regime)
  | zhist (points : List T.point)

/-- The members `zrevrange(key, 0, bars - 1)` reads, oldest first; `-1` is the last one. -/
def newestMembers {α : Type} (l : List α) (bars : Nat) : List α := if bars = 0 then l else l.rtake bars

def Command.answer (store : String → Keys T) : Command → Value T
  | .quote symbol => .quote (store symbol).quote
  | .history symbol bars => .history (newestMembers (store symbol).history bars)
  | .vol symbol => .vol (store symbol).vol
  | .regime symbol => .regime (store symbol).regime
  | .zhist symbol bars => .zhist (newestMembers (store symbol).zhist bars)

/-! ## The three tasks and the trace -/

/-- What was done. -/
inductive Event (T : Payloads)
  | executed (multi : Multi T)
  /-- The fan-out took the message off its channel; `offered` where it offered it to the session. -/
  | dispatched (message : Published (Frame T)) (offered : Bool)
  | added (symbols : List String) (bars : Nat)
  | read (command : Command) (value : Value T)
  /-- A snapshot went to the socket. -/
  | snapshot (symbols : List String) (values : List (Command × Value T))
  /-- A frame went to the socket. -/
  | frame (frame : Frame T)

/-- The reader inside the lock: the commands it has not made yet and the replies it has. -/
structure Reader (T : Payloads) where
  symbols : List String
  bars : Nat
  todo : List Command
  values : List (Command × Value T)

structure StreamSystem (T : Payloads) where
  store : String → Keys T
  channels : Channel → List (Published (Frame T))
  session : ClientSession (Frame T)
  lock : SendLock
  reader : Option (Reader T)
  /-- The frames of the writer's batch not sent yet. -/
  batch : List (Frame T)
  trace : List (Event T)

namespace StreamSystem

def init : StreamSystem T where
  store _ := .absent
  channels _ := []
  session := .fresh
  lock := .free
  reader := none
  batch := []
  trace := []

inductive Action (T : Payloads)
  | multi (m : Multi T)
  | dispatch (channel : Channel) (now : Int)
  /-- The reader takes the lock and adds the symbols. -/
  | subscribe (symbols : List String) (bars : Nat)
  | read
  /-- The snapshot goes out and the lock is released. -/
  | sendSnapshot
  /-- The writer takes the lock and drains. -/
  | drain
  | send
  | release

variable [LinearOrder T.bar] [LinearOrder T.point]

/-- One step; a refused request ends the connection and is no step. -/
def step (strip upper : String → String) (s : StreamSystem T) : Action T → Option (StreamSystem T)
  | .multi m => some { s with
      store := Function.update s.store m.symbol (m.write (s.store m.symbol))
      channels := fun c => s.channels c ++ m.publishes.filter fun message => message.channel = c
      trace := s.trace ++ [.executed m] }
  | .dispatch channel now =>
    match s.channels channel with
    | [] => none
    | message :: rest => some { s with
        channels := Function.update s.channels channel rest
        session := s.session.dispatch upper now message
        trace := s.trace ++
          [.dispatched message (!s.session.closed && s.session.hears upper message)] }
  | .subscribe symbols bars =>
    if s.lock = .free ∧ bars ≤ maxBars then
      (s.session.onSubscribe strip upper symbols).map fun session =>
        let symbols := normalise strip upper symbols
        { s with
          session
          lock := .reader
          reader := some { symbols, bars, todo := commands symbols bars, values := [] }
          trace := s.trace ++ [.added symbols bars] }
    else none
  | .read =>
    match s.reader with
    | some { symbols, bars, todo := command :: todo, values } =>
      let value := command.answer s.store
      some { s with
        reader := some { symbols, bars, todo, values := values ++ [(command, value)] }
        trace := s.trace ++ [.read command value] }
    | _ => none
  | .sendSnapshot =>
    match s.reader with
    | some { symbols, bars := _, todo := [], values } => some { s with
        lock := .free
        reader := none
        trace := s.trace ++ [.snapshot symbols values] }
    | _ => none
  | .drain =>
    if s.lock = .free then some { s with
      session := s.session.drain.2
      lock := .writer
      batch := s.session.drain.1 }
    else none
  | .send =>
    match s.batch with
    | frame :: batch => some { s with batch, trace := s.trace ++ [.frame frame] }
    | [] => none
  | .release => if s.lock = .writer ∧ s.batch = [] then some { s with lock := .free } else none

end StreamSystem

/-- The store, the replica and one client of it, from an empty store and a fresh session. -/
def streamLts (strip upper : String → String) [LinearOrder T.bar] [LinearOrder T.point] :
    Lts (StreamSystem T) (StreamSystem.Action T) := .ofFn .init (StreamSystem.step strip upper)

end FxTracker.Api
