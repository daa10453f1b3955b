import FxTracker.Web.Cells
import Mathlib.Logic.Function.Basic

/-!
# The stream client and its hook

`apps/web/src/lib/stream/client.ts` and `apps/web/src/hooks/useForexStream.ts`. The hook's effect makes a
client and connects it; it runs again whenever someone asks for a reconnect, after a cleanup that closes
the client it made before. A client reconnects by itself when its socket closes. What clients send, the
length of a wait and the visibility listener are left out.

* `ServerFrame.calls` — the calls of the store a frame makes
* `Stream.step` — what can happen to the sockets, the timers and the effect
* `Stream.takes_of_step` — how each event comes out
-/

namespace FxTracker.Web

open Alerts (Regime)

variable {K : Type}

/-! ## Frames -/

/-- `quote` of a snapshot. -/
structure SnapshotQuote (K : Type) where
  bid : Option K
  ask : Option K
  mid : Option K
  ts : Option String

structure SymbolSnapshot (K : Type) where
  quote : SnapshotQuote K
  bars : List (Candle K)
  forming : Option (Candle K)
  zhist : List (ZPoint K)
  regime : Option Regime

/-- A tick: `t` with its time in milliseconds. -/
structure TickFrame (K : Type) where
  s : String
  b : K
  a : K
  m : K
  t : String
  tMs : Int
  bar : Option (Candle K)

/-- A volatility frame: `vol.ts` with its time in milliseconds. -/
structure VolFrame (K : Type) where
  vol : Vol K
  tsMs : Int
  bar : Option (Candle K)

inductive ServerFrame (K : Type)
  | hello (feed : FeedStatus)
  | snapshot (data : Dict String (SymbolSnapshot K))
  | tick (frame : TickFrame K)
  | vol (frame : VolFrame K)
  | alert (t : Transition)
  | status (feed : FeedStatus)
  | pong
  | error

/-- `switchedProvider`. -/
def switchedProvider (store : MarketStore K) (next : Option String) : Bool :=
  store.feed.provider ≠ none ∧ next ≠ none ∧ store.feed.provider ≠ next

/-- A forming bar as it comes: it carries no source. -/
def ours (bar : Candle K) : Candle K := { bar with src := "stream" }

def TickFrame.calls (frame : TickFrame K) : List (StoreCall K) :=
  [match frame.bar with
    | some bar => .applyForming frame.s (ours bar)
    | none => .applyQuote frame.s frame.m frame.tMs,
   .offer ⟨frame.s, frame.b, frame.a, frame.m, frame.t⟩]

/-- A gated bar has no z, and leaves a hole. -/
def VolFrame.point (frame : VolFrame K) : Option (ZPoint K) :=
  match frame.vol.z, frame.vol.regime with
  | some z, some r => some ⟨frame.tsMs.fdiv 60000 * 60, z, r⟩
  | _, _ => none

def VolFrame.calls (frame : VolFrame K) : List (StoreCall K) :=
  frame.bar.toList.map (.sealMinute frame.vol.symbol) ++ .setVol frame.vol
    :: frame.point.toList.map (.pushZ frame.vol.symbol)

/-- One symbol of a snapshot that came at `now`. -/
def SymbolSnapshot.calls (now symbol : String) (snap : SymbolSnapshot K) : List (StoreCall K) :=
  .mergeMinutes symbol snap.bars .snapshot :: snap.forming.toList.map (fun bar => .applyForming symbol (ours bar))
    ++ [.setZHist symbol snap.zhist, .seedRegime symbol snap.regime]
    ++ snap.quote.mid.toList.map fun mid =>
      .offer ⟨symbol, snap.quote.bid.getD mid, snap.quote.ask.getD mid, mid, snap.quote.ts.getD now⟩

def barsOf (data : Dict String (SymbolSnapshot K)) : Dict String (List (Candle K)) where
  entries := data.entries.map fun e => (e.1, e.2.bars)
  nodup := by
    rw [List.map_map]
    exact data.nodup

/-- `onFrame`: the calls of the store, in order. -/
def ServerFrame.calls (store : MarketStore K) (now : String) : ServerFrame K → List (StoreCall K)
  | .hello feed => if switchedProvider store feed.provider then [.clearMarket, .setFeed feed] else [.setFeed feed]
  | .snapshot data => data.entries.flatMap (fun e => e.2.calls now e.1) ++ [.setBars (barsOf data)]
  | .tick frame => frame.calls
  | .vol frame => frame.calls
  | .alert t => [.pushAlert t]
  | .status feed => if switchedProvider store feed.provider then [.clearMarket, .setFeed feed] else [.setFeed feed]
  | .pong | .error => []

/-! ## Clients and sockets -/

/-- `readyState` of a socket that is not closed. -/
inductive ReadyState
  | connecting | open | closing
  deriving DecidableEq, Repr

structure Socket where
  owner : Nat
  state : ReadyState
  deriving DecidableEq, Repr

/-- `ForexStreamClient`. -/
structure Client where
  ws : Option Nat := none
  attempt : Nat := 0
  closedByUs : Bool := false
  /-- `reconnectTimer` is set and has not fired. -/
  reconnectTimer : Bool := false
  deriving DecidableEq, Repr

/-- A page with `useForexStream`: its clients and sockets in the order they were made. -/
structure Stream (K : Type) where
  store : MarketStore K := {}
  clients : Nat → Client := fun _ => {}
  count : Nat := 0
  sockets : Nat → Option Socket := fun _ => none
  made : Nat := 0
  /-- `live` of the newest client's effect; that of the others is false. -/
  live : Bool := false

namespace Stream

def isLive (s : Stream K) (i : Nat) : Bool := s.live && i + 1 = s.count

def setClient (s : Stream K) (i : Nat) (c : Client) : Stream K :=
  { s with clients := Function.update s.clients i c }

def setSocket (s : Stream K) (k : Nat) (sock : Option Socket) : Stream K :=
  { s with sockets := Function.update s.sockets k sock }

/-- The hook's `onStateChange`. -/
def onStateChange (s : Stream K) (i : Nat) (state : ConnState) (attempt : Nat) : Stream K :=
  if s.isLive i then { s with store := (s.store.setConn state attempt).1 } else s

def connect (s : Stream K) (i : Nat) : Stream K :=
  let c := { s.clients i with closedByUs := false }
  let s := (s.setClient i c).onStateChange i (if c.attempt = 0 then .connecting else .reconnecting) c.attempt
  { (s.setSocket s.made (some ⟨i, .connecting⟩)).setClient i { c with ws := some s.made } with
    made := s.made + 1 }

def close (s : Stream K) (i : Nat) : Stream K :=
  let c := s.clients i
  let s := s.setClient i { c with closedByUs := true, reconnectTimer := false }
  match c.ws with
  | some k => s.setSocket k ((s.sockets k).map fun sock => { sock with state := .closing })
  | none => s

def onopen (s : Stream K) (k i : Nat) : Stream K :=
  let s := s.setSocket k (some ⟨i, .open⟩)
  (s.setClient i { s.clients i with attempt := 0 }).onStateChange i .open 0

def onclose (s : Stream K) (k i : Nat) : Stream K :=
  let s := s.setSocket k none
  let c := s.clients i
  if c.closedByUs then (s.setClient i { c with ws := none }).onStateChange i .closed 0
  else (s.setClient i { c with ws := none, attempt := c.attempt + 1, reconnectTimer := true }).onStateChange i
    .reconnecting (c.attempt + 1)

/-- What the effect returned. -/
def cleanup (s : Stream K) : Stream K := { s with live := false }.close (s.count - 1)

/-- The effect makes a client and connects it. -/
def mount (s : Stream K) : Stream K :=
  ({ s.setClient s.count {} with count := s.count + 1, live := true }).connect s.count

inductive Event (K : Type)
  /-- The socket opens. -/
  | opened (k : Nat)
  /-- `onerror`. -/
  | failed (k : Nat)
  /-- The close event. -/
  | closed (k : Nat)
  | message (k : Nat) (frame : ServerFrame K) (now : String)
  /-- The wait of a client is over. -/
  | timeout (i : Nat)
  /-- The effect runs, after the cleanup of the one before. -/
  | effect
  | unmount
  /-- The browser runs a frame. -/
  | paint

variable [DecidableEq K] [LT K] [DecidableLT K]

/-- The calls of the store that a frame makes. -/
def receive (store : MarketStore K) (frame : ServerFrame K) (now : String) : MarketStore K :=
  (frame.calls store now).foldl (fun store c => store.advance ([], c)) store

def step (s : Stream K) : Event K → Option (Stream K)
  | .opened k =>
    match s.sockets k with
    | some ⟨i, .connecting⟩ => some (s.onopen k i)
    | _ => none
  | .failed k =>
    match s.sockets k with
    | some sock => some (s.setSocket k (some { sock with state := .closing }))
    | none => none
  | .closed k =>
    match s.sockets k with
    | some sock => some (s.onclose k sock.owner)
    | none => none
  | .message k frame now =>
    match s.sockets k with
    | some ⟨_, .connecting⟩ | none => none
    | some sock =>
      -- a socket that is closing can still deliver a frame
      if s.isLive sock.owner then some { s with store := receive s.store frame now } else some s
  | .timeout i =>
    if (s.clients i).reconnectTimer then
      some ((s.setClient i { s.clients i with reconnectTimer := false }).connect i)
    else none
  | .effect => some ((if s.live then s.cleanup else s).mount)
  | .unmount => if s.live then some s.cleanup else none
  | .paint => some { s with store := s.store.advance ([], .frame) }

/-- The steps, one rule for each way an event comes out. -/
inductive Takes (s : Stream K) : Event K → Stream K → Prop
  | opened {k i : Nat} (hsock : s.sockets k = some ⟨i, .connecting⟩) : Takes s (.opened k) (s.onopen k i)
  | failed {k : Nat} {sock : Socket} (hsock : s.sockets k = some sock) :
    Takes s (.failed k) (s.setSocket k (some { sock with state := .closing }))
  | closed {k : Nat} {sock : Socket} (hsock : s.sockets k = some sock) :
    Takes s (.closed k) (s.onclose k sock.owner)
  | heard {k : Nat} {frame : ServerFrame K} {now : String} {sock : Socket} (hsock : s.sockets k = some sock)
    (hlive : s.isLive sock.owner = true) :
    Takes s (.message k frame now) { s with store := receive s.store frame now }
  | unheard {k : Nat} {frame : ServerFrame K} {now : String} {sock : Socket} (hsock : s.sockets k = some sock)
    (hgone : s.isLive sock.owner = false) : Takes s (.message k frame now) s
  | timeout {i : Nat} (htimer : (s.clients i).reconnectTimer = true) :
    Takes s (.timeout i) ((s.setClient i { s.clients i with reconnectTimer := false }).connect i)
  | mount (hdead : s.live = false) : Takes s .effect s.mount
  | remount (hlive : s.live = true) : Takes s .effect s.cleanup.mount
  | unmount (hlive : s.live = true) : Takes s .unmount s.cleanup
  | paint : Takes s .paint { s with store := s.store.advance ([], .frame) }

theorem takes_of_step {s t : Stream K} {e : Event K} (h : s.step e = some t) : Takes s e t := by
  cases e with
  | opened k =>
    simp only [step] at h
    split at h
    · next i hsock =>
      cases h
      exact .opened hsock
    · cases h
  | failed k =>
    simp only [step] at h
    split at h
    · next sock hsock =>
      cases h
      exact .failed hsock
    · cases h
  | closed k =>
    simp only [step] at h
    split at h
    · next sock hsock =>
      cases h
      exact .closed hsock
    · cases h
  | message k frame now =>
    simp only [step] at h
    split at h
    · cases h
    · cases h
    · next sock _ hsock =>
      split at h
      · next hlive =>
        cases h
        exact .heard hsock hlive
      · next hgone =>
        cases h
        exact .unheard hsock (Bool.not_eq_true _ ▸ hgone)
  | timeout i =>
    simp only [step] at h
    split at h
    · next htimer =>
      cases h
      exact .timeout htimer
    · cases h
  | effect =>
    cases h
    cases hlive : s.live with
    | false => exact .mount hlive
    | true => exact .remount hlive
  | unmount =>
    simp only [step] at h
    split at h
    · next hlive =>
      cases h
      exact .unmount hlive
    · cases h
  | paint =>
    cases h
    exact .paint

end Stream

/-- From a page that is not mounted yet. -/
def streamLts (K : Type) [DecidableEq K] [LT K] [DecidableLT K] : Lts (Stream K) (Stream.Event K) :=
  .ofFn {} Stream.step

end FxTracker.Web
