import FxTracker.Web.MinuteNotices
import FxTracker.Web.Regimes
import FxTracker.Web.ZSeries

/-!
# The market store

`MarketStore` of `apps/web/src/lib/stream/store.ts`. Components subscribe to topics, and read at once what
a topic shows; a price waits in a buffer until the browser's next frame. `none` stands for an exception,
or for a frame that was not asked for. The callbacks of painters, of toasts and of the refresh button, and
the timings of a flush, are left out.

* `MarketStore.view` — what a component reads of a topic
* `MarketStore.call` — what a call leaves, and whom it wakes
-/

namespace FxTracker.Web

open Alerts (Regime)

variable {K : Type}

/-! ## What is held -/

/-- `qKey`, `vKey`, … each with its symbol. -/
inductive Topic
  | quote (s : String)
  | vol (s : String)
  | alerts (s : String)
  | bars (s : String)
  | z (s : String)
  | minutes (s : String)
  | daily (s : String)
  | feed
  | conn
  deriving DecidableEq, Repr

structure Quote (K : Type) where
  symbol : String
  bid : K
  ask : K
  mid : K
  ts : String
  deriving DecidableEq, Repr

structure Vol (K : Type) where
  symbol : String
  sigma : K
  sigmaAnn : K
  z : Option K
  /-- `none` is "unknown". -/
  regime : Option Regime
  warm : Bool
  ts : String
  enterZ : Option K
  exitZ : Option K
  deriving DecidableEq, Repr

inductive FeedState
  | connecting | healthy | degraded | fatal | stopped | unknown
  deriving DecidableEq, Repr

structure FeedStatus where
  state : FeedState
  detail : Option String := none
  ts : Option String := none
  since : Option String := none
  provider : Option String := none
  deriving DecidableEq, Repr

inductive ConnState
  | connecting | open | reconnecting | closed
  deriving DecidableEq, Repr

structure Conn where
  state : ConnState
  attempt : Nat
  deriving DecidableEq, Repr

structure MarketStore (K : Type) where
  quotes : Dict String (Quote K) := .empty
  vol : Dict String (Vol K) := .empty
  /-- `#regime` and `#alerts`. -/
  regimes : RegimeStore := {}
  bars : Dict String (List (Candle K)) := .empty
  z : Dict String (List (ZPoint K)) := .empty
  books : Dict String (MinuteBook K) := .empty
  gen : Dict String Nat := .empty
  loaded : Dict String Nat := .empty
  daily : Dict String (List (Candle K) × Int) := .empty
  feed : FeedStatus := ⟨.unknown, none, none, none, none⟩
  conn : Conn := ⟨.connecting, 0⟩
  /-- The prices of the next frame, and whether one is asked for. -/
  buf : Dict String (Quote K) := .empty
  frame : Bool := false
  dirty : List Topic := []
  frames : Nat := 0
  conflated : Nat := 0
  applied : Nat := 0

/-- What a component reads of a topic. -/
inductive Reading (K : Type)
  | quote (q : Option (Quote K))
  | vol (v : Option (Vol K)) (regime : Option Regime)
  | alerts (l : List Transition)
  | bars (l : List (Candle K))
  | z (l : List (ZPoint K))
  | minutes (l : List (Candle K)) (gen : Nat) (needsHistory : Bool)
  | daily (l : List (Candle K)) (fetched : Int)
  | feed (f : FeedStatus)
  | conn (c : Conn)

namespace MarketStore

/-! ## Reads -/

/-- `#book`, where a missing one is a new one. -/
def book (store : MarketStore K) (s : String) : MinuteBook K := (store.books.get? s).getD {}

def minuteGen (store : MarketStore K) (s : String) : Nat := (store.gen.get? s).getD 0

/-- `needsHistory`: true until the history request has filled this pair's minutes. -/
def needsHistory (store : MarketStore K) (s : String) : Bool :=
  store.loaded.get? s ≠ some (store.minuteGen s)

def view (store : MarketStore K) : Topic → Reading K
  | .quote s => .quote (store.quotes.get? s)
  | .vol s => .vol (store.vol.get? s) (store.regimes.regime s)
  | .alerts s => .alerts ((store.regimes.alerts.get? s).getD [])
  | .bars s => .bars ((store.bars.get? s).getD [])
  | .z s => .z ((store.z.get? s).getD [])
  | .minutes s => .minutes (store.book s).sorted.1 (store.minuteGen s) (store.needsHistory s)
  | .daily s => .daily (((store.daily.get? s).map Prod.fst).getD []) (((store.daily.get? s).map Prod.snd).getD 0)
  | .feed => .feed store.feed
  | .conn => .conn store.conn

/-! ## Writes -/

/-- `#dirty.add`. -/
def touch (store : MarketStore K) (topic : Topic) : MarketStore K :=
  if topic ∈ store.dirty then store else { store with dirty := store.dirty ++ [topic] }

/-- `#emit`: the topics whose subscribers are called. -/
def emit (store : MarketStore K) : MarketStore K × List Topic := ({ store with dirty := [] }, store.dirty)

/-- `offer`. A price that waits already is superseded. -/
def offer (store : MarketStore K) (q : Quote K) : MarketStore K :=
  { store with
    conflated := if store.buf.contains q.symbol then store.conflated + 1 else store.conflated
    buf := store.buf.set q.symbol q
    frame := true }

/-- One price of `#flush`. -/
def paint (store : MarketStore K) (q : Quote K) : MarketStore K :=
  { store with quotes := store.quotes.set q.symbol q }.touch (.quote q.symbol)

/-- `#flush`, which the browser runs where a frame was asked for. -/
def flush (store : MarketStore K) : Option (MarketStore K × List Topic) :=
  if store.frame then
    let store := { store with frame := false }
    if store.buf.isEmpty then some (store, [])
    else
      let painted := store.buf.values.foldl paint store
      let told := { painted with applied := painted.applied + painted.buf.size, buf := .empty }.emit
      some ({ told.1 with frames := told.1.frames + 1 }, told.2)
  else none

def withBook (store : MarketStore K) (s : String) (book : MinuteBook K) : MarketStore K :=
  { store with books := store.books.set s book }

def touchMinutes (store : MarketStore K) (s : String) : MarketStore K × List Topic :=
  (store.touch (.minutes s)).emit

/-- A pair's book after a call, and its readers called where the minutes shown changed. -/
def tellMinutes (store : MarketStore K) (s : String) (r : MinuteBook K × Bool) : MarketStore K × List Topic :=
  if r.2 then (store.withBook s r.1).touchMinutes s else (store.withBook s r.1, [])

section Minutes

variable [DecidableEq K] [LT K] [DecidableLT K]

def applyForming (store : MarketStore K) (s : String) (bar : Candle K) :
    Option (MarketStore K × List Topic) :=
  ((store.book s).applyFormingTold bar).map (store.tellMinutes s)

/-- `applyQuote`, with `ts` parsed: the minute from the prices that reached us. -/
def applyQuote (store : MarketStore K) (s : String) (mid : K) (ts : Int) :
    Option (MarketStore K × List Topic) :=
  let t := ts.fdiv 60000 * 60
  let bar : Candle K :=
    match (store.books.get? s).bind MinuteBook.forming with
    | some cur =>
      if cur.t = t then
        { cur with
          h := if cur.h < mid then mid else cur.h
          l := if mid < cur.l then mid else cur.l
          c := mid }
      else ⟨t, mid, mid, mid, mid, 0, "stream"⟩
    | none => ⟨t, mid, mid, mid, mid, 0, "stream"⟩
  store.applyForming s bar

def sealMinute (store : MarketStore K) (s : String) (bar : Candle K) : Option (MarketStore K × List Topic) :=
  ((store.book s).sealMinuteTold bar).map (store.tellMinutes s)

/-- `mergeMinutes`. A snapshot that does not reach back to the newest minute held marks the pair. -/
def mergeMinutes (store : MarketStore K) (s : String) (bars : List (Candle K)) (source : MergeFrom) :
    Option (MarketStore K × List Topic) :=
  let newest := (store.book s).newest
  let hole := newest.1.any fun newest =>
    decide (source = .snapshot) && bars.head?.any fun bar => newest < bar.t
  let store :=
    if hole then { store with gen := store.gen.set s (store.minuteGen s + 1) }.touch (.minutes s) else store
  (newest.2.mergeBarsTold bars).map fun r =>
    let store := store.withBook s r.1.dropForming
    (if r.2 then store.touch (.minutes s) else store).emit

end Minutes

/-- `historyLoaded`. -/
def historyLoaded (store : MarketStore K) (s : String) (gen : Nat) : MarketStore K × List Topic :=
  if store.loaded.get? s = some gen then (store, [])
  else { store with loaded := store.loaded.set s gen }.touchMinutes s

def setDaily (store : MarketStore K) (s : String) (bars : List (Candle K)) (fetched : Int) :
    MarketStore K × List Topic :=
  ({ store with daily := store.daily.set s (bars, fetched) }.touch (.daily s)).emit

/-- `#setRegime`. -/
def setRegime (store : MarketStore K) (s : String) (r : Option Regime) : MarketStore K :=
  if store.regimes.regimes.get? s = some r then store
  else ({ store with regimes := store.regimes.setRegime s r }.touch (.vol s)).touch (.alerts s)

def setVol (store : MarketStore K) (v : Vol K) : MarketStore K × List Topic :=
  let store := { store with vol := store.vol.set v.symbol v }.touch (.vol v.symbol)
  (if v.regime ≠ none then store.setRegime v.symbol v.regime else store).emit

def setZHist (store : MarketStore K) (s : String) (points : List (ZPoint K)) : MarketStore K × List Topic :=
  ({ store with z := store.z.set s (Web.setZHist points) }.touch (.z s)).emit

def pushZ (store : MarketStore K) (s : String) (p : ZPoint K) : MarketStore K × List Topic :=
  ({ store with z := store.z.set s (Web.pushZ ((store.z.get? s).getD []) p) }.touch (.z s)).emit

/-- `#recordAlert`, and whether the transition was new. -/
def recordAlert (store : MarketStore K) (t : Transition) : (MarketStore K × List Topic) × Bool :=
  let prior := (store.regimes.alerts.get? t.s).getD []
  if prior.any (·.seq = t.seq) then ((store, []), false)
  else
    let alerts := store.regimes.alerts.set t.s ((t :: prior).take alertCap)
    let store := { store with regimes := { store.regimes with alerts := alerts } }
    (((store.setRegime t.s (some t.newRegime)).touch (.alerts t.s)).emit, true)

/-- One pair of `setBars`. -/
def putBars (store : MarketStore K) (e : String × List (Candle K)) : MarketStore K :=
  { store with bars := store.bars.set e.1 e.2 }.touch (.bars e.1)

def setBars (store : MarketStore K) (bars : Dict String (List (Candle K))) : MarketStore K × List Topic :=
  (bars.entries.foldl putBars store).emit

def setFeed (store : MarketStore K) (f : FeedStatus) : MarketStore K × List Topic :=
  ({ store with feed := f }.touch .feed).emit

/-- `clearMarket`: each topic that someone subscribes to is dirty. -/
def clearMarket (store : MarketStore K) (subscribed : List Topic) : MarketStore K × List Topic :=
  let cleared : MarketStore K := { store with
    quotes := .empty
    vol := .empty
    regimes := {}
    bars := .empty
    z := .empty
    buf := .empty
    books := store.books.keys.foldl (fun books s => books.set s {}) store.books
    gen := store.books.keys.foldl (fun gen s => gen.set s ((gen.get? s).getD 0 + 1)) store.gen
    daily := .empty }
  (subscribed.foldl touch cleared).emit

def setConn (store : MarketStore K) (state : ConnState) (attempt : Nat) : MarketStore K × List Topic :=
  ({ store with conn := ⟨state, attempt⟩ }.touch .conn).emit

/-- `seedRegime`: a snapshot writes only where nothing is held. -/
def seedRegime (store : MarketStore K) (s : String) (r : Option Regime) : MarketStore K × List Topic :=
  if store.regimes.regimes.contains s then (store, []) else (store.setRegime s r).emit

/-- `minutes`, which sorts the book it reads. -/
def readMinutes (store : MarketStore K) (s : String) : MarketStore K :=
  if store.books.contains s then { store with books := store.books.set s (store.book s).sorted.2 } else store

end MarketStore

/-- The calls of the store. `frame` is the browser's. -/
inductive StoreCall (K : Type)
  | offer (q : Quote K)
  | frame
  | applyForming (s : String) (bar : Candle K)
  | applyQuote (s : String) (mid : K) (ts : Int)
  | sealMinute (s : String) (bar : Candle K)
  | mergeMinutes (s : String) (bars : List (Candle K)) (source : MergeFrom)
  | historyLoaded (s : String) (gen : Nat)
  | setDaily (s : String) (bars : List (Candle K)) (fetched : Int)
  | setVol (v : Vol K)
  | setZHist (s : String) (points : List (ZPoint K))
  | pushZ (s : String) (p : ZPoint K)
  | pushAlert (t : Transition)
  | seedAlert (t : Transition)
  | setBars (bars : Dict String (List (Candle K)))
  | setFeed (f : FeedStatus)
  | clearMarket
  | setConn (state : ConnState) (attempt : Nat)
  | seedRegime (s : String) (r : Option Regime)
  | readMinutes (s : String)

/-- What a call leaves, and the topics it wakes. -/
def MarketStore.call [DecidableEq K] [LT K] [DecidableLT K] (store : MarketStore K)
    (subscribed : List Topic) : StoreCall K → Option (MarketStore K × List Topic)
  | .offer q => some (store.offer q, [])
  | .frame => store.flush
  | .applyForming s bar => store.applyForming s bar
  | .applyQuote s mid ts => store.applyQuote s mid ts
  | .sealMinute s bar => store.sealMinute s bar
  | .mergeMinutes s bars source => store.mergeMinutes s bars source
  | .historyLoaded s gen => some (store.historyLoaded s gen)
  | .setDaily s bars fetched => some (store.setDaily s bars fetched)
  | .setVol v => some (store.setVol v)
  | .setZHist s points => some (store.setZHist s points)
  | .pushZ s p => some (store.pushZ s p)
  | .pushAlert t => some (store.recordAlert t).1
  | .seedAlert t => some (store.recordAlert t).1
  | .setBars bars => some (store.setBars bars)
  | .setFeed f => some (store.setFeed f)
  | .clearMarket => some (store.clearMarket subscribed)
  | .setConn state attempt => some (store.setConn state attempt)
  | .seedRegime s r => some (store.seedRegime s r)
  | .readMinutes s => some (store.readMinutes s, [])

/-- The topics a call can wake. -/
def StoreCall.concerns (store : MarketStore K) (subscribed : List Topic) : StoreCall K → List Topic
  | .offer _ | .readMinutes _ => []
  | .frame => store.buf.values.map fun q => .quote q.symbol
  | .applyForming s _ | .applyQuote s _ _ | .sealMinute s _ | .mergeMinutes s _ _ | .historyLoaded s _ =>
    [.minutes s]
  | .setDaily s _ _ => [.daily s]
  | .setVol v => [.vol v.symbol, .alerts v.symbol]
  | .setZHist s _ | .pushZ s _ => [.z s]
  | .pushAlert t | .seedAlert t => [.vol t.s, .alerts t.s]
  | .setBars bars => bars.entries.map fun e => .bars e.1
  | .setFeed _ => [.feed]
  | .clearMarket => subscribed
  | .setConn _ _ => [.conn]
  | .seedRegime s _ => [.vol s, .alerts s]

end FxTracker.Web
