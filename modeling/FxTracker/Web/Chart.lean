import FxTracker.Lib.Dict
import FxTracker.Lib.Lts
import FxTracker.Lib.Newest
import FxTracker.Web.LiveCandle

/-!
# The chart and the bars it draws

`apps/web/src/components/charts/PriceChart.tsx`. A sync draws a bars array as updates of the newest
candles where it can, and in full where it sees that it must; `paintLive` draws the candle still
forming. Lightweight Charts replaces its newest point or appends a newer one, and throws on an older
one (`none`). Of the colours there is only the style of a candle still forming; the zoom and the
timers are left out.
-/

namespace FxTracker.Web.Chart

/-- A point of the candlestick series. -/
structure Point (K : Type) where
  time : Int
  opening : K
  high : K
  low : K
  close : K
  /-- It has the colours of the candle still forming. -/
  forming : Bool
  deriving DecidableEq, Repr

variable {K : Type}

def point (b : Candle K) (forming : Bool) : Point K := ⟨b.t, b.o, b.h, b.l, b.c, forming⟩

/-- A candle as a sync draws it. -/
def plain (b : Candle K) : Point K := point b false

@[simp] theorem point_time (b : Candle K) (forming : Bool) : (point b forming).time = b.t := rfl

@[simp] theorem point_forming (b : Candle K) (forming : Bool) : (point b forming).forming = forming := rfl

@[simp] theorem plain_time (b : Candle K) : (plain b).time = b.t := rfl

/-- `sameCandle` of two bars that are there: the same pixels. -/
def sameCandle [DecidableEq K] (a b : Candle K) : Bool :=
  a.t = b.t ∧ a.o = b.o ∧ a.h = b.h ∧ a.l = b.l ∧ a.c = b.c

theorem sameCandle_iff [DecidableEq K] {a b : Candle K} :
    sameCandle a b = true ↔ plain a = plain b := by
  simp [sameCandle, plain, point]

/-- `series.update`. -/
def update (series : List (Point K)) (p : Point K) : Option (List (Point K)) :=
  match series.getLast? with
  | none => some [p]
  | some newest =>
    if newest.time < p.time then some (series ++ [p])
    else if newest.time = p.time then some (series.dropLast ++ [p])
    else none

/-- `PAINTED_KEPT`. -/
def paintedKept : Nat := 4

/-- What the series currently shows. -/
structure View (K : Type) where
  key : String
  /-- `bars` as of the last sync. -/
  drawn : List (Candle K) := []
  /-- Newest time handed to the series. -/
  lastT : Option Int := none
  /-- The newest few candles as drawn. -/
  painted : Dict Int (Candle K) := .empty
  /-- The bucket currently drawn in the forming style. -/
  formingAt : Option Int := none

/-- A timeframe the dashboard offers, with its seconds. -/
abbrev Timeframe := { e : String × Int // e ∈ tfSeconds }

/-- What the live painter reads of the store, and the clock in milliseconds. -/
structure Live (K : Type) where
  forming : Option (Candle K)
  minutes : List (Candle K)
  daily : List (Candle K)
  now : Int

/-- A point that the live painter drew, with what it drew it from. -/
structure Stroke (K : Type) where
  symbol : String
  tf : Timeframe
  store : Live K
  point : Point K

/-- The view and the series. -/
structure Pane (K : Type) where
  view : View K
  series : List (Point K) := []
  /-- What the live painter drew since the last full redraw, the newest first. Nothing in the code reads it. -/
  live : List (Stroke K) := []

def View.remember (v : View K) (b : Candle K) : View K :=
  let painted := v.painted.set b.t b
  { v with
    painted :=
      if paintedKept < painted.size then painted.keys.head?.elim painted painted.erase else painted
    lastT := some b.t }

/-- `${symbol}|${tf}`. -/
def keyOf (symbol : String) (tf : Timeframe) : String := symbol ++ "|" ++ tf.1.1

/-- `candleAt`. -/
def candleAt [LT K] [DecidableLT K] (isMarketOpen : Int → Bool) (tf : Timeframe) (store : Live K)
    (start : Int) (before : Option Int) (ended : Bool) : Option (Candle K) :=
  if tf.1.1 = "1d" then dayCandle isMarketOpen store.daily store.minutes start before ended
  else bucketOf store.minutes start tf.1.2 before

namespace Pane

/-- A new chart is empty. -/
def fresh : Pane K := { view := { key := "" } }

/-- `draw`. -/
def draw (c : Pane K) (symbol : String) (tf : Timeframe) (store : Live K) (b : Candle K) (forming : Bool) :
    Option (Pane K) :=
  (update c.series (point b forming)).map fun series =>
    let v := c.view.remember b
    { series
      live := ⟨symbol, tf, store, point b forming⟩ :: c.live
      view := { v with
        formingAt :=
          if forming then some b.t else if v.formingAt = some b.t then none else v.formingAt } }

/-- One update of a sync. -/
def updateOne (c : Pane K) (b : Candle K) : Option (Pane K) :=
  (update c.series (plain b)).map fun series =>
    let v := c.view.remember b
    { c with
      series
      view := { v with formingAt := if v.formingAt = some b.t then none else v.formingAt } }

/-- A full redraw. -/
def redraw (c : Pane K) (bars : List (Candle K)) : Pane K where
  series := bars.map plain
  live := []
  view := (bars.rtake paintedKept).foldl View.remember
    { c.view with painted := .empty, lastT := none, formingAt := none }

/-- A new symbol or timeframe gets a new view. -/
def viewFor (c : Pane K) (key : String) : Pane K :=
  if c.view.key = key then c else { c with view := { key } }

end Pane

/-- The arrays themselves call for a full redraw. -/
def View.mustRedraw (v : View K) (bars : List (Candle K)) : Bool :=
  v.drawn.length = 0 ∨ bars.length < v.drawn.length ∨
    bars.head?.map Candle.t ≠ v.drawn.head?.map Candle.t

/-! ## The live painter -/

section

variable [LT K] [DecidableLT K] (isMarketOpen : Int → Bool) (symbol : String) (tf : Timeframe)
  (store : Live K)

/-- The candle that was forming is drawn once more when the minute is in a later bucket. -/
def Pane.settleLast (start : Int) (c : Pane K) : Option (Pane K) :=
  match c.view.lastT with
  | none => some c
  | some lastT =>
    if lastT < start ∧ c.view.formingAt = some lastT then
      match (candleAt isMarketOpen tf store lastT none true).or (c.view.painted.get? lastT) with
      | none => some c
      | some ended => c.draw symbol tf store ended false
    else some c

def Pane.paintLive (c : Pane K) : Option (Pane K) :=
  if c.view.key ≠ keyOf symbol tf then some c
  else
    match store.forming with
    | none => some c
    | some f =>
      let start := bucketStart f.t tf.1.2
      if c.view.lastT.any (start < ·) then some c
      else (c.settleLast isMarketOpen symbol tf store start).bind fun c =>
        c.draw symbol tf store (extend (candleAt isMarketOpen tf store start (some f.t) false) f start)
          (store.now < (start + tf.1.2) * 1000)

end

/-! ## The sync -/

section

variable [DecidableEq K]

/-- What an array goes on with after the candles it shares with the one drawn. -/
def afterCommon : List (Candle K) → List (Candle K) → List (Candle K)
  | b :: bars, d :: drawn => if sameCandle b d then afterCommon bars drawn else b :: bars
  | bars, _ => bars

/-- The loop over them: the bars to update, or `none` where the series must be redrawn in full. -/
def View.updatesOf (v : View K) : List (Candle K) → Option (List (Candle K))
  | [] => some []
  | b :: bars =>
    if v.lastT.any (b.t < ·) then
      if (v.painted.get? b.t).any (sameCandle b) then v.updatesOf bars else none
    else (v.updatesOf bars).map (b :: ·)

/-- The bars into the series. -/
def Pane.drawBars (c : Pane K) (bars : List (Candle K)) : Option (Pane K) :=
  if c.view.mustRedraw bars then some (c.redraw bars)
  else
    match c.view.updatesOf (afterCommon bars c.view.drawn) with
    | none => some (c.redraw bars)
    | some updates => updates.foldlM Pane.updateOne c

/-- The bars sync effect. -/
def Pane.sync [LT K] [DecidableLT K] (isMarketOpen : Int → Bool) (symbol : String) (tf : Timeframe)
    (bars : List (Candle K)) (store : Live K) (c : Pane K) : Option (Pane K) :=
  ((c.viewFor (keyOf symbol tf)).drawBars bars).bind fun c =>
    Pane.paintLive isMarketOpen symbol tf store { c with view := { c.view with drawn := bars } }

end

end FxTracker.Web.Chart
