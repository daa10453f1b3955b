import FxTracker.Lib.Dict
import FxTracker.Web.Candles

/-!
# One pair's one-minute bars, as every source reported them

`apps/web/src/lib/stream/minutes.ts`. Each minute keeps one report per source, and shows their `join`.
`none` stands for an exception.
-/

namespace FxTracker.Web

/-- `PROVISIONAL`. -/
def provisionalKind : String := "~provisional"

/-- `MINUTE_CAP`. -/
def minuteCap : Nat := 2880

/-- `TRIM_SLACK`. -/
def trimSlack : Nat := 60

/-- A report from our own stream, sealed: it supersedes a provisional minute. -/
def isSealed (kind : String) : Bool := kind ≠ "backfill" ∧ kind ≠ provisionalKind

variable {K : Type}

/-- `sameBar`: everything but the time. -/
def sameBar [DecidableEq K] (a b : Candle K) : Bool :=
  a.o = b.o ∧ a.h = b.h ∧ a.l = b.l ∧ a.c = b.c ∧ a.n = b.n ∧ a.src = b.src

/-- The reports of a minute, each with its kind (the arrays `kinds` and `parts`), and the minute as
shown. -/
structure Slot (K : Type) where
  held : List (String × Candle K)
  merged : Candle K

structure MinuteBook (K : Type) where
  slots : Dict Int (Slot K) := .empty
  /-- `#sorted`: what `sorted` returned last. -/
  cache : List (Candle K) := []
  stale : Bool := false
  forming : Option (Candle K) := none

namespace MinuteBook

/-- The minutes as shown, oldest first. -/
def minutes (book : MinuteBook K) : List (Candle K) :=
  (book.slots.values.map Slot.merged).insertionSort fun a b => a.t ≤ b.t

/-- `#changed`: the oldest minutes beyond the cap go, in batches. -/
def changed (book : MinuteBook K) : MinuteBook K :=
  if book.slots.size ≤ minuteCap + trimSlack then { book with stale := true }
  else
    let oldest := book.slots.keys.insertionSort (· ≤ ·)
    { book with
      stale := true
      slots := (oldest.take (oldest.length - minuteCap)).foldl Dict.erase book.slots }

/-- `sorted`: every minute held, oldest first. -/
def sorted (book : MinuteBook K) : List (Candle K) × MinuteBook K :=
  if book.stale then (book.minutes, { book with cache := book.minutes, stale := false })
  else (book.cache, book)

variable [DecidableEq K] [LT K] [DecidableLT K]

/-- A report in a slot that does not hold it yet: it replaces the earlier one of its kind, and a sealed
one drops the provisional one. -/
def record (slot : Slot K) (bar : Candle K) (kind : String) : List (String × Candle K) :=
  let held := Dict.setEntries slot.held kind bar
  if isSealed kind then held.eraseP (·.1 = provisionalKind) else held

/-- `put`: record one report of a minute, and whether the minute as shown changed. -/
def put (book : MinuteBook K) (bar : Candle K) (kind : String) : Option (MinuteBook K × Bool) :=
  match book.slots.get? bar.t with
  | none =>
    some ({ book with slots := book.slots.set bar.t ⟨[(kind, bar)], bar⟩ }.changed, true)
  | some slot =>
    if kind = provisionalKind ∧ slot.held.any (fun e => isSealed e.1) then some (book, false)
    else if (slot.held.find? (·.1 = kind)).any fun e => sameBar e.2 bar then some (book, false)
    else
      let held := record slot bar kind
      (join (held.map Prod.snd)).map fun merged =>
        if sameBar merged slot.merged then
          ({ book with slots := book.slots.set bar.t ⟨held, slot.merged⟩ }, false)
        else ({ book with slots := book.slots.set bar.t ⟨held, merged⟩ }.changed, true)

/-- A report under its own source, as `put` takes it by default. -/
def putBar (book : MinuteBook K) (bar : Candle K) : Option (MinuteBook K) :=
  (book.put bar bar.src).map Prod.fst

end MinuteBook

end FxTracker.Web
