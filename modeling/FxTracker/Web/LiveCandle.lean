import FxTracker.Web.Candles

/-!
# The candle still forming

`apps/web/src/lib/candles.ts`: `bucketOf`, `extend` and `dayCandle`. Whether the market is open is a
parameter: `isMarketOpen` of `lib/market.ts` asks `Intl` for the time in New York.

* `bucketOf_t`, `dayCandle_t` — a candle is of the bucket it was asked for
-/

namespace FxTracker.Web.Chart

variable {K : Type} {minutes daily : List (Candle K)} {start seconds : Int} {before : Option Int}
  {b : Candle K}

/-- `DAY_S`. -/
def dayS : Int := 86400

/-- The loop of `lowerBound`. It halves the stretch, so the length is rounds enough. -/
def search (minutes : List (Candle K)) (t : Int) : Nat → Nat → Nat → Nat
  | 0, lo, _ => lo
  | rounds + 1, lo, hi =>
    if lo < hi then
      let mid := (lo + hi) / 2
      if minutes[mid]?.any (·.t < t) then search minutes t rounds (mid + 1) hi
      else search minutes t rounds lo mid
    else lo

/-- `lowerBound`: index of the first minute at or after `t`. -/
def lowerBound (minutes : List (Candle K)) (t : Int) : Nat :=
  search minutes t minutes.length 0 minutes.length

/-- `Math.min(start + seconds, before)`; `none` is `Infinity`. -/
def endOf (start seconds : Int) (before : Option Int) : Int :=
  before.elim (start + seconds) (min (start + seconds))

/-- The first and last minute of `day` the market was open: `openSpan`. -/
def openSpan (isMarketOpen : Int → Bool) (day : Int) : Option (Int × Int) :=
  let hours := (List.range 24).filter fun h => isMarketOpen (day + h * 3600)
  match hours.head?, hours.getLast? with
  | some first, some last => some (day + first * 3600, day + last * 3600 + 3540)
  | _, _ => none

section

variable [LT K] [DecidableLT K]

/-- `bucketOf`: the candle from the minutes of a bucket before `before`. -/
def bucketOf (minutes : List (Candle K)) (start seconds : Int) (before : Option Int) :
    Option (Candle K) :=
  let first := lowerBound minutes start
  let last := lowerBound minutes (endOf start seconds before)
  if last ≤ first then none
  else (foldMinutes (minutes.extract first last) seconds).head?.map fun candle =>
    { candle with t := start }

/-- `extend`: a candle extended by the minute still forming. -/
def extend (base : Option (Candle K)) (forming : Candle K) (start : Int) : Candle K :=
  match base with
  | none => { forming with t := start, src := "stream" }
  | some base =>
    { t := start
      o := base.o
      h := if base.h < forming.h then forming.h else base.h
      l := if forming.l < base.l then forming.l else base.l
      c := forming.c
      n := base.n + forming.n
      src := if base.src = "stream" then "stream" else "mixed" }

/-- `dayCandle`: the provider's daily bar joined with the minutes observed. Where a minute of the day
was observed, `minutes` has a first and a last one. -/
def dayCandle (isMarketOpen : Int → Bool) (daily minutes : List (Candle K)) (day : Int)
    (before : Option Int) (ended : Bool) : Option (Candle K) :=
  let provider := daily[lowerBound daily day]?.filter (·.t = day)
  match provider, bucketOf minutes day dayS before with
  | some provider, some observed =>
    let span := openSpan isMarketOpen day
    let first := minutes[lowerBound minutes day]?
    let last := minutes[lowerBound minutes (endOf day dayS before) - 1]?
    some
      { t := day
        o := if first.any fun m => span.any fun s => m.t = s.1 then observed.o else provider.o
        h := if provider.h < observed.h then observed.h else provider.h
        l := if observed.l < provider.l then observed.l else provider.l
        c := if !ended || last.any (fun m => span.any fun s => m.t = s.2) then observed.c
          else provider.c
        n := observed.n
        src := if provider.src = observed.src then provider.src else "mixed" }
  | some provider, none => some provider
  | none, observed => observed

theorem bucketOf_t (h : bucketOf minutes start seconds before = some b) : b.t = start := by
  unfold bucketOf at h
  dsimp only at h
  split at h
  · cases h
  · obtain ⟨candle, -, rfl⟩ := Option.map_eq_some_iff.mp h
    rfl

@[simp] theorem extend_t (base : Option (Candle K)) (forming : Candle K) (start : Int) :
    (extend base forming start).t = start := by
  cases base <;> rfl

theorem dayCandle_t {isMarketOpen : Int → Bool} {day : Int} {ended : Bool}
    (h : dayCandle isMarketOpen daily minutes day before ended = some b) : b.t = day := by
  unfold dayCandle at h
  dsimp only at h
  split at h
  · cases h
    rfl
  · next provider hp _ =>
    cases h
    obtain ⟨-, ht⟩ := Option.filter_eq_some_iff.mp hp
    exact of_decide_eq_true ht
  · exact bucketOf_t h

end

end FxTracker.Web.Chart
