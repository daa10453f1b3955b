import FxTracker.Core.Intervals

/-!
# Candles from minutes, in the browser

`apps/web/src/lib/candles.ts`: `join` and `foldMinutes`.

* `foldMinutes_eq_rollup` — the loop is the roll-up by bucket
* `join_pair` — provider history and our own stream joined
-/

namespace FxTracker.Web

/-- `TF_SECONDS`. -/
def tfSeconds : List (String × Int) :=
  [("1m", 60), ("3m", 180), ("5m", 300), ("10m", 600), ("15m", 900), ("30m", 1800), ("1d", 86400)]

/-- `bucketStart`. The `%` of the source cuts towards zero. -/
def bucketStart (t seconds : Int) : Int := t - (t.tmod seconds + seconds).tmod seconds

theorem bucketStart_eq_sub_fmod {seconds : Int} (h : 0 < seconds) (t : Int) :
    bucketStart t seconds = t - t.fmod seconds := by
  have hlow : 0 ≤ t.tmod seconds + seconds := by
    have := Int.lt_tmod_of_pos t h
    omega
  unfold bucketStart
  rw [Int.tmod_eq_emod_of_nonneg hlow, Int.add_emod_right, Int.fmod_eq_emod_of_nonneg _ h.le,
    Int.tmod_eq_emod]
  split
  · simp
  · rw [Int.natAbs_of_nonneg h.le, Int.sub_emod_right, Int.emod_emod]

/-- `rank`: provider history first, our stream last, anything else in between. -/
def rank (src : String) : Nat :=
  if src = "backfill" then 0 else if src = "mixed" then 1 else if src = "stream" then 3 else 2

variable {K : Type} [LT K] [DecidableLT K]

/-- One report of a span in the loop of `join`. -/
def joinPart (acc p : Candle K) : Candle K :=
  { acc with
    h := if acc.h < p.h then p.h else acc.h
    l := if p.l < acc.l then p.l else acc.l
    n := if acc.n < p.n then p.n else acc.n
    src := if p.src ≠ acc.src then "mixed" else acc.src }

/-- The reports in the order of their ranks. -/
def byRank (parts : List (Candle K)) : List (Candle K) :=
  parts.insertionSort fun a b => rank a.src ≤ rank b.src

/-- `join`: several reports of the same span as one bar; `none` where there is no report. -/
def join (parts : List (Candle K)) : Option (Candle K) :=
  match parts with
  | [p] => some p
  | parts =>
    match byRank parts with
    | [] => none
    | first :: rest =>
      let last := rest.getLastD first
      some ((first :: rest).foldl joinPart { first with c := last.c })

/-- **Provider history and our own stream**, in either order: the history opens, the stream closes. -/
theorem join_pair {x y : Candle K} (hx : x.src = "backfill") (hn : x.n = 0) (hy : y.src = "stream") :
    join [x, y] = some (Intervals.extend x y) ∧ join [y, x] = some (Intervals.extend x y) := by
  have hxy : rank x.src ≤ rank y.src := by rw [hx, hy]; decide
  have hyx : ¬ rank y.src ≤ rank x.src := by rw [hx, hy]; decide
  have hsorted : byRank [x, y] = [x, y] ∧ byRank [y, x] = [x, y] := by
    simp [byRank, hxy, hyx]
  have hjoined : joinPart (joinPart { x with c := y.c } x) y = Intervals.extend x y := by
    simp only [joinPart, Intervals.extend, hx, hn, hy, pyMax, pyMin, ite_self]
    simp
    omega
  unfold join
  dsimp only
  rw [hsorted.1, hsorted.2]
  exact ⟨congrArg some hjoined, congrArg some hjoined⟩

/-- A minute in a candle that has begun. -/
def extendCur (cur m : Candle K) : Candle K :=
  { cur with
    h := if cur.h < m.h then m.h else cur.h
    l := if m.l < cur.l then m.l else cur.l
    c := m.c
    n := cur.n + m.n
    src := if cur.src ≠ m.src then "mixed" else cur.src }

/-- One minute in the loop of `foldMinutes`: the candles that are complete, and the current one. -/
def foldMinute (seconds : Int) (s : List (Candle K) × Option (Candle K)) (m : Candle K) :
    List (Candle K) × Option (Candle K) :=
  let start := bucketStart m.t seconds
  match s.2 with
  | some cur =>
    if cur.t = start then (s.1, some (extendCur cur m)) else (s.1 ++ [cur], some { m with t := start })
  | none => (s.1, some { m with t := start })

/-- `foldMinutes`: ascending, one-per-minute bars folded into candles. -/
def foldMinutes (minutes : List (Candle K)) (seconds : Int) : List (Candle K) :=
  if seconds = 60 then minutes
  else
    let s := minutes.foldl (foldMinute seconds) ([], none)
    s.1 ++ s.2.toList

/-- **The loop is the roll-up by bucket.** -/
theorem foldMinutes_eq_rollup {seconds : Int} (hpos : 0 < seconds) (hne : seconds ≠ 60)
    (minutes : List (Candle K)) :
    foldMinutes minutes seconds =
      rollup Candle.t Intervals.extend (minutes.map (Intervals.restamp seconds)) := by
  have hloop : ∀ (out : List (Candle K)) (cur : Option (Candle K)), (cur = none → out = []) →
      (minutes.foldl (foldMinute seconds) (out, cur)).1 ++
          (minutes.foldl (foldMinute seconds) (out, cur)).2.toList =
        (minutes.map (Intervals.restamp seconds)).foldl (rollStep Candle.t Intervals.extend)
          (out ++ cur.toList) := by
    induction minutes with
    | nil => intro out cur _; rfl
    | cons m minutes ih =>
      intro out cur hout
      have hstart : bucketStart m.t seconds = (Intervals.restamp seconds m).t :=
        bucketStart_eq_sub_fmod hpos m.t
      rw [List.foldl_cons, List.map_cons, List.foldl_cons]
      unfold foldMinute
      dsimp only
      rw [hstart]
      cases cur with
      | none =>
        rw [hout rfl]
        exact ih [] _ fun h => (nomatch h)
      | some cur =>
        rw [Option.toList_some, rollStep_concat]
        dsimp only
        by_cases h : cur.t = (Intervals.restamp seconds m).t
        · rw [if_pos h, if_pos h]
          exact ih out _ fun h => (nomatch h)
        · rw [if_neg h, if_neg h]
          exact ih (out ++ [cur]) _ fun h => (nomatch h)
  unfold foldMinutes
  rw [if_neg hne]
  exact hloop [] none fun _ => rfl

end FxTracker.Web
