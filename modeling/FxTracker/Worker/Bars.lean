import FxTracker.Core.Buckets
import FxTracker.Lib.Ohlc

/-!
# The table of minute bars

The `bars_1m` half of `fx_worker/db.py`. A batch is one statement: it applies to every row, or, when
a bar's symbol is not in `instruments`, to none.
-/

namespace FxTracker.Worker

variable {K : Type}

/-- `(symbol, bucket)`, the primary key. -/
abbrev BarKey := String × Int

/-- A row of `bars_1m`: a bar and the highest stream id folded into it. -/
structure BarRow (K : Type) extends Bar K where
  lastStreamId : StreamId
  deriving DecidableEq

def BarRow.key (r : BarRow K) : BarKey := (r.symbol, r.bucket)

abbrev BarTable (K : Type) := Dict BarKey (BarRow K)

section Upsert

variable [FloatOps K] [LT K] [DecidableLT K]

/-- `DO UPDATE SET … WHERE` the incoming id is above the stored one, compared numerically. -/
def mergeRow (old incoming : BarRow K) : BarRow K :=
  if old.lastStreamId < incoming.lastStreamId then
    { old with
      high := pyMax old.high incoming.high
      low := pyMin old.low incoming.low
      close := incoming.close
      tickCount := old.tickCount + incoming.tickCount
      sumRet := old.sumRet + incoming.sumRet
      sumRetSq := old.sumRetSq + incoming.sumRetSq
      lastStreamId := incoming.lastStreamId
      source := if old.source = .stream then old.source else incoming.source }
  else old

/-- The watermark is never lowered, and is at least that of what was offered. -/
theorem le_lastStreamId_mergeRow (old incoming : BarRow K) :
    old.lastStreamId ≤ (mergeRow old incoming).lastStreamId ∧
      incoming.lastStreamId ≤ (mergeRow old incoming).lastStreamId := by
  unfold mergeRow
  split
  · next h => exact ⟨le_of_lt h, le_refl _⟩
  · next h => exact ⟨le_refl _, not_lt.mp h⟩

/-- One row of the statement. -/
def upsertRow (table : BarTable K) (incoming : BarRow K) : BarTable K :=
  match table.get? incoming.key with
  | some old => table.set incoming.key (mergeRow old incoming)
  | none => table.set incoming.key incoming

/-- `upsert_bars`; `none` where the statement fails on the foreign key. The keys of a batch are
distinct, as they come from a dictionary. -/
def upsertBars (instruments : List String) (table : BarTable K) (batch : List (BarRow K)) :
    Option (BarTable K) :=
  if ∀ r ∈ batch, r.symbol ∈ instruments then some (batch.foldl upsertRow table) else none

/-- A batch whose rows have distinct keys merges each into the row of its key. -/
theorem get?_foldl_upsertRow (table : BarTable K) {batch : List (BarRow K)}
    (h : (batch.map BarRow.key).Nodup) (k : BarKey) :
    (batch.foldl upsertRow table).get? k =
      match batch.find? (·.key = k) with
      | some r => some (((table.get? k).map (mergeRow · r)).getD r)
      | none => table.get? k := by
  induction batch generalizing table with
  | nil => rfl
  | cons r batch ih =>
    rw [List.map_cons] at h
    obtain ⟨hni, hnd⟩ := List.nodup_cons.mp h
    have hget : ∀ k, (upsertRow table r).get? k =
        if k = r.key then some (((table.get? k).map (mergeRow · r)).getD r) else table.get? k := by
      intro k
      unfold upsertRow
      by_cases hk : k = r.key
      · subst hk
        cases table.get? r.key <;> simp
      · cases table.get? r.key <;> simp [Dict.get?_set_ne _ _ hk, hk]
    rw [List.foldl_cons, ih _ hnd, hget]
    by_cases hk : r.key = k
    · have hnone : batch.find? (·.key = k) = none :=
        List.find?_eq_none.mpr fun r' hr' hk' =>
          hni (List.mem_map.mpr ⟨r', hr', (of_decide_eq_true hk').trans hk.symm⟩)
      rw [hnone, List.find?_cons_of_pos (by simpa using hk), if_pos hk.symm]
    · rw [List.find?_cons_of_neg (by simpa using hk), if_neg (Ne.symm hk)]

end Upsert

/-! ## What the rows say of prices -/

/-- A row as a bar of prices with a watermark. -/
def BarRow.marked (r : BarRow K) : Marked StreamId K where
  bar := ⟨r.opening, r.high, r.low, r.close, r.tickCount⟩
  mark := r.lastStreamId

section Contents

variable [LT K] [DecidableLT K]

/-- A bar with one more price, as `BucketAccumulator.add` compares prices. -/
def addPrice (b : Ohlc K) (p : K) : Ohlc K :=
  { b with high := pyMax b.high p, low := pyMin b.low p, close := p, count := b.count + 1 }

/-- The bar of a batch of prices; there is none of no prices. -/
def barOf (ps : List K) : Option (Ohlc K) :=
  ps.foldl (fun b p => some (b.elim ⟨p, p, p, p, 1⟩ (addPrice · p))) none

/-- The merge of two bars, as `mergeRow` compares prices. -/
def mergeBars (a b : Ohlc K) : Ohlc K where
  opening := a.opening
  high := pyMax a.high b.high
  low := pyMin a.low b.low
  close := b.close
  count := a.count + b.count

/-- The prices of a row that took in these batches in turn. -/
def rowOf (batches : List (List K)) : Option (Ohlc K) :=
  (batches.filterMap barOf).foldl (fun row b => some (row.elim b (mergeBars · b))) none

theorem barOf_concat (ps : List K) (p : K) :
    barOf (ps ++ [p]) = some ((barOf ps).elim ⟨p, p, p, p, 1⟩ (addPrice · p)) := by
  rw [barOf, List.foldl_append]
  rfl

theorem rowOf_concat {batches : List (List K)} {ps : List K} {b : Ohlc K} (hb : barOf ps = some b) :
    rowOf (batches ++ [ps]) = some ((rowOf batches).elim b (mergeBars · b)) := by
  rw [rowOf, List.filterMap_append, List.filterMap_cons_some hb, List.foldl_append]
  rfl

/-- What `mergeRow` does to the prices of a row. -/
theorem bar_mergeRow [FloatOps K] (old incoming : BarRow K) :
    (mergeRow old incoming).marked.bar =
      if old.lastStreamId < incoming.lastStreamId then mergeBars old.marked.bar incoming.marked.bar
      else old.marked.bar := by
  unfold mergeRow
  split <;> rfl

end Contents

section Order

variable [LinearOrder K] [FloatOps K]

/-- The row's merge is the library's absorption. -/
theorem marked_mergeRow (old incoming : BarRow K) :
    some (mergeRow old incoming).marked = absorb (some old.marked) (some incoming.marked) := by
  rw [absorb_some]
  unfold mergeRow
  by_cases h : old.lastStreamId < incoming.lastStreamId
  · have hm : old.marked.mark < incoming.marked.mark := h
    rw [if_pos h, if_pos hm]
    simp only [BarRow.marked, Ohlc.merge, pyMax_eq_max, pyMin_eq_min]
  · have hm : ¬ old.marked.mark < incoming.marked.mark := h
    rw [if_neg h, if_neg hm]

theorem key_mergeRow (old incoming : BarRow K) : (mergeRow old incoming).key = old.key := by
  unfold mergeRow
  split <;> rfl

end Order

end FxTracker.Worker
