import FxTracker.Core.Wire
import Mathlib.Data.Finset.Card

/-!
# Alert rows and the table that holds them

The parsing half of `fx_worker/alerts.py` and the `alert_events` half of `fx_worker/db.py`.

* `get?_insertNew` — a key that is stored keeps its row, and of several new rows for a key the
  first is stored
* `mem_landed_iff` — `RETURNING` names the keys that were not stored and are in the batch
-/

namespace FxTracker.Worker

/-- `(symbol, seq)`, the idempotency key. -/
abbrev AlertKey := String × Int

/-- One regime transition, ready for insert. -/
structure AlertRow (K : Type) where
  symbol : String
  seq : Int
  ts : Int
  oldRegime : String
  newRegime : String
  triggerValue : Option K
  thresholdValue : K
  sigma : Option K
  cause : String
  reason : String
  deriving DecidableEq

variable {K : Type}

def AlertRow.key (r : AlertRow K) : AlertKey := (r.symbol, r.seq)

/-! ## Parsing -/

def validRegimes : List String := ["normal", "stressed"]

def validCauses : List String := ["threshold", "baseline_thaw", "observation_lost"]

/-- `_optional_float`. The outer `none` is a `ValueError`, the inner one SQL `NULL`. -/
def optionalFloat (codec : Codec K) (raw : String) : Option (Option K) :=
  if raw = "" then some none
  else do
    let value ← codec.float raw
    return if codec.isFinite value then some value else none

/-- `_parse`: `none` if the entry is malformed. -/
def parseAlert (codec : Codec K) (fields : Fields) : Option (AlertRow K) := do
  let oldRegime ← fields.get? "old_regime"
  let newRegime ← fields.get? "new_regime"
  let cause ← fields.get? "cause"
  guard (oldRegime ∈ validRegimes ∧ newRegime ∈ validRegimes)
  guard (oldRegime ≠ newRegime)
  guard (cause ∈ validCauses)
  let ts ← codec.fromisoformat (← fields.get? "ts")
  return {
    symbol := ← fields.get? "s"
    seq := ← codec.int (← fields.get? "seq")
    ts := ts.instant
    oldRegime
    newRegime
    triggerValue := ← optionalFloat codec ((fields.get? "trigger_value").getD "")
    thresholdValue := ← codec.float (← fields.get? "threshold_value")
    sigma := ← optionalFloat codec ((fields.get? "sigma").getD "")
    cause
    reason := (fields.get? "reason").getD "" }

/-! ## The table -/

/-- `alert_events`, by its `UNIQUE (symbol, seq)`. -/
abbrev AlertTable (K : Type) := Dict AlertKey (AlertRow K)

/-- `INSERT … SELECT * FROM unnest(…) ON CONFLICT (symbol, seq) DO NOTHING RETURNING symbol, seq`
where no row breaks a constraint: the rows are taken in order, and one that finds its key held,
also by a row of the same statement, is skipped. -/
def insertNew (table : AlertTable K) : List (AlertRow K) → AlertTable K × List AlertKey
  | [] => (table, [])
  | r :: rows =>
    if table.contains r.key then insertNew table rows
    else
      let (after, landed) := insertNew (table.set r.key r) rows
      (after, r.key :: landed)

/-- What `insert_alerts` leaves and returns. -/
structure InsertResult (K : Type) where
  table : AlertTable K
  landed : Finset AlertKey
  conflicted : List AlertKey

/-- `insert_alerts`. It returns the size of `landed`, and `conflicted`. -/
def insertAlerts (table : AlertTable K) (rows : List (AlertRow K)) : InsertResult K :=
  let (after, returned) := insertNew table rows
  let landed := returned.toFinset
  { table := after
    landed
    conflicted := (rows.map (·.key)).filter (· ∉ landed) }

def InsertResult.inserted (res : InsertResult K) : Nat := res.landed.card

/-- `alert_timestamp`. -/
def alertTimestamp (table : AlertTable K) (key : AlertKey) : Option Int :=
  (table.get? key).map (·.ts)

theorem insertNew_cons_of_stored {table : AlertTable K} {r s : AlertRow K}
    (h : table.get? r.key = some s) (rows : List (AlertRow K)) :
    insertNew table (r :: rows) = insertNew table rows := by
  rw [insertNew, if_pos]
  rw [Dict.contains, h]
  rfl

theorem insertNew_cons_of_new {table : AlertTable K} {r : AlertRow K}
    (h : table.get? r.key = none) (rows : List (AlertRow K)) :
    insertNew table (r :: rows) =
      ((insertNew (table.set r.key r) rows).1, r.key :: (insertNew (table.set r.key r) rows).2) := by
  rw [insertNew, if_neg]
  rw [Dict.contains, h]
  exact Bool.false_ne_true

/-- **Stored rows stay, and the first of several new ones is stored.** -/
theorem get?_insertNew (table : AlertTable K) (rows : List (AlertRow K)) (k : AlertKey) :
    (insertNew table rows).1.get? k = (table.get? k).or (rows.find? (·.key = k)) := by
  induction rows generalizing table with
  | nil => rw [insertNew, List.find?_nil, Option.or_none]
  | cons r rows ih =>
    cases hr : table.get? r.key with
    | some s =>
      rw [insertNew_cons_of_stored hr, ih]
      by_cases hk : r.key = k
      · rw [← hk, hr, Option.some_or, Option.some_or]
      · rw [List.find?_cons_of_neg (by simpa using hk)]
    | none =>
      rw [insertNew_cons_of_new hr, ih]
      by_cases hk : r.key = k
      · rw [← hk, Dict.get?_set_self, hr, Option.some_or, Option.none_or,
          List.find?_cons_of_pos (by simp)]
      · rw [Dict.get?_set_ne _ _ (Ne.symm hk), List.find?_cons_of_neg (by simpa using hk)]

theorem mem_insertNew_snd_iff {table : AlertTable K} {rows : List (AlertRow K)} {k : AlertKey} :
    k ∈ (insertNew table rows).2 ↔ table.get? k = none ∧ k ∈ rows.map (·.key) := by
  induction rows generalizing table with
  | nil => simp [insertNew]
  | cons r rows ih =>
    cases hr : table.get? r.key with
    | some s =>
      rw [insertNew_cons_of_stored hr, ih, List.map_cons, List.mem_cons]
      constructor
      · rintro ⟨hnone, hmem⟩
        exact ⟨hnone, Or.inr hmem⟩
      · rintro ⟨hnone, rfl | hmem⟩
        · rw [hr] at hnone; cases hnone
        · exact ⟨hnone, hmem⟩
    | none =>
      rw [insertNew_cons_of_new hr, List.mem_cons, ih, List.map_cons, List.mem_cons]
      by_cases hk : k = r.key
      · simp [hk, hr]
      · rw [Dict.get?_set_ne _ _ hk]
        simp [hk]

theorem mem_landed_iff {table : AlertTable K} {rows : List (AlertRow K)} {k : AlertKey} :
    k ∈ (insertAlerts table rows).landed ↔ table.get? k = none ∧ k ∈ rows.map (·.key) :=
  List.mem_toFinset.trans mem_insertNew_snd_iff

end FxTracker.Worker
