import Mathlib.Logic.Basic

/-!
# Keys that expire

One key of a store that gives keys a time to live. It is absent, or holds a value and the last moment
at which it is there (`none`: it never expires). What a command does depends on the time it runs at.

* `read_mono` — a key that is there was there before, with the same value
* `claim_cases`, `renew_cases`, `remove_cases` — the commands that test the key before they write
* `incr_cases`, `expire_cases` — counters, and a time to live that comes later
* `Passes` — a key changes hands only by being free
-/

namespace FxTracker

/-- A value with the last moment at which it is there. -/
structure Cell (α : Type*) where
  value : α
  deadline : Option Nat
  deriving DecidableEq

namespace Cell

variable {α : Type*}

/-- A time to live that starts now. -/
def after (now : Nat) (ttl : Nat) : Option Nat := some (now + ttl)

def live (now : Nat) (c : Cell α) : Bool :=
  match c.deadline with
  | none => true
  | some deadline => decide (now ≤ deadline)

@[simp] theorem live_durable (now : Nat) (v : α) : (Cell.mk v none).live now = true := rfl

@[simp] theorem live_timed (now deadline : Nat) (v : α) :
    (Cell.mk v (some deadline)).live now = true ↔ now ≤ deadline := by
  simp [live]

theorem live_mono {c : Cell α} {now later : Nat} (hle : now ≤ later) (h : c.live later = true) :
    c.live now = true := by
  obtain ⟨v, deadline⟩ := c
  cases deadline with
  | none => rfl
  | some deadline =>
    rw [live_timed] at h ⊢
    exact Nat.le_trans hle h

end Cell

/-- A key, as it is stored. One that has expired may still be stored. -/
abbrev Expiring (α : Type*) := Option (Cell α)

namespace Expiring

variable {α : Type*} {now later ttl : Nat} {v w : α} {k : Expiring α}

/-- What a command that runs at `now` finds. -/
def read (now : Nat) (k : Expiring α) : Option α :=
  match k with
  | some c => if c.live now then some c.value else none
  | none => none

@[simp] theorem read_none (now : Nat) : read now (none : Expiring α) = none := rfl

theorem read_some (now : Nat) (c : Cell α) :
    read now (some c) = if c.live now then some c.value else none := rfl

@[simp] theorem read_timed (now deadline : Nat) (v : α) :
    read now (some ⟨v, some deadline⟩) = if now ≤ deadline then some v else none := by
  rw [read_some]
  simp only [Cell.live_timed]

theorem read_eq_some : read now k = some v ↔ ∃ c, k = some c ∧ c.live now = true ∧ c.value = v := by
  cases k with
  | none => simp
  | some c => simp [read_some]

/-- **A key that is there was there before.** -/
theorem read_mono (hle : now ≤ later) (h : read later k = some v) : read now k = some v := by
  obtain ⟨c, rfl, hlive, rfl⟩ := read_eq_some.mp h
  exact read_eq_some.mpr ⟨c, rfl, Cell.live_mono hle hlive, rfl⟩

theorem read_none_mono (hle : now ≤ later) (h : read now k = none) : read later k = none := by
  cases hlater : read later k with
  | none => rfl
  | some v => rw [read_mono hle hlater] at h; cases h

/-! ## The commands -/

/-- `SET key v NX PX ttl`. -/
def claim (now ttl : Nat) (v : α) (k : Expiring α) : Expiring α × Bool :=
  match read now k with
  | none => (some ⟨v, Cell.after now ttl⟩, true)
  | some _ => (k, false)

/-- Start the time to live again, if the key holds `v`. -/
def renew [DecidableEq α] (now ttl : Nat) (v : α) (k : Expiring α) : Expiring α × Bool :=
  if read now k = some v then (some ⟨v, Cell.after now ttl⟩, true) else (k, false)

/-- Delete the key, if it holds `v`. -/
def remove [DecidableEq α] (now : Nat) (v : α) (k : Expiring α) : Expiring α × Bool :=
  if read now k = some v then (none, true) else (k, false)

/-- `GETDEL key`. -/
def take (now : Nat) (k : Expiring α) : Expiring α × Option α := (none, read now k)

/-- `SET key v EX ttl`. -/
def set (now ttl : Nat) (v : α) : Expiring α := some ⟨v, Cell.after now ttl⟩

/-- `EXPIRE key ttl`; a key that is not there stays so. -/
def expire (now ttl : Nat) (k : Expiring α) : Expiring α :=
  match read now k with
  | some v => some ⟨v, Cell.after now ttl⟩
  | none => k

/-- `INCR key`: a key that is not there counts from nothing, without a time to live. -/
def incr (now : Nat) (k : Expiring Nat) : Expiring Nat :=
  match k with
  | some c => if c.live now then some ⟨c.value + 1, c.deadline⟩ else some ⟨1, none⟩
  | none => some ⟨1, none⟩

/-- `TTL key`, for times in milliseconds: in seconds, rounded to the nearest; -1 for a key that never expires
and -2 for one that is not there. -/
def ttlS (now : Nat) (k : Expiring α) : Int :=
  match k with
  | some c =>
    if c.live now then
      match c.deadline with
      | none => -1
      | some deadline => ((deadline - now + 500) / 1000 : Nat)
    else -2
  | none => -2

theorem incr_cases (now : Nat) (k : Expiring Nat) :
    (∃ c, k = some c ∧ c.live now = true ∧ incr now k = some ⟨c.value + 1, c.deadline⟩) ∨
      read now k = none ∧ incr now k = some ⟨1, none⟩ := by
  cases k with
  | none => exact .inr ⟨rfl, rfl⟩
  | some c =>
    cases hlive : c.live now with
    | true => exact .inl ⟨c, rfl, hlive, by rw [incr, if_pos hlive]⟩
    | false =>
      refine .inr ⟨?_, ?_⟩
      · rw [read_some, hlive]
        rfl
      · simp [incr, hlive]

theorem expire_cases (now ttl : Nat) (k : Expiring α) :
    (∃ c, k = some c ∧ c.live now = true ∧ expire now ttl k = some ⟨c.value, some (now + ttl)⟩) ∨
      read now k = none ∧ expire now ttl k = k := by
  unfold expire
  cases h : read now k with
  | none => exact .inr ⟨rfl, rfl⟩
  | some v =>
    obtain ⟨c, rfl, hlive, rfl⟩ := read_eq_some.mp h
    exact .inl ⟨c, rfl, hlive, rfl⟩

/-- A key that is there has a negative `TTL` just where it never expires. -/
theorem ttlS_neg_iff {c : Cell α} (h : c.live now = true) :
    ttlS now (some c) < 0 ↔ c.deadline = none := by
  obtain ⟨v, deadline⟩ := c
  unfold ttlS
  dsimp only
  rw [if_pos h]
  cases deadline with
  | none => simp
  | some deadline =>
    simp only [reduceCtorEq, iff_false, Int.not_lt]
    exact Int.natCast_nonneg _

theorem claim_cases (now ttl : Nat) (v : α) (k : Expiring α) :
    read now k = none ∧ claim now ttl v k = (some ⟨v, some (now + ttl)⟩, true) ∨
      (∃ w, read now k = some w) ∧ claim now ttl v k = (k, false) := by
  unfold claim
  cases h : read now k with
  | none => exact .inl ⟨rfl, rfl⟩
  | some w => exact .inr ⟨⟨w, rfl⟩, rfl⟩

theorem renew_cases [DecidableEq α] (now ttl : Nat) (v : α) (k : Expiring α) :
    read now k = some v ∧ renew now ttl v k = (some ⟨v, some (now + ttl)⟩, true) ∨
      read now k ≠ some v ∧ renew now ttl v k = (k, false) := by
  unfold renew
  by_cases h : read now k = some v
  · rw [if_pos h]
    exact .inl ⟨h, rfl⟩
  · rw [if_neg h]
    exact .inr ⟨h, rfl⟩

theorem remove_cases [DecidableEq α] (now : Nat) (v : α) (k : Expiring α) :
    read now k = some v ∧ remove now v k = (none, true) ∨
      read now k ≠ some v ∧ remove now v k = (k, false) := by
  unfold remove
  by_cases h : read now k = some v
  · rw [if_pos h]
    exact .inl ⟨h, rfl⟩
  · rw [if_neg h]
    exact .inr ⟨h, rfl⟩

/-! ## Changing hands -/

/-- From one holder to the next a key is free in between. -/
def Passes (o o' : Option α) : Prop := o = o' ∨ o = none ∨ o' = none

instance [DecidableEq α] (o o' : Option α) : Decidable (Passes o o') :=
  inferInstanceAs (Decidable (o = o' ∨ o = none ∨ o' = none))

@[refl] theorem Passes.refl (o : Option α) : Passes o o := .inl rfl

end Expiring

end FxTracker
