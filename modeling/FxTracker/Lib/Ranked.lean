import FxTracker.Lib.Newest
import Mathlib.Data.List.Sort
import Mathlib.Order.Defs.LinearOrder

/-!
# Bounded sorted sets

A sorted set that keeps its greatest `n` members: each write adds a member and then drops those of
the lowest rank. What was written once is held, or `n` greater members are: nothing else can push it
out, in whatever order the members come.

* `reflects_rtake` — reading fewer of the greatest members
* `reflects_foldl_hold` — every member written to a set that started empty
-/

namespace FxTracker

variable {α : Type*} [LinearOrder α] {n m : Nat} {l : List α} {x y : α}

/-- A set's members, least first, and one more. -/
def zadd (l : List α) (x : α) : List α := if x ∈ l then l else l.orderedInsert (· ≤ ·) x

/-- Add a member and keep the greatest `n`. -/
def hold (n : Nat) (l : List α) (x : α) : List α := (zadd l x).rtake n

/-- `x` is among the members, or there are `n` and none is less than it. -/
def Reflects (n : Nat) (l : List α) (x : α) : Prop := x ∈ l ∨ l.length = n ∧ ∀ y ∈ l, x ≤ y

instance (n : Nat) (l : List α) (x : α) : Decidable (Reflects n l x) := by
  unfold Reflects; infer_instance

@[simp] theorem mem_zadd : y ∈ zadd l x ↔ y = x ∨ y ∈ l := by
  unfold zadd
  split
  · next h =>
    constructor
    · exact Or.inr
    · rintro (rfl | hy)
      · exact h
      · exact hy
  · simp

theorem length_le_length_zadd : l.length ≤ (zadd l x).length := by
  unfold zadd
  split
  · exact Nat.le_refl _
  · rw [List.orderedInsert_length]
    omega

theorem pairwise_zadd (h : l.Pairwise (· ≤ ·)) : (zadd l x).Pairwise (· ≤ ·) := by
  unfold zadd
  split
  · exact h
  · exact h.orderedInsert x l

theorem pairwise_hold (h : l.Pairwise (· ≤ ·)) : (hold n l x).Pairwise (· ≤ ·) :=
  pairwise_rtake (pairwise_zadd h) n

theorem length_hold_le : (hold n l x).length ≤ n := by
  rw [hold, length_rtake]
  omega

/-- Where none is less than `x`, the greatest `n` show it if there are so many. -/
theorem reflects_rtake_of_le (h : ∀ y ∈ l, x ≤ y) (hn : n ≤ l.length) : Reflects n (l.rtake n) x := by
  refine Or.inr ⟨?_, fun y hy => h y ((rtake_suffix l n).subset hy)⟩
  rw [length_rtake]
  omega

/-- What the trim drops stands below all it keeps. -/
theorem reflects_rtake_of_mem (hs : l.Pairwise (· ≤ ·)) (hx : x ∈ l) : Reflects n (l.rtake n) x := by
  obtain ⟨older, hl⟩ := rtake_suffix l n
  rw [← hl, List.mem_append] at hx
  rcases hx with hx | hx
  · have hpos : 0 < older.length := List.length_pos_of_mem hx
    have hlen := congrArg List.length hl
    rw [List.length_append, length_rtake] at hlen
    rw [← hl, List.pairwise_append] at hs
    refine Or.inr ⟨?_, fun y hy => hs.2.2 x hx y hy⟩
    rw [length_rtake]
    omega
  · exact Or.inl hx

/-- **Reading fewer of the greatest members** shows as much, for the number read. -/
theorem reflects_rtake (hs : l.Pairwise (· ≤ ·)) (h : Reflects m l x) (hn : n ≤ m) :
    Reflects n (l.rtake n) x := by
  rcases h with hx | ⟨hlen, hle⟩
  · exact reflects_rtake_of_mem hs hx
  · exact reflects_rtake_of_le hle (by omega)

theorem reflects_hold_self (hs : l.Pairwise (· ≤ ·)) : Reflects n (hold n l x) x :=
  reflects_rtake_of_mem (pairwise_zadd hs) (mem_zadd.mpr (Or.inl rfl))

/-- One more write takes nothing away. -/
theorem Reflects.hold (hs : l.Pairwise (· ≤ ·)) (h : Reflects n l y) : Reflects n (hold n l x) y := by
  rcases h with hy | ⟨hlen, hle⟩
  · exact reflects_rtake_of_mem (pairwise_zadd hs) (mem_zadd.mpr (Or.inr hy))
  · by_cases hyx : y ≤ x
    · refine reflects_rtake_of_le (fun z hz => ?_) (hlen ▸ length_le_length_zadd)
      rcases mem_zadd.mp hz with rfl | hz
      · exact hyx
      · exact hle z hz
    · -- the new member has the lowest rank of all, and goes again
      have hlt : ∀ z ∈ l, x < z := fun z hz => (not_le.mp hyx).trans_le (hle z hz)
      have hcons : zadd l x = x :: l := by
        rw [zadd, if_neg fun hx => lt_irrefl x (hlt x hx)]
        cases l with
        | nil => rfl
        | cons z l => exact List.orderedInsert_cons_of_le _ l (hlt z (List.mem_cons_self ..)).le
      have hkeep : FxTracker.hold n l x = l := by
        rw [FxTracker.hold, hcons, ← hlen, List.rtake, List.length_cons]
        simp
      rw [hkeep]
      exact Or.inr ⟨hlen, hle⟩

theorem pairwise_foldl_hold (xs : List α) : (xs.foldl (hold n) []).Pairwise (· ≤ ·) := by
  induction xs using List.reverseRecOn with
  | nil => exact .nil
  | append_singleton xs x ih =>
    rw [List.foldl_concat]
    exact pairwise_hold ih

theorem length_foldl_hold_le (xs : List α) : (xs.foldl (hold n) []).length ≤ n := by
  induction xs using List.reverseRecOn with
  | nil => exact Nat.zero_le n
  | append_singleton xs x =>
    rw [List.foldl_concat]
    exact length_hold_le

/-- **Every member written** to a set that started empty is shown, whatever came after it. -/
theorem reflects_foldl_hold {xs : List α} (hx : x ∈ xs) : Reflects n (xs.foldl (hold n) []) x := by
  induction xs using List.reverseRecOn with
  | nil => cases hx
  | append_singleton xs y ih =>
    rw [List.foldl_concat]
    rcases List.mem_append.mp hx with hx | hx
    · exact (ih hx).hold (pairwise_foldl_hold xs)
    · obtain rfl := List.mem_singleton.mp hx
      exact reflects_hold_self (pairwise_foldl_hold xs)

end FxTracker
