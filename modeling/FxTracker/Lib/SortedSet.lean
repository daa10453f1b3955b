import FxTracker.Lib.Newest
import Mathlib.Data.List.Sort
import Mathlib.Data.Prod.Lex

/-!
# Scored sets

The sorted sets of Redis: each member has one score, and members are ordered by score, equal scores by
member.

* `mem_zadd`, `mem_forgetUpTo` — what an addition and a removal leave
* `rtake_orderedInsert_rtake` — one more entry after a trim to the newest
-/

namespace FxTracker

/-! ## Insertion into a bounded list -/

section Bounded

variable {α : Type*} [LinearOrder α] {l : List α}

theorem orderedInsert_of_forall_le {x : α} (h : ∀ y ∈ l, x ≤ y) : l.orderedInsert (· ≤ ·) x = x :: l := by
  cases l with
  | nil => rfl
  | cons y l => rw [List.orderedInsert_cons, if_pos (h y List.mem_cons_self)]

/-- One more entry after a trim: as without the trim before. -/
theorem rtake_orderedInsert_rtake (h : l.Pairwise (· ≤ ·)) (n : Nat) (x : α) :
    ((l.rtake n).orderedInsert (· ≤ ·) x).rtake n = (l.orderedInsert (· ≤ ·) x).rtake n := by
  induction l with
  | nil => rw [rtake_eq_self (l := []) (Nat.zero_le n)]
  | cons y l ih =>
    obtain ⟨hy, htail⟩ := List.pairwise_cons.mp h
    by_cases hn : n ≤ l.length
    · rw [rtake_cons_of_le hn, ih htail, List.orderedInsert_cons]
      split
      · next hle =>
        -- the new entry is below all of them
        have hbelow : ∀ z ∈ l, x ≤ z := fun z hz => hle.trans (hy z hz)
        have hn' : n ≤ (y :: l).length := hn.trans (Nat.le_succ _)
        rw [orderedInsert_of_forall_le hbelow, rtake_cons_of_le hn, rtake_cons_of_le hn', rtake_cons_of_le hn]
      · have hlength : n ≤ (l.orderedInsert (· ≤ ·) x).length := by
          rw [List.orderedInsert_length]
          omega
        rw [rtake_cons_of_le hlength]
    · rw [rtake_eq_self (l := y :: l) (by rw [List.length_cons]; omega)]

end Bounded

/-! ## Scored sets -/

/-- A member with its score. -/
abbrev Scored (μ : Type*) := Int ×ₗ μ

namespace Scored

variable {μ : Type*}

def score (e : Scored μ) : Int := (ofLex e).1

def member (e : Scored μ) : μ := (ofLex e).2

@[simp] theorem score_toLex (sc : Int) (m : μ) : Scored.score (toLex (sc, m)) = sc := rfl

@[simp] theorem member_toLex (sc : Int) (m : μ) : Scored.member (toLex (sc, m)) = m := rfl

theorem score_le [LinearOrder μ] {e e' : Scored μ} (h : e ≤ e') : e.score ≤ e'.score := by
  rcases Prod.Lex.le_iff.mp h with hlt | heq
  · exact hlt.le
  · exact heq.1.le

end Scored

open Scored

/-- The members of a set with their scores, the least first. -/
@[ext] structure SortedSet (μ : Type*) [LinearOrder μ] where
  entries : List (Scored μ)
  sorted : entries.Pairwise (· < ·)
  distinct : entries.Pairwise fun e e' => e.member ≠ e'.member

namespace SortedSet

variable {μ : Type*} [LinearOrder μ]

instance : DecidableEq (SortedSet μ) := fun s t => decidable_of_iff (s.entries = t.entries) SortedSet.ext_iff.symm

def empty : SortedSet μ := ⟨[], .nil, .nil⟩

/-- `ZCARD`. -/
def card (s : SortedSet μ) : Nat := s.entries.length

/-- `ZADD` of one member: a member that is held moves to the new score. -/
def zadd (s : SortedSet μ) (sc : Int) (m : μ) : SortedSet μ where
  entries := (s.entries.filter fun e => e.member ≠ m).orderedInsert (· ≤ ·) (toLex (sc, m))
  sorted := by
    have hle : ((s.entries.filter fun e => e.member ≠ m).orderedInsert (· ≤ ·) (toLex (sc, m))).Pairwise (· ≤ ·) :=
      ((s.sorted.filter _).imp fun h => h.le).orderedInsert _ _
    have hnodup : ((s.entries.filter fun e => e.member ≠ m).orderedInsert (· ≤ ·) (toLex (sc, m))).Nodup := by
      have hrest := (s.sorted.filter fun e => e.member ≠ m).imp fun h => h.ne
      refine (List.perm_orderedInsert _ _ _).nodup_iff.mpr (List.nodup_cons.mpr ⟨?_, hrest⟩)
      simp [List.mem_filter]
    exact hle.imp₂ (fun _ _ h hne => lt_of_le_of_ne h hne) hnodup
  distinct := by
    refine ((List.perm_orderedInsert _ _ _).pairwise_iff fun h => h.symm).mpr
      (List.pairwise_cons.mpr ⟨?_, s.distinct.filter _⟩)
    intro e he
    exact (of_decide_eq_true (List.mem_filter.mp he).2).symm

/-- `ZRANGEBYSCORE lo hi`. -/
def rangeByScore (s : SortedSet μ) (lo hi : Int) : List (Scored μ) :=
  s.entries.filter fun e => lo ≤ e.score ∧ e.score ≤ hi

/-- `ZCOUNT lo +inf`. -/
def countFrom (s : SortedSet μ) (lo : Int) : Nat := s.entries.countP fun e => lo ≤ e.score

/-- `ZRANGE -n -n`: the lowest of the newest `n`. -/
def newestAt (s : SortedSet μ) (n : Nat) : Option (Scored μ) :=
  if n ≤ s.card then s.entries[s.card - n]? else none

/-- `ZREMRANGEBYRANK 0 -(n + 1)`: all but the newest `n`. -/
def keepNewest (s : SortedSet μ) (n : Nat) : SortedSet μ where
  entries := s.entries.rtake n
  sorted := pairwise_rtake s.sorted n
  distinct := pairwise_rtake s.distinct n

/-- `ZREMRANGEBYSCORE -inf hi`. -/
def forgetUpTo (s : SortedSet μ) (hi : Int) : SortedSet μ where
  entries := s.entries.filter fun e => hi < e.score
  sorted := s.sorted.filter _
  distinct := s.distinct.filter _

variable {s : SortedSet μ} {e : Scored μ} {sc : Int} {m : μ}

theorem mem_zadd : e ∈ (s.zadd sc m).entries ↔ e = toLex (sc, m) ∨ e ∈ s.entries ∧ e.member ≠ m := by
  simp [zadd, List.mem_orderedInsert]

theorem mem_forgetUpTo {hi : Int} : e ∈ (s.forgetUpTo hi).entries ↔ e ∈ s.entries ∧ hi < e.score := by
  simp [forgetUpTo]

/-- A new member. -/
theorem zadd_entries (h : ∀ e ∈ s.entries, e.member ≠ m) :
    (s.zadd sc m).entries = s.entries.orderedInsert (· ≤ ·) (toLex (sc, m)) := by
  have hall : (s.entries.filter fun e => e.member ≠ m) = s.entries := List.filter_eq_self.mpr (by simpa using h)
  exact congrArg (List.orderedInsert (· ≤ ·) (toLex (sc, m))) hall

end SortedSet

end FxTracker
