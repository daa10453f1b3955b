import Mathlib.Algebra.Group.Defs

/-!
# Tallies of a log

What an entry counts for may depend on the entries before it. The tally of a stretch of a log is what
its entries count for together, after the entries before the stretch.

* `tally_append` — a stretch may be cut anywhere
-/

namespace FxTracker

variable {α M : Type*} [AddMonoid M]

/-- What the entries of a stretch count for, after `pre`. -/
def tally (count : List α → α → M) : (pre : List α) → (stretch : List α) → M
  | _, [] => 0
  | pre, a :: stretch => count pre a + tally count (pre ++ [a]) stretch

variable (count : List α → α → M) (pre : List α)

@[simp] theorem tally_nil : tally count pre [] = 0 := rfl

theorem tally_append (xs ys : List α) :
    tally count pre (xs ++ ys) = tally count pre xs + tally count (pre ++ xs) ys := by
  induction xs generalizing pre with
  | nil => simp
  | cons x xs ih => simp [tally, ih, add_assoc]

theorem tally_concat (xs : List α) (x : α) :
    tally count pre (xs ++ [x]) = tally count pre xs + count (pre ++ xs) x := by
  rw [tally_append, tally, tally_nil, add_zero]

end FxTracker
