import Mathlib.Algebra.Group.Nat.Even
import Mathlib.Data.List.Chain
import Mathlib.Data.Set.Defs
import Mathlib.Order.Lattice

/-!
# A value that changes at known times

A change says what the value was before it and what it is after it. The value at a time is what the last
change up to it led to, and before the first change what that change led away from.

* `valueAt_eq_find` — read off the changes, newest first
* `valueAt_append_of_lt` — changes that come later do not matter, as long as there is an earlier one
* `old_eq_iff_even` — a value that only goes back and forth
* `Tiles` — ranges without a gap or an overlap
-/

namespace FxTracker.Timeline

structure Change (T V : Type*) where
  time : T
  old : V
  new : V
  deriving DecidableEq, Repr

variable {T V : Type*} [LinearOrder T]

/-- The value at `t` for changes in ascending order, where `v` is the value if there is none. -/
def valueAt (t : T) : List (Change T V) → V → V
  | [], v => v
  | c :: cs, _ => if t < c.time then c.old else valueAt t cs c.new

/-- Each change leads away from what the one before it led to. -/
def Linked (cs : List (Change T V)) : Prop := cs.IsChain fun a b => a.new = b.old

/-- The value after all of the changes. -/
def settled (cs : List (Change T V)) (v : V) : V := cs.foldl (fun _ c => c.new) v

variable {t : T} {xs ys cs : List (Change T V)} {v w : V}

theorem valueAt_of_lt (h : ∀ c ∈ cs, t < c.time) : valueAt t cs v = (cs.head?.map Change.old).getD v := by
  cases cs with
  | nil => rfl
  | cons c cs => simp [valueAt, h c]

theorem valueAt_append_of_le (h : ∀ c ∈ xs, c.time ≤ t) : valueAt t (xs ++ ys) v = valueAt t ys (settled xs v) := by
  induction xs generalizing v with
  | nil => rfl
  | cons c xs ih =>
    have hc : ¬ t < c.time := not_lt.mpr (h c List.mem_cons_self)
    simp only [List.cons_append, valueAt, if_neg hc]
    exact ih fun x hx => h x (List.mem_cons_of_mem _ hx)

theorem valueAt_append_of_lt (hlinked : Linked (xs ++ ys)) (hne : xs ≠ []) (h : ∀ c ∈ ys, t < c.time) :
    valueAt t (xs ++ ys) v = valueAt t xs w := by
  induction xs generalizing v w with
  | nil => exact absurd rfl hne
  | cons c xs ih =>
    simp only [List.cons_append, valueAt]
    by_cases hc : t < c.time
    · simp only [if_pos hc]
    · simp only [if_neg hc]
      have htail : Linked (xs ++ ys) := List.IsChain.tail hlinked
      cases xs with
      | nil =>
        rw [List.nil_append, valueAt_of_lt h]
        cases ys with
        | nil => rfl
        | cons y ys => exact (List.isChain_cons_cons.mp hlinked).1.symm
      | cons x xs => exact ih htail (List.cons_ne_nil _ _)

omit [LinearOrder T] in
theorem settled_append : settled (xs ++ ys) v = settled ys (settled xs v) := List.foldl_append

/-- **The value at a time**, from the changes newest first: what the first of them that is not later led to, and
what the last of them led away from where all are later. -/
theorem valueAt_eq_find (hlinked : Linked cs) (hascending : cs.Pairwise fun a b => a.time < b.time) :
    valueAt t cs v
      = match cs.reverse.find? fun c => c.time ≤ t with
        | some c => c.new
        | none => (cs.head?.map Change.old).getD v := by
  induction cs generalizing v with
  | nil => rfl
  | cons c cs ih =>
    obtain ⟨hc, htail⟩ := List.pairwise_cons.mp hascending
    rw [List.reverse_cons, List.find?_append]
    by_cases ht : t < c.time
    · have hnone : cs.reverse.find? (fun c => c.time ≤ t) = none := by
        refine List.find?_eq_none.mpr fun d hd => ?_
        simpa using ht.trans (hc d (List.mem_reverse.mp hd))
      simp [valueAt, ht, hnone]
    · simp only [valueAt, if_neg ht, ih (List.IsChain.tail hlinked) htail]
      have hself : [c].find? (fun c => c.time ≤ t) = some c := by
        simpa using not_lt.mp ht
      cases hfind : cs.reverse.find? fun c => c.time ≤ t with
      | some d => rfl
      | none =>
        rw [hself]
        cases cs with
        | nil => rfl
        | cons d cs => exact (List.isChain_cons_cons.mp hlinked).1.symm

omit [LinearOrder T] in
theorem settled_mem {values : Set V} (hv : v ∈ values) (hin : ∀ c ∈ cs, c.new ∈ values) : settled cs v ∈ values := by
  induction cs generalizing v with
  | nil => exact hv
  | cons c cs ih => exact ih (hin c List.mem_cons_self) fun x hx => hin x (List.mem_cons_of_mem _ hx)

omit [LinearOrder T] in
/-- **Back and forth between two values**: an even number of changes leads back. -/
theorem old_eq_iff_even {values : Set V} (htwo : ∀ x ∈ values, ∀ y ∈ values, ∀ z ∈ values, x ≠ y → y ≠ z → x = z)
    (hlinked : Linked cs) (hin : ∀ c ∈ cs, c.old ∈ values ∧ c.new ∈ values) (hchange : ∀ c ∈ cs, c.old ≠ c.new) :
    (cs.head?.map Change.old).getD v = settled cs v ↔ Even cs.length := by
  induction cs generalizing v with
  | nil => simp [settled]
  | cons c cs ih =>
    have hrest : ∀ x ∈ cs, x.old ∈ values ∧ x.new ∈ values := fun x hx => hin x (List.mem_cons_of_mem _ hx)
    have htail := ih (v := c.new) (List.IsChain.tail hlinked) hrest fun x hx => hchange x (List.mem_cons_of_mem _ hx)
    have hhead : (cs.head?.map Change.old).getD c.new = c.new := by
      cases cs with
      | nil => rfl
      | cons d cs => exact (List.isChain_cons_cons.mp hlinked).1.symm
    have hc := hchange c List.mem_cons_self
    obtain ⟨hold, hnew⟩ := hin c List.mem_cons_self
    have hsettled : settled cs c.new ∈ values := settled_mem hnew fun x hx => (hrest x hx).2
    rw [hhead] at htail
    rw [List.length_cons, Nat.even_add_one, ← htail]
    constructor
    · intro heq hback
      exact hc (heq.trans hback.symm)
    · intro hne
      exact htwo _ hold _ hnew _ hsettled hc hne

/-! ## Ranges side by side -/

/-- Ranges that start at `lo`, end at `hi`, and each start where the one before ends. -/
def Tiles : T → T → List (T × T) → Prop
  | lo, hi, [] => lo = hi
  | lo, hi, s :: rest => s.1 = lo ∧ s.1 < s.2 ∧ Tiles s.2 hi rest

theorem Tiles.le_fst {lo hi : T} {l : List (T × T)} (h : Tiles lo hi l) : ∀ s ∈ l, lo ≤ s.1 := by
  induction l generalizing lo with
  | nil => simp
  | cons s rest ih =>
    obtain ⟨hs, hlt, hrest⟩ := h
    intro r hr
    rcases List.mem_cons.mp hr with rfl | hr
    · exact hs.ge
    · exact hs.ge.trans (hlt.le.trans (ih hrest r hr))

end FxTracker.Timeline
