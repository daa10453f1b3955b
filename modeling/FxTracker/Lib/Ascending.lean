import Mathlib.Data.Int.Interval
import Mathlib.Data.Finset.Card
import Mathlib.Data.List.Perm.Subperm

/-!
# Lists in the order of a key

* `dropWhile_eq_filter` — what is dropped from the front of an ascending list is all that is below the bound
* `filter_append_filter_not` — a list with all that satisfies a predicate in front
* `length_le_of_ascending` — how many multiples of a step fit into a window
-/

namespace FxTracker

variable {α : Type*}

theorem nodup_keys {ι : Type*} [Preorder ι] {key : α → ι} {xs : List α} (h : xs.Pairwise fun x y => key x < key y) :
    (xs.map key).Nodup :=
  List.pairwise_map.mpr (h.imp fun hlt => hlt.ne)

/-- Where keys ascend strictly, an item is known by its key. -/
theorem eq_of_key_eq {ι : Type*} [Preorder ι] {key : α → ι} {xs : List α} (h : xs.Pairwise fun x y => key x < key y)
    {x y : α} (hx : x ∈ xs) (hy : y ∈ xs) (heq : key x = key y) : x = y :=
  List.inj_on_of_nodup_map (nodup_keys h) hx hy heq

theorem dropWhile_eq_filter {ι : Type*} [LinearOrder ι] {key : α → ι} {xs : List α} (c : ι)
    (h : xs.Pairwise fun x y => key x ≤ key y) :
    (xs.dropWhile fun x => key x < c) = xs.filter fun x => c ≤ key x := by
  induction xs with
  | nil => rfl
  | cons x xs ih =>
    obtain ⟨hx, htail⟩ := List.pairwise_cons.mp h
    by_cases hlt : key x < c
    · rw [List.dropWhile_cons_of_pos (by simpa using hlt), ih htail, List.filter_cons_of_neg (by simpa using hlt)]
    · have hall : ∀ y ∈ x :: xs, c ≤ key y := by
        intro y hy
        rcases List.mem_cons.mp hy with rfl | hy
        · exact not_lt.mp hlt
        · exact (not_lt.mp hlt).trans (hx y hy)
      rw [List.dropWhile_cons_of_neg (by simpa using hlt), List.filter_eq_self.mpr (by simpa using hall)]

theorem takeWhile_eq_filter {ι : Type*} [LinearOrder ι] {key : α → ι} {xs : List α} (c : ι)
    (h : xs.Pairwise fun x y => key x ≤ key y) :
    (xs.takeWhile fun x => key x < c) = xs.filter fun x => key x < c := by
  induction xs with
  | nil => rfl
  | cons x xs ih =>
    obtain ⟨hx, htail⟩ := List.pairwise_cons.mp h
    by_cases hlt : key x < c
    · rw [List.takeWhile_cons_of_pos (by simpa using hlt), ih htail, List.filter_cons_of_pos (by simpa using hlt)]
    · have hnone : ∀ y ∈ x :: xs, ¬ key y < c := by
        intro y hy
        rcases List.mem_cons.mp hy with rfl | hy
        · exact hlt
        · exact fun hyc => hlt ((hx y hy).trans_lt hyc)
      rw [List.takeWhile_cons_of_neg (by simpa using hlt), List.filter_eq_nil_iff.mpr (by simpa using hnone)]

/-- A list with all that satisfies `p` in front is cut in two by it. -/
theorem filter_append_filter_not {p : α → Bool} {xs : List α} (h : xs.Pairwise fun x y => p y = true → p x = true) :
    xs.filter p ++ xs.filter (fun x => !p x) = xs := by
  induction xs with
  | nil => rfl
  | cons x xs ih =>
    obtain ⟨hx, htail⟩ := List.pairwise_cons.mp h
    cases hp : p x with
    | true => simpa [List.filter_cons, hp] using ih htail
    | false =>
      have hnone : xs.filter p = [] := by
        refine List.filter_eq_nil_iff.mpr fun y hy hpy => ?_
        rw [hx y hy hpy] at hp
        exact Bool.noConfusion hp
      have hall : xs.filter (fun x => !p x) = xs := by simpa [hnone] using ih htail
      simp [hp, hnone, hall]

/-- Strictly ascending multiples of a step, in a window of `k` steps. -/
theorem length_le_of_ascending {key : α → Int} {xs : List α} {step a : Int} {k : Nat} (hstep : 0 < step)
    (hascending : xs.Pairwise fun x y => key x < key y) (hmultiple : ∀ x ∈ xs, step ∣ key x)
    (ha : step ∣ a) (hin : ∀ x ∈ xs, a < key x ∧ key x ≤ a + step * k) : xs.length ≤ k := by
  have hnodup : (xs.map fun x => key x / step).Nodup := by
    refine List.pairwise_map.mpr ((List.Pairwise.and_mem.mp hascending).imp ?_)
    intro x y ⟨hx, hy, hlt⟩ heq
    rw [Int.ediv_left_inj (hmultiple x hx) (hmultiple y hy)] at heq
    omega
  have hsub : ∀ n ∈ xs.map fun x => key x / step, n ∈ Finset.Ioc (a / step) (a / step + k) := by
    intro n hn
    obtain ⟨x, hx, rfl⟩ := List.mem_map.mp hn
    obtain ⟨m, hm⟩ := hmultiple x hx
    obtain ⟨b, rfl⟩ := ha
    have hb := hin x hx
    rw [hm, ← Int.mul_add] at hb
    rw [Finset.mem_Ioc, hm, Int.mul_ediv_cancel_left _ hstep.ne', Int.mul_ediv_cancel_left _ hstep.ne']
    exact ⟨Int.lt_of_mul_lt_mul_left hb.1 hstep.le, Int.le_of_mul_le_mul_left hb.2 hstep⟩
  calc xs.length = (xs.map fun x => key x / step).toFinset.card := by
        rw [List.toFinset_card_of_nodup hnodup, List.length_map]
    _ ≤ (Finset.Ioc (a / step) (a / step + k)).card := Finset.card_le_card fun n hn => hsub n (List.mem_toFinset.mp hn)
    _ = k := by rw [Int.card_Ioc]; omega

end FxTracker
