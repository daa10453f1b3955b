import Mathlib.Data.List.DropRight

/-!
# The newest entries of a list

A list written from the left keeps its newest `n` entries: `rtake n`. Trimming on every write is
trimming once at the end, and a part of the list that is closed towards the newest end commutes with
the trim.

* `rtake_concat_rtake` — one more entry after a trim
* `filter_rtake` — a part closed towards the newest end
-/

namespace FxTracker

variable {α : Type*}

theorem rtake_eq_self {l : List α} {n : Nat} (h : l.length ≤ n) : l.rtake n = l := by
  rw [List.rtake, Nat.sub_eq_zero_of_le h, List.drop_zero]

theorem rtake_suffix (l : List α) (n : Nat) : l.rtake n <:+ l := List.drop_suffix ..

theorem pairwise_rtake {R : α → α → Prop} {l : List α} (h : l.Pairwise R) (n : Nat) :
    (l.rtake n).Pairwise R :=
  h.sublist (rtake_suffix l n).sublist

theorem length_rtake (l : List α) (n : Nat) : (l.rtake n).length = min n l.length := by
  rw [List.rtake, List.length_drop]
  omega

theorem rtake_cons_of_le {a : α} {l : List α} {n : Nat} (h : n ≤ l.length) : (a :: l).rtake n = l.rtake n := by
  unfold List.rtake
  rw [List.length_cons, Nat.succ_sub h, List.drop_succ_cons]

theorem rtake_rtake (l : List α) (m n : Nat) : (l.rtake m).rtake n = l.rtake (min n m) := by
  simp only [List.rtake_eq_reverse_take_reverse, List.reverse_reverse, List.take_take]

theorem rtake_append (l m : List α) (n : Nat) :
    (l ++ m).rtake n = l.rtake (n - m.length) ++ m.rtake n := by
  unfold List.rtake
  rw [List.length_append, List.drop_append]
  congr 1
  · by_cases h : n ≤ m.length
    · -- nothing of the older part is left
      rw [List.drop_of_length_le (by omega), List.drop_of_length_le (by omega)]
    · congr 1
      omega
  · congr 1
    omega

/-- **Trimming on every write.** -/
theorem rtake_concat_rtake (l : List α) (x : α) (n : Nat) :
    (l.rtake n ++ [x]).rtake n = (l ++ [x]).rtake n := by
  rw [rtake_append, rtake_append, List.length_singleton]
  congr 1
  unfold List.rtake
  rw [List.drop_drop, List.length_drop]
  congr 1
  omega

/-- A part of a list closed towards its end is a suffix. -/
theorem filter_suffix {p : α → Bool} {l : List α}
    (h : l.Pairwise fun a b => p a = true → p b = true) :
    ∃ older, l = older ++ l.filter p ∧ older.filter p = [] := by
  induction l with
  | nil => exact ⟨[], rfl, rfl⟩
  | cons a l ih =>
    rw [List.pairwise_cons] at h
    by_cases ha : p a = true
    · have hall : l.filter p = l := List.filter_eq_self.mpr fun b hb => h.1 b hb ha
      exact ⟨[], by rw [List.filter_cons_of_pos ha, hall]; rfl, rfl⟩
    · obtain ⟨older, hl, ho⟩ := ih h.2
      refine ⟨a :: older, ?_, ?_⟩
      · rw [List.filter_cons_of_neg ha, List.cons_append, ← hl]
      · rw [List.filter_cons_of_neg ha, ho]

/-- **A part closed towards the newest end** of what a trim keeps. -/
theorem filter_rtake {p : α → Bool} {l : List α}
    (h : l.Pairwise fun a b => p a = true → p b = true) (n : Nat) :
    (l.rtake n).filter p = (l.filter p).rtake n := by
  obtain ⟨older, hl, ho⟩ := filter_suffix h
  have hin : ∀ x ∈ l.filter p, p x = true := fun x hx => (List.mem_filter.mp hx).2
  generalize l.filter p = newer at hl hin
  subst hl
  have hnone : (older.rtake (n - newer.length)).filter p = [] := by
    rw [List.filter_eq_nil_iff] at ho ⊢
    exact fun x hx => ho x ((rtake_suffix ..).subset hx)
  rw [rtake_append, List.filter_append, hnone, List.nil_append, List.filter_eq_self]
  exact fun x hx => hin x ((rtake_suffix ..).subset hx)

/-- The newest entries are in a part closed towards the newest end, if it has as many. -/
theorem rtake_filter {p : α → Bool} {l : List α} (h : l.Pairwise fun a b => p a = true → p b = true)
    {n : Nat} (hn : n ≤ (l.filter p).length) : (l.filter p).rtake n = l.rtake n := by
  obtain ⟨older, hl, -⟩ := filter_suffix h
  have hlast : (older ++ l.filter p).rtake n = (l.filter p).rtake n := by
    rw [rtake_append, Nat.sub_eq_zero_of_le hn, List.rtake_zero, List.nil_append]
  rw [← hlast, ← hl]

end FxTracker
