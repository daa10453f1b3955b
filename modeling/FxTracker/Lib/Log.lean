import Mathlib.Data.List.Chain

/-!
# Logs

A log is written from the left, and what was written so far comes to a state. It *follows* a condition
when each entry met it in the state that the entries before it came to. Where the condition is on
those entries themselves, *each* entry meets it.

* `follows_concat_iff`, `each_concat_iff` — one entry more
* `Follows.isChain` — what the condition says of neighbours
-/

namespace FxTracker.Log

variable {σ α : Type*} {next : σ → α → σ} {ok ok' : σ → α → Prop} {s : σ} {l : List α} {a : α}

/-- Each entry meets the condition in the state the log comes to before it. -/
def Follows (next : σ → α → σ) (ok : σ → α → Prop) : σ → List α → Prop
  | _, [] => True
  | s, a :: l => ok s a ∧ Follows next ok (next s a) l

@[simp] theorem follows_nil : Follows next ok s [] := trivial

@[simp] theorem follows_cons : Follows next ok s (a :: l) ↔ ok s a ∧ Follows next ok (next s a) l :=
  Iff.rfl

theorem follows_concat_iff :
    Follows next ok s (l ++ [a]) ↔ Follows next ok s l ∧ ok (l.foldl next s) a := by
  induction l generalizing s with
  | nil => simp
  | cons b l ih => simp [ih, and_assoc]

theorem Follows.mono (h : Follows next ok s l) (hok : ∀ s a, ok s a → ok' s a) :
    Follows next ok' s l := by
  induction l generalizing s with
  | nil => trivial
  | cons b l ih => exact ⟨hok _ _ h.1, ih h.2⟩

/-- **Neighbours** are related as an entry is to the one that comes right after it. -/
theorem Follows.isChain {R : α → α → Prop} (h : Follows next ok s l)
    (hR : ∀ s a b, ok s a → ok (next s a) b → R a b) : l.IsChain R := by
  induction l generalizing s with
  | nil => exact .nil
  | cons a l ih =>
    cases l with
    | nil => exact .singleton a
    | cons b l => exact .cons_cons (hR s a b h.1 h.2.1) (ih h.2)

/-- Something counted by the state. -/
theorem Follows.getElem {P : σ → Nat → Prop} (h : Follows next ok s l) {n : Nat} (hs : P s n)
    (hstep : ∀ s n a, P s n → ok s a → P (next s a) (n + 1)) (i : Nat) (hi : i < l.length) :
    ∃ s, P s (n + i) ∧ ok s l[i] := by
  induction l generalizing s n i with
  | nil => exact absurd hi (Nat.not_lt_zero i)
  | cons a l ih =>
    cases i with
    | zero => exact ⟨s, hs, h.1⟩
    | succ i =>
      obtain ⟨s', hs', hok⟩ := ih h.2 (hstep _ _ _ hs h.1) i (Nat.lt_of_succ_lt_succ hi)
      exact ⟨s', by rwa [Nat.add_assoc, Nat.add_comm 1] at hs', hok⟩

/-! ## Conditions on the entries before -/

variable {when : List α → α → Prop}

/-- Each entry meets the condition, on the entries before it. -/
def Each (when : List α → α → Prop) (l : List α) : Prop :=
  ∀ pre a post, l = pre ++ a :: post → when pre a

theorem each_nil : Each when ([] : List α) := by
  intro pre a post h
  cases pre <;> cases h

theorem each_concat_iff : Each when (l ++ [a]) ↔ Each when l ∧ when l a := by
  constructor
  · intro h
    refine ⟨fun pre b post hl => h pre b (post ++ [a]) ?_, h l a [] rfl⟩
    rw [hl, List.append_assoc, List.cons_append]
  · rintro ⟨h, ha⟩ pre b post hl
    rcases List.eq_nil_or_concat post with rfl | ⟨post, c, rfl⟩
    · obtain ⟨rfl, hb⟩ := List.append_inj' hl rfl
      cases hb
      exact ha
    · rw [List.concat_eq_append, ← List.cons_append, ← List.append_assoc] at hl
      exact h pre b post (List.append_inj' hl rfl).1

end FxTracker.Log
