import Mathlib.Data.List.Chain
import Mathlib.Data.List.Induction

/-!
# Rolling up a sequence

Neighbours with one key are joined into one item, from the left.

* `rollup_flatMap` — joining within groups first changes nothing, where joining is associative
* `rollup_of_isChain` — nothing is joined where neighbours have different keys
-/

namespace FxTracker

variable {α κ : Type*} [DecidableEq κ] (key : α → κ) (op : α → α → α)

/-- One more item: it joins the last one if they have one key. -/
def rollStep (out : List α) (x : α) : List α :=
  match out.getLast? with
  | some cur => if key cur = key x then out.dropLast ++ [op cur x] else out ++ [x]
  | none => [x]

def rollup (xs : List α) : List α := xs.foldl (rollStep key op) []

variable {key op}

@[simp] theorem rollStep_nil (x : α) : rollStep key op [] x = [x] := rfl

theorem rollStep_concat (out : List α) (cur x : α) :
    rollStep key op (out ++ [cur]) x =
      if key cur = key x then out ++ [op cur x] else out ++ [cur] ++ [x] := by
  simp [rollStep]

/-- Two items of one key may be joined beforehand. -/
theorem rollStep_rollStep (hassoc : ∀ a b c, op (op a b) c = op a (op b c))
    (hkey : ∀ a b, key (op a b) = key a) (out : List α) {a b : α} (h : key a = key b) :
    rollStep key op (rollStep key op out a) b = rollStep key op out (op a b) := by
  rcases List.eq_nil_or_concat out with rfl | ⟨out, cur, rfl⟩
  · simp only [rollStep_nil]
    rw [← List.nil_append [a], rollStep_concat, if_pos h, List.nil_append]
  · rw [List.concat_eq_append, rollStep_concat, rollStep_concat, hkey]
    by_cases hcur : key cur = key a
    · rw [if_pos hcur, if_pos hcur, rollStep_concat, if_pos ((hkey cur a).trans (hcur.trans h)),
        hassoc]
    · rw [if_neg hcur, if_neg hcur, rollStep_concat, if_pos h]

/-- A group of items of one key may be joined beforehand. -/
theorem foldl_rollStep (hassoc : ∀ a b c, op (op a b) c = op a (op b c))
    (hkey : ∀ a b, key (op a b) = key a) (out : List α) (a : α) {g : List α}
    (h : ∀ b ∈ g, key a = key b) :
    (a :: g).foldl (rollStep key op) out = rollStep key op out (g.foldl op a) := by
  induction g generalizing a with
  | nil => rfl
  | cons b g ih =>
    have hab := h b (List.mem_cons_self ..)
    rw [List.foldl_cons, List.foldl_cons, rollStep_rollStep hassoc hkey out hab]
    refine ih (op a b) fun c hc => ?_
    rw [hkey]
    exact h c (List.mem_cons_of_mem _ hc)

/-- **Joining within groups first.** -/
theorem rollup_flatMap {ι : Type*} (hassoc : ∀ a b c, op (op a b) c = op a (op b c))
    (hkey : ∀ a b, key (op a b) = key a) (first : ι → α) (rest : ι → List α) {is : List ι}
    (h : ∀ i ∈ is, ∀ b ∈ rest i, key (first i) = key b) :
    rollup key op (is.flatMap fun i => first i :: rest i) =
      rollup key op (is.map fun i => (rest i).foldl op (first i)) := by
  unfold rollup
  generalize ([] : List α) = out
  induction is generalizing out with
  | nil => rfl
  | cons i is ih =>
    have hgroup := foldl_rollStep hassoc hkey out (first i) (h i (List.mem_cons_self ..))
    rw [List.flatMap_cons, List.foldl_append, hgroup]
    exact ih (fun j hj => h j (List.mem_cons_of_mem _ hj)) _

/-- **Neighbours of different keys** stay as they are. -/
theorem rollup_of_isChain {xs : List α} (h : xs.IsChain fun a b => key a ≠ key b) :
    rollup key op xs = xs := by
  induction xs using List.reverseRecOn with
  | nil => rfl
  | append_singleton xs x ih =>
    obtain ⟨hxs, -, hlast⟩ := List.isChain_append.mp h
    have hroll := ih hxs
    unfold rollup at hroll ⊢
    rw [List.foldl_append, hroll]
    rcases List.eq_nil_or_concat xs with rfl | ⟨ys, y, rfl⟩
    · rfl
    · rw [List.concat_eq_append] at hlast ⊢
      rw [List.foldl_cons, rollStep_concat, if_neg (hlast y (by simp) x rfl)]
      rfl

end FxTracker
