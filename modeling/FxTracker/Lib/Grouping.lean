import FxTracker.Lib.Ascending
import FxTracker.Lib.Rollup
import Mathlib.Data.List.Sort
import Mathlib.Order.Defs.LinearOrder

/-!
# Grouping a sorted sequence

Where the keys ascend along a sequence, the items of one key stand together. Its roll-up has one item
for each key, in ascending order: the items of that key joined.

* `mem_rollup_iff` — what is in the roll-up
* `pairwise_rollup` — its keys ascend strictly
* `filter_insertionSort` — a part of a stable sort is the stable sort of the part
-/

namespace FxTracker

/-! ## Stable sorts -/

section StableSorts

variable {α : Type*} {r : α → α → Prop} [DecidableRel r] {p : α → Bool}

theorem filter_orderedInsert (hr : ∀ a b c, r a b → r b c → r a c) (a : α) {l : List α}
    (h : l.Pairwise r) : (l.orderedInsert r a).filter p =
      if p a = true then (l.filter p).orderedInsert r a else l.filter p := by
  induction l with
  | nil => by_cases ha : p a = true <;> simp [ha]
  | cons b l ih =>
    obtain ⟨hb, hl⟩ := List.pairwise_cons.mp h
    have ih := ih hl
    rw [List.orderedInsert_cons]
    by_cases hab : r a b
    · -- everything that stays stands after `b`
      have hfirst : (List.filter p (b :: l)).orderedInsert r a = a :: List.filter p (b :: l) := by
        have hall : ∀ c ∈ List.filter p (b :: l), r a c := by
          intro c hc
          rcases List.mem_cons.mp (List.mem_of_mem_filter hc) with rfl | hc
          · exact hab
          · exact hr a b c hab (hb c hc)
        cases hf : List.filter p (b :: l) with
        | nil => rfl
        | cons c rest => exact List.orderedInsert_cons_of_le _ rest (hall c (by rw [hf]; simp))
      rw [if_pos hab, List.filter_cons, hfirst]
    · rw [if_neg hab, List.filter_cons, ih]
      by_cases hpb : p b = true
      · rw [if_pos hpb, List.filter_cons_of_pos hpb]
        by_cases ha : p a = true
        · rw [if_pos ha, if_pos ha, List.orderedInsert_of_not_le r (List.filter p l) hab]
        · rw [if_neg ha, if_neg ha]
      · rw [if_neg hpb, List.filter_cons_of_neg hpb]

/-- **A part of a stable sort** is the stable sort of the part. -/
theorem filter_insertionSort [Std.Total r] [IsTrans α r] (l : List α) :
    (l.insertionSort r).filter p = (l.filter p).insertionSort r := by
  induction l with
  | nil => rfl
  | cons a l ih =>
    have htrans : ∀ a b c, r a b → r b c → r a c := fun _ _ _ => IsTrans.trans _ _ _
    rw [List.insertionSort_cons, filter_orderedInsert htrans a (List.pairwise_insertionSort r l), ih]
    by_cases ha : p a = true
    · rw [if_pos ha, List.filter_cons_of_pos ha, List.insertionSort_cons]
    · rw [if_neg ha, List.filter_cons_of_neg ha]

end StableSorts

/-! ## Roll-ups by group -/

variable {α κ : Type*}

/-- The items of a group joined from the left; there is none for the empty one. -/
def joined (op : α → α → α) : List α → Option α
  | [] => none
  | a :: g => some (g.foldl op a)

@[simp] theorem joined_nil (op : α → α → α) : joined op [] = none := rfl

theorem joined_concat (op : α → α → α) (g : List α) (x : α) :
    joined op (g ++ [x]) = some ((joined op g).elim x fun c => op c x) := by
  cases g with
  | nil => rfl
  | cons a g => simp [joined]

theorem joined_eq_none_iff {f : α → α → α} {g : List α} : joined f g = none ↔ g = [] := by
  cases g <;> simp [joined]

theorem key_joined {op : α → α → α} {key : α → κ} (hkey : ∀ a b, key (op a b) = key a) {g : List α}
    {c : α} (h : joined op g = some c) : ∃ a ∈ g, key c = key a := by
  induction g using List.reverseRecOn generalizing c with
  | nil => cases h
  | append_singleton g x ih =>
    rw [joined_concat] at h
    cases hg : joined op g with
    | none =>
      rw [hg] at h
      cases h
      exact ⟨x, by simp, rfl⟩
    | some b =>
      rw [hg] at h
      cases h
      obtain ⟨a, ha, hka⟩ := ih hg
      exact ⟨a, List.mem_append_left _ ha, by rw [← hka]; exact hkey b x⟩

section Keys

variable [DecidableEq κ] {key : α → κ} {op : α → α → α} {xs ys : List α}

theorem rollup_concat (xs : List α) (x : α) :
    rollup key op (xs ++ [x]) = rollStep key op (rollup key op xs) x := by
  rw [rollup, List.foldl_append]
  rfl

/-- **A coarser roll-up of a roll-up** is that of the sequence. -/
theorem rollup_map_rollup {β ι : Type*} [DecidableEq ι] {key' : β → ι} {op' : β → β → β}
    (f : α → β) (hassoc : ∀ a b c, op' (op' a b) c = op' a (op' b c))
    (hkey' : ∀ a b, key' (op' a b) = key' a) (hop : ∀ a b, f (op a b) = op' (f a) (f b))
    (hkey : ∀ a b, key a = key b → key' (f a) = key' (f b)) (xs : List α) :
    rollup key' op' ((rollup key op xs).map f) = rollup key' op' (xs.map f) := by
  induction xs using List.reverseRecOn with
  | nil => rfl
  | append_singleton xs x ih =>
    rw [rollup_concat, List.map_append, List.map_singleton, rollup_concat, ← ih]
    rcases List.eq_nil_or_concat (rollup key op xs) with hnil | ⟨out, cur, hout⟩
    · rw [hnil]
      rfl
    · rw [hout, List.concat_eq_append, rollStep_concat, List.map_append, List.map_singleton]
      split
      · next h =>
        rw [List.map_append, List.map_singleton, hop, rollup_concat, rollup_concat,
          rollStep_rollStep hassoc hkey' _ (hkey cur x h)]
      · rw [List.map_append, List.map_append, List.map_singleton, List.map_singleton, rollup_concat]

/-- The last item has the last key. -/
theorem key_getLast?_rollup (hkey : ∀ a b, key (op a b) = key a) (xs : List α) :
    (rollup key op xs).getLast?.map key = xs.getLast?.map key := by
  induction xs using List.reverseRecOn with
  | nil => rfl
  | append_singleton xs x =>
    rw [rollup_concat, List.getLast?_concat]
    rcases List.eq_nil_or_concat (rollup key op xs) with hnil | ⟨out, cur, hout⟩
    · rw [hnil]
      rfl
    · rw [hout, List.concat_eq_append, rollStep_concat]
      split
      · next h => rw [List.getLast?_concat, Option.map_some, hkey, h]; rfl
      · rw [List.getLast?_concat]

/-- **Sequences with nothing to join between them** roll up separately. -/
theorem rollup_append (hkey : ∀ a b, key (op a b) = key a)
    (h : ∀ a ∈ xs.getLast?, ∀ b ∈ ys.head?, key a ≠ key b) :
    rollup key op (xs ++ ys) = rollup key op xs ++ rollup key op ys := by
  induction ys using List.reverseRecOn with
  | nil => simp [rollup]
  | append_singleton ys y ih =>
    rw [← List.append_assoc, rollup_concat, rollup_concat]
    rcases List.eq_nil_or_concat ys with rfl | ⟨ys, z, rfl⟩
    · have hlast := key_getLast?_rollup hkey xs
      rw [List.append_nil]
      rcases List.eq_nil_or_concat (rollup key op xs) with hnil | ⟨out, cur, hout⟩
      · rw [hnil]
        rfl
      · rw [hout, List.concat_eq_append, List.getLast?_concat, Option.map_some] at hlast
        obtain ⟨a, ha, hcur⟩ := Option.map_eq_some_iff.mp hlast.symm
        have hne : key cur ≠ key y := hcur ▸ h a ha y rfl
        rw [hout, List.concat_eq_append, rollStep_concat, if_neg hne]
        rfl
    · have hhead : ∀ b ∈ (ys.concat z).head?, b ∈ (ys.concat z ++ [y]).head? := by
        intro b hb
        rw [List.head?_append, hb]
        rfl
      rw [ih fun a ha b hb => h a ha b (hhead b hb)]
      have hlast := key_getLast?_rollup hkey (ys.concat z)
      rcases List.eq_nil_or_concat (rollup key op (ys.concat z)) with hnil | ⟨out, cur, hout⟩
      · rw [hnil, List.concat_eq_append, List.getLast?_concat] at hlast
        cases hlast
      · rw [hout, List.concat_eq_append, ← List.append_assoc, rollStep_concat, rollStep_concat]
        split <;> simp

/-- A sequence of one key rolls up to its items joined. -/
theorem rollup_of_forall (hkey : ∀ a b, key (op a b) = key a) {a : α} {g : List α}
    (h : ∀ b ∈ g, key b = key a) : rollup key op (a :: g) = [g.foldl op a] := by
  induction g using List.reverseRecOn with
  | nil => rfl
  | append_singleton g x ih =>
    have ih := ih fun b hb => h b (List.mem_append_left _ hb)
    have hlast := key_getLast?_rollup hkey (a :: g)
    rw [ih, List.getLast?_singleton, Option.map_some] at hlast
    have hkeys : key (g.foldl op a) = key x := by
      rw [h x (by simp)]
      obtain ⟨b, hb, hbk⟩ := Option.map_eq_some_iff.mp hlast.symm
      rw [← hbk]
      rcases List.mem_cons.mp (List.mem_of_getLast? hb) with rfl | hb
      · rfl
      · exact h b (List.mem_append_left _ hb)
    rw [← List.cons_append, rollup_concat, ih, List.foldl_concat]
    show rollStep key op ([] ++ [_]) x = _
    rw [rollStep_concat, if_pos hkeys]
    rfl

end Keys

/-! ## Ascending keys -/

section Ascending

variable [LinearOrder κ] {key : α → κ} {op : α → α → α} {xs : List α}

/-- Where keys ascend strictly, a list is known by its members. -/
theorem eq_of_mem_iff {ys : List α} (hxs : xs.Pairwise fun a b => key a < key b)
    (hys : ys.Pairwise fun a b => key a < key b) (h : ∀ a, a ∈ xs ↔ a ∈ ys) : xs = ys := by
  have hirrefl : Std.Irrefl fun a b : α => key a < key b := ⟨fun _ => lt_irrefl _⟩
  have hanti : Std.Antisymm fun a b : α => key a < key b :=
    ⟨fun _ _ hlt hgt => absurd hgt (lt_asymm hlt)⟩
  exact hxs.eq_of_mem_iff hys h

/-- `out` has the items of each key of `xs` joined, and its keys ascend. -/
structure Rolled (key : α → κ) (op : α → α → α) (xs out : List α) : Prop where
  pairwise : out.Pairwise fun c d => key c < key d
  mem_iff : ∀ c, c ∈ out ↔ joined op (xs.filter fun x => key x = key c) = some c

/-- An item adds to the group of its key, -/
theorem joined_filter_concat (xs : List α) (x : α) :
    joined op ((xs ++ [x]).filter fun y => key y = key x)
      = some ((joined op (xs.filter fun y => key y = key x)).elim x fun c => op c x) := by
  have hin : [x].filter (fun y => key y = key x) = [x] := by simp
  rw [List.filter_append, hin, joined_concat]

/-- and to no other. -/
theorem filter_concat_of_ne (xs : List α) {x : α} {k : κ} (hk : k ≠ key x) :
    (xs ++ [x]).filter (fun y => key y = k) = xs.filter fun y => key y = k := by
  rw [List.filter_append, List.append_right_eq_self]
  simpa using Ne.symm hk

/-- An item of the last key joins the last one. -/
theorem Rolled.join (hkey : ∀ a b, key (op a b) = key a) {out : List α} {cur x : α}
    (h : Rolled key op xs (out ++ [cur])) (hk : key cur = key x) :
    Rolled key op (xs ++ [x]) (out ++ [op cur x]) := by
  obtain ⟨hpout, -, hcur⟩ := List.pairwise_append.mp h.pairwise
  have hcur : ∀ c ∈ out, key c < key cur := fun c hc => hcur c hc cur (List.mem_singleton_self cur)
  have hjoin : joined op (xs.filter fun y => key y = key x) = some cur := by
    rw [← hk]
    exact (h.mem_iff cur).mp (by simp)
  refine ⟨?_, fun c => ?_⟩
  · refine List.pairwise_append.mpr ⟨hpout, List.pairwise_singleton .., fun c hc d hd => ?_⟩
    rw [List.mem_singleton.mp hd, hkey]
    exact hcur c hc
  · by_cases hc : key c = key x
    · have hnot : c ∉ out := fun hin => absurd (hcur c hin) (by rw [hc, hk]; exact lt_irrefl _)
      rw [hc, joined_filter_concat, hjoin, Option.elim_some]
      simp [hnot, eq_comm]
    · have hne : c ≠ cur := fun he => hc (he ▸ hk)
      have hne' : c ≠ op cur x := fun he => hc (by rw [he, hkey, hk])
      rw [filter_concat_of_ne xs hc, ← h.mem_iff]
      simp [hne, hne']

/-- An item of a new key, past the others, stands after them. -/
theorem Rolled.new {out : List α} {x : α} (h : Rolled key op xs out) (hlt : ∀ c ∈ out, key c < key x)
    (hnew : ∀ y ∈ xs, key y ≠ key x) : Rolled key op (xs ++ [x]) (out ++ [x]) := by
  have hnone : xs.filter (fun y => key y = key x) = [] :=
    List.filter_eq_nil_iff.mpr fun y hy => by simpa using hnew y hy
  refine ⟨?_, fun c => ?_⟩
  · refine List.pairwise_append.mpr ⟨h.pairwise, List.pairwise_singleton .., fun c hc d hd => ?_⟩
    rw [List.mem_singleton.mp hd]
    exact hlt c hc
  · by_cases hc : key c = key x
    · have hnot : c ∉ out := fun hin => absurd (hlt c hin) (by rw [hc]; exact lt_irrefl _)
      rw [hc, joined_filter_concat, hnone, joined_nil, Option.elim_none, List.mem_append,
        or_iff_right hnot, List.mem_singleton]
      simp [eq_comm]
    · have hne : c ≠ x := fun he => hc (congrArg key he)
      rw [filter_concat_of_ne xs hc, ← h.mem_iff, List.mem_append]
      simp [hne]

/-- **The roll-up of a sequence with ascending keys.** -/
theorem rolled_rollup (hkey : ∀ a b, key (op a b) = key a)
    (h : xs.Pairwise fun a b => key a ≤ key b) : Rolled key op xs (rollup key op xs) := by
  induction xs using List.reverseRecOn with
  | nil => exact ⟨.nil, fun c => by simp [rollup]⟩
  | append_singleton xs x ih =>
    obtain ⟨hxs, -, hx⟩ := List.pairwise_append.mp h
    have hx : ∀ y ∈ xs, key y ≤ key x := fun y hy => hx y hy x (List.mem_singleton_self x)
    have ih := ih hxs
    have hlast := key_getLast?_rollup hkey xs
    rw [rollup_concat]
    rcases List.eq_nil_or_concat (rollup key op xs) with hnil | ⟨out, cur, hout⟩
    · -- it is the first
      rw [hnil] at ih hlast ⊢
      have hxs : xs = [] := List.getLast?_eq_none_iff.mp (Option.map_eq_none_iff.mp hlast.symm)
      exact ih.new (by simp) (by simp [hxs])
    · rw [List.concat_eq_append] at hout
      rw [hout] at ih hlast ⊢
      rw [List.getLast?_concat, Option.map_some] at hlast
      obtain ⟨last, hl, hkcur⟩ := Option.map_eq_some_iff.mp hlast.symm
      rw [rollStep_concat]
      split
      · next hk => exact ih.join hkey hk
      · next hk =>
        -- no key before it is past the last one's, so its key is new
        have hlt : key cur < key x :=
          lt_of_le_of_ne (hkcur ▸ hx last (List.mem_of_getLast? hl)) hk
        have hle : ∀ y ∈ xs, key y ≤ key cur := by
          intro y hy
          rw [← hkcur]
          obtain ⟨init, rfl⟩ := List.getLast?_eq_some_iff.mp hl
          obtain ⟨-, -, hinit⟩ := List.pairwise_append.mp hxs
          rcases List.mem_append.mp hy with hin | hin
          · exact hinit y hin last (List.mem_singleton_self last)
          · rw [List.mem_singleton.mp hin]
        have hout : ∀ c ∈ out ++ [cur], key c < key x := by
          intro c hc
          obtain ⟨-, -, hcur⟩ := List.pairwise_append.mp ih.pairwise
          rcases List.mem_append.mp hc with hc | hc
          · exact (hcur c hc cur (List.mem_singleton_self cur)).trans hlt
          · rw [List.mem_singleton.mp hc]
            exact hlt
        exact ih.new hout fun y hy => ((hle y hy).trans_lt hlt).ne

/-- **The keys of a roll-up** ascend strictly. -/
theorem pairwise_rollup (hkey : ∀ a b, key (op a b) = key a)
    (h : xs.Pairwise fun a b => key a ≤ key b) :
    (rollup key op xs).Pairwise fun c d => key c < key d := (rolled_rollup hkey h).pairwise

/-- **What is in a roll-up**: the items of each key joined. -/
theorem mem_rollup_iff (hkey : ∀ a b, key (op a b) = key a)
    (h : xs.Pairwise fun a b => key a ≤ key b) {c : α} :
    c ∈ rollup key op xs ↔ joined op (xs.filter fun x => key x = key c) = some c :=
  (rolled_rollup hkey h).mem_iff c

/-- Every item is in one of the roll-up. -/
theorem exists_mem_rollup (hkey : ∀ a b, key (op a b) = key a)
    (h : xs.Pairwise fun a b => key a ≤ key b) {x : α} (hx : x ∈ xs) :
    ∃ c ∈ rollup key op xs, key c = key x := by
  have hin : x ∈ xs.filter fun y => key y = key x := List.mem_filter.mpr ⟨hx, by simp⟩
  obtain ⟨c, hc⟩ := Option.ne_none_iff_exists'.mp fun hnone =>
    List.ne_nil_of_mem hin (joined_eq_none_iff (f := op).mp hnone)
  obtain ⟨a, ha, hca⟩ := key_joined hkey hc
  have hck : key c = key x := hca.trans (of_decide_eq_true (List.mem_filter.mp ha).2)
  refine ⟨c, (mem_rollup_iff hkey h).mpr ?_, hck⟩
  rw [hck]
  exact hc

end Ascending

end FxTracker
