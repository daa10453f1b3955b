import Mathlib.Data.List.Induction
import Mathlib.Order.Lattice

/-!
# One open window

Items that carry a key arrive one by one. One window is open: an item of a later key closes it and opens its
own, and any other item goes into it, whatever its key is. A closed window is compared with the items of its
key.

* `exact_of_inOrder` — items in the order of their keys: every closed window is the items of its key
* `inOrder_of_balanced` — once the last window is closed, an item out of order has left a closed window
  that does not even count as many items as its key has
-/

namespace FxTracker

variable {ι α : Type*} [LinearOrder ι] (key : α → ι)

/-- The windows closed so far, and the open one. -/
structure Windows (ι α : Type*) where
  closed : List (ι × List α)
  current : Option (ι × List α)

namespace Windows

/-- One more item. -/
def push (w : Windows ι α) (x : α) : Windows ι α :=
  match w.current with
  | none => { w with current := some (key x, [x]) }
  | some (k, items) =>
    if k < key x then ⟨w.closed ++ [(k, items)], some (key x, [x])⟩
    else { w with current := some (k, items ++ [x]) }

end Windows

/-- The windows of a sequence of items. -/
def roll (xs : List α) : Windows ι α := xs.foldl (Windows.push key) ⟨[], none⟩

/-- The items of a key, in their order. -/
def ofKey (k : ι) (xs : List α) : List α := xs.filter fun x => key x = k

/-- The keys never decrease. -/
def InOrder (xs : List α) : Prop := xs.Pairwise fun x y => key x ≤ key y

/-- The window holds exactly the items of its key. -/
def Exact (xs : List α) (w : ι × List α) : Prop := w.2 = ofKey key w.1 xs

variable {key} {xs : List α} {x : α} {k : ι}

theorem roll_concat (xs : List α) (x : α) : roll key (xs ++ [x]) = (roll key xs).push key x := by
  rw [roll, List.foldl_append]
  rfl

theorem ofKey_concat_self (xs : List α) (x : α) : ofKey key (key x) (xs ++ [x]) = ofKey key (key x) xs ++ [x] := by
  simp [ofKey]

theorem ofKey_concat_of_ne (h : key x ≠ k) : ofKey key k (xs ++ [x]) = ofKey key k xs := by
  simp [ofKey, h]

theorem ofKey_eq_nil (h : ∀ x ∈ xs, key x < k) : ofKey key k xs = [] := by
  refine List.filter_eq_nil_iff.mpr fun x hx => ?_
  simpa using ne_of_lt (h x hx)

/-- What the open window is, in any order: its key is the highest so far, the windows closed before it have
lower ones, and it holds every item of its key. -/
structure Windows.Tracks (key : α → ι) (w : Windows ι α) (xs : List α) : Prop where
  opened : w.current = none ↔ xs = []
  attained : ∀ c ∈ w.current, ∃ x ∈ xs, key x = c.1
  highest : ∀ c ∈ w.current, ∀ x ∈ xs, key x ≤ c.1
  lower : ∀ c ∈ w.current, ∀ d ∈ w.closed, d.1 < c.1
  complete : ∀ c ∈ w.current, ofKey key c.1 c.2 = ofKey key c.1 xs

theorem tracks_roll (xs : List α) : (roll key xs).Tracks key xs := by
  induction xs using List.reverseRecOn with
  | nil =>
    exact ⟨⟨fun _ => rfl, fun _ => rfl⟩, fun _ hc => (nomatch hc), fun _ hc => (nomatch hc),
      fun _ hc => (nomatch hc), fun _ hc => (nomatch hc)⟩
  | append_singleton xs x ih =>
    have hopened : ∀ {c : ι × List α}, some c = none ↔ xs ++ [x] = [] := by simp
    rw [roll_concat, Windows.push]
    split
    · next hnone =>
      -- the first item
      cases ih.opened.mp hnone
      refine ⟨hopened, ?_, ?_, ?_, ?_⟩ <;> rintro _ ⟨⟩
      · exact ⟨x, List.mem_singleton_self x, rfl⟩
      · intro y hy
        exact le_of_eq (congrArg key (List.mem_singleton.mp hy))
      · intro d hd
        cases hd
      · rfl
    · next k items hcurrent =>
      have hhigh := ih.highest _ hcurrent
      have hlow := ih.lower _ hcurrent
      split
      · next hlt =>
        refine ⟨hopened, ?_, ?_, ?_, ?_⟩ <;> rintro _ ⟨⟩
        · exact ⟨x, List.mem_append_right _ (List.mem_singleton_self x), rfl⟩
        · intro y hy
          rcases List.mem_append.mp hy with hy | hy
          · exact le_of_lt (lt_of_le_of_lt (hhigh y hy) hlt)
          · exact le_of_eq (congrArg key (List.mem_singleton.mp hy))
        · intro d hd
          rcases List.mem_append.mp hd with hd | hd
          · exact lt_trans (hlow d hd) hlt
          · rw [List.mem_singleton.mp hd]
            exact hlt
        · have hnil : ofKey key (key x) xs = [] :=
            ofKey_eq_nil fun y hy => lt_of_le_of_lt (hhigh y hy) hlt
          rw [ofKey_concat_self, hnil]
          simp [ofKey]
      · next hge =>
        refine ⟨hopened, ?_, ?_, ?_, ?_⟩ <;> rintro _ ⟨⟩
        · obtain ⟨y, hy, hkey⟩ := ih.attained _ hcurrent
          exact ⟨y, List.mem_append_left _ hy, hkey⟩
        · intro y hy
          rcases List.mem_append.mp hy with hy | hy
          · exact hhigh y hy
          · rw [List.mem_singleton.mp hy]
            exact not_lt.mp hge
        · exact hlow
        · have hsame := ih.complete _ hcurrent
          unfold ofKey at hsame ⊢
          rw [List.filter_append, List.filter_append, hsame]

/-! ## In order -/

theorem exact_concat {w : ι × List α} (h : Exact key xs w) (hne : key x ≠ w.1) :
    Exact key (xs ++ [x]) w := by
  unfold Exact
  rw [ofKey_concat_of_ne hne]
  exact h

/-- **Items in order**: a window, closed or open, is the items of its key. -/
theorem exact_of_inOrder (h : InOrder key xs) :
    (∀ w ∈ (roll key xs).closed, Exact key xs w) ∧ ∀ w ∈ (roll key xs).current, Exact key xs w := by
  induction xs using List.reverseRecOn with
  | nil => exact ⟨fun _ hw => (nomatch hw), fun _ hw => (nomatch hw)⟩
  | append_singleton xs x ih =>
    obtain ⟨hxs, -, hlast⟩ := List.pairwise_append.mp h
    obtain ⟨hclosed, hcurrent⟩ := ih hxs
    have htracks : (roll key xs).Tracks key xs := tracks_roll xs
    rw [roll_concat, Windows.push]
    split
    · next hnone =>
      cases htracks.opened.mp hnone
      refine ⟨fun _ hw => (nomatch hw), ?_⟩
      rintro _ ⟨⟩
      simp [Exact, ofKey]
    · next k items hopen =>
      have hk : Exact key xs (k, items) := hcurrent _ hopen
      have hhigh := htracks.highest _ hopen
      have hlow := htracks.lower _ hopen
      split
      · next hlt =>
        refine ⟨fun w hw => ?_, ?_⟩
        · rcases List.mem_append.mp hw with hw | hw
          · exact exact_concat (hclosed w hw) (ne_of_gt (lt_trans (hlow w hw) hlt))
          · rw [List.mem_singleton.mp hw]
            exact exact_concat hk (ne_of_gt hlt)
        · rintro _ ⟨⟩
          have hnil : ofKey key (key x) xs = [] :=
            ofKey_eq_nil fun y hy => lt_of_le_of_lt (hhigh y hy) hlt
          unfold Exact
          rw [ofKey_concat_self, hnil]
          rfl
      · next hge =>
        -- in order, an item that opens no window is of the open one's key
        obtain ⟨y, hy, hkey⟩ := htracks.attained _ hopen
        have hle : key y ≤ key x := hlast y hy x (List.mem_singleton_self x)
        rw [hkey] at hle
        have hsame : key x = k := le_antisymm (not_lt.mp hge) hle
        subst hsame
        refine ⟨fun w hw => exact_concat (hclosed w hw) (ne_of_gt (hlow w hw)), ?_⟩
        rintro _ ⟨⟩
        unfold Exact at hk ⊢
        rw [ofKey_concat_self, ← hk]

/-! ## Out of order -/

variable (key) in
/-- After every item, each closed window counts as many items as its key has so far. -/
def Balanced (xs : List α) : Prop :=
  ∀ pre, pre <+: xs → ∀ w ∈ (roll key pre).closed, w.2.length = (ofKey key w.1 pre).length

theorem Balanced.of_prefix {ys : List α} (h : Balanced key ys) (hpre : xs <+: ys) : Balanced key xs :=
  fun pre hp => h pre (hp.trans hpre)

/-- A window that holds an item of another key counts more than its key has. -/
theorem length_ofKey_lt {w : ι × List α} (h : ∃ y ∈ w.2, key y ≠ w.1) :
    (ofKey key w.1 w.2).length < w.2.length := by
  obtain ⟨y, hy, hne⟩ := h
  exact List.length_filter_lt_length_iff_exists.mpr ⟨y, hy, by simpa using hne⟩

/-- An item that closes the open window finds only items of its key in it. -/
theorem Balanced.closes (h : Balanced key (xs ++ [x])) {w : ι × List α}
    (hw : (roll key xs).current = some w) (hlt : w.1 < key x) : ¬ ∃ y ∈ w.2, key y ≠ w.1 := by
  intro hstray
  have hclosed : w ∈ (roll key (xs ++ [x])).closed := by
    rw [roll_concat, Windows.push, hw]
    dsimp only
    rw [if_pos hlt]
    exact List.mem_append_right _ (List.mem_singleton_self w)
  have hlen := h _ (List.prefix_refl _) w hclosed
  rw [ofKey_concat_of_ne (ne_of_gt hlt), ← (tracks_roll xs).complete w hw] at hlen
  exact absurd hlen (Nat.ne_of_gt (length_ofKey_lt hstray))

/-- An item out of order stays in the open window. -/
theorem inOrder_or_stray (h : Balanced key xs) :
    InOrder key xs ∨ ∃ w ∈ (roll key xs).current, ∃ y ∈ w.2, key y ≠ w.1 := by
  induction xs using List.reverseRecOn with
  | nil => exact .inl List.Pairwise.nil
  | append_singleton xs x ih =>
    have htracks : (roll key xs).Tracks key xs := tracks_roll xs
    rcases ih (h.of_prefix (List.prefix_append xs [x])) with hord | ⟨w, hw, y, hy, hne⟩
    · by_cases hall : ∀ y ∈ xs, key y ≤ key x
      · refine .inl (List.pairwise_append.mpr ⟨hord, List.pairwise_singleton _ _, fun y hy z hz => ?_⟩)
        rw [List.mem_singleton.mp hz]
        exact hall y hy
      · -- `x` is behind the open window
        obtain ⟨y, hall⟩ := not_forall.mp hall
        obtain ⟨hy, hlt⟩ := Classical.not_imp.mp hall
        rw [roll_concat, Windows.push]
        cases hcur : (roll key xs).current with
        | none =>
          rw [htracks.opened.mp hcur] at hy
          cases hy
        | some w =>
          obtain ⟨k, items⟩ := w
          have hbehind : key x < k := lt_of_lt_of_le (not_le.mp hlt) (htracks.highest _ hcur y hy)
          dsimp only
          rw [if_neg (not_lt.mpr (le_of_lt hbehind))]
          exact .inr ⟨_, rfl, x, List.mem_append_right _ (List.mem_singleton_self x), ne_of_lt hbehind⟩
    · refine .inr ?_
      have hw : (roll key xs).current = some w := hw
      have hge : ¬ w.1 < key x := fun hlt => h.closes hw hlt ⟨y, hy, hne⟩
      rw [roll_concat, Windows.push, hw]
      dsimp only
      rw [if_neg hge]
      exact ⟨_, rfl, y, List.mem_append_left _ hy, hne⟩

/-- **No item out of order** goes unnoticed once an item of a later key has come. -/
theorem inOrder_of_balanced (h : Balanced key (xs ++ [x])) (hlast : ∀ y ∈ xs, key y < key x) :
    InOrder key xs := by
  rcases inOrder_or_stray (h.of_prefix (List.prefix_append xs [x])) with hord | ⟨w, hw, hstray⟩
  · exact hord
  · obtain ⟨y, hy, hkey⟩ := (tracks_roll xs).attained w hw
    exact absurd hstray (h.closes hw (hkey ▸ hlast y hy))

end FxTracker
