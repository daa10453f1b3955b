import Mathlib.Data.List.Induction
import Mathlib.Order.Lattice
import Mathlib.Order.Bounds.Defs
import Mathlib.Order.MinMax

/-!
# Price bars with a watermark

A bar summarises a sequence of prices: the first, the highest, the lowest, the last and how many.
Bars of adjacent sequences merge. A marked bar also carries the id of the last price folded in, and
a table that absorbs a batch only if its mark is above the stored one takes each batch once.

* `summarize_append` — the summary of a sequence is the merge of the summaries of its parts
* `describes_of_summarize`, `Ohlc.Describes.unique` — the summary is what the names of its fields say,
  and nothing else is
* `absorb_next` — a batch of later ids is added
* `absorb_replay` — a batch of ids already folded in changes nothing
-/

namespace FxTracker

/-- A bar over a nonempty sequence of prices. -/
structure Ohlc (K : Type*) where
  opening : K
  high : K
  low : K
  close : K
  count : Nat
  deriving DecidableEq

/-- A bar with the id of the last price in it. -/
structure Marked (ι K : Type*) where
  bar : Ohlc K
  mark : ι
  deriving DecidableEq

variable {ι K : Type*} [LinearOrder K]

namespace Ohlc

/-- The bar of one price. -/
def single (p : K) : Ohlc K := ⟨p, p, p, p, 1⟩

/-- The bar with one more price. -/
def add (b : Ohlc K) (p : K) : Ohlc K :=
  { b with high := max b.high p, low := min b.low p, close := p, count := b.count + 1 }

/-- The bar of two adjacent sequences. -/
def merge (a b : Ohlc K) : Ohlc K where
  opening := a.opening
  high := max a.high b.high
  low := min a.low b.low
  close := b.close
  count := a.count + b.count

theorem merge_add (a b : Ohlc K) (p : K) : a.merge (b.add p) = (a.merge b).add p := by
  simp only [merge, add, max_assoc, min_assoc, Nat.add_assoc]

end Ohlc

/-! ## Summaries -/

/-- One more price. -/
def fold1 (m : Option (Marked ι K)) (x : ι × K) : Option (Marked ι K) :=
  match m with
  | none => some ⟨.single x.2, x.1⟩
  | some m => some ⟨m.bar.add x.2, x.1⟩

/-- The marked bar of a sequence; there is none for the empty one. -/
def summarize (xs : List (ι × K)) : Option (Marked ι K) := xs.foldl fold1 none

/-- The summary of two adjacent sequences, from theirs. -/
def combine (a b : Option (Marked ι K)) : Option (Marked ι K) :=
  match a, b with
  | none, b => b
  | a, none => a
  | some a, some b => some ⟨a.bar.merge b.bar, b.mark⟩

@[simp] theorem summarize_nil : summarize ([] : List (ι × K)) = none := rfl

theorem summarize_concat (xs : List (ι × K)) (x : ι × K) :
    summarize (xs ++ [x]) = fold1 (summarize xs) x := by
  rw [summarize, List.foldl_append]
  rfl

theorem combine_none (a : Option (Marked ι K)) : combine a none = a := by
  cases a <;> rfl

theorem combine_fold1 (a b : Option (Marked ι K)) (x : ι × K) :
    combine a (fold1 b x) = fold1 (combine a b) x := by
  cases a with
  | none => cases b <;> rfl
  | some a =>
    cases b with
    | none => rfl
    | some b =>
      simp only [combine, fold1]
      rw [Ohlc.merge_add]

/-- **Summaries of adjacent sequences combine.** -/
theorem summarize_append (xs ys : List (ι × K)) :
    summarize (xs ++ ys) = combine (summarize xs) (summarize ys) := by
  induction ys using List.reverseRecOn with
  | nil => rw [List.append_nil, summarize_nil, combine_none]
  | append_singleton ys y ih =>
    rw [← List.append_assoc, summarize_concat, summarize_concat, ih, combine_fold1]

theorem summarize_eq_none_iff {xs : List (ι × K)} : summarize xs = none ↔ xs = [] := by
  induction xs using List.reverseRecOn with
  | nil => simp
  | append_singleton xs x _ =>
    rw [summarize_concat]
    cases summarize xs <;> simp [fold1]

/-- The mark is the last id. -/
theorem mark_eq_getLast {xs : List (ι × K)} {m : Marked ι K} (h : summarize xs = some m) :
    xs.getLast?.map Prod.fst = some m.mark := by
  induction xs using List.reverseRecOn with
  | nil => cases h
  | append_singleton xs x _ =>
    rw [summarize_concat] at h
    rw [List.getLast?_concat]
    cases hs : summarize xs <;> rw [hs] at h <;> cases h <;> rfl

theorem mark_mem {xs : List (ι × K)} {m : Marked ι K} (h : summarize xs = some m) :
    ∃ x ∈ xs, x.1 = m.mark := by
  obtain ⟨x, hx, hm⟩ := Option.map_eq_some_iff.mp (mark_eq_getLast h)
  exact ⟨x, List.mem_of_getLast? hx, hm⟩

/-- What a bar says of the prices it is about. -/
structure Ohlc.Describes (b : Ohlc K) (ps : List K) : Prop where
  opening : ps.head? = some b.opening
  close : ps.getLast? = some b.close
  high : IsGreatest {p | p ∈ ps} b.high
  low : IsLeast {p | p ∈ ps} b.low
  count : b.count = ps.length

namespace Ohlc

theorem describes_single (p : K) : (single p).Describes [p] where
  opening := rfl
  close := rfl
  high := ⟨List.mem_singleton_self _, fun _ hq => le_of_eq (List.mem_singleton.mp hq)⟩
  low := ⟨List.mem_singleton_self _, fun _ hq => ge_of_eq (List.mem_singleton.mp hq)⟩
  count := rfl

/-- **One more price.** -/
theorem Describes.add {b : Ohlc K} {ps : List K} (h : b.Describes ps) (p : K) :
    (b.add p).Describes (ps ++ [p]) := by
  obtain ⟨hopen, -, ⟨hhigh, hle⟩, ⟨hlow, hge⟩, hcount⟩ := h
  have hnew : p ∈ ps ++ [p] := List.mem_append_right _ (List.mem_singleton_self _)
  refine ⟨?_, List.getLast?_concat, ⟨?_, fun q hq => ?_⟩, ⟨?_, fun q hq => ?_⟩, ?_⟩
  · show _ = some b.opening
    rw [List.head?_append, hopen, Option.some_or]
  · show max b.high p ∈ _
    rcases max_choice b.high p with hmax | hmax <;> rw [hmax]
    · exact List.mem_append_left _ hhigh
    · exact hnew
  · rcases List.mem_append.mp hq with hq | hq
    · exact le_max_of_le_left (hle hq)
    · rw [List.mem_singleton.mp hq]
      exact le_max_right ..
  · show min b.low p ∈ _
    rcases min_choice b.low p with hmin | hmin <;> rw [hmin]
    · exact List.mem_append_left _ hlow
    · exact hnew
  · rcases List.mem_append.mp hq with hq | hq
    · exact min_le_of_left_le (hge hq)
    · rw [List.mem_singleton.mp hq]
      exact min_le_right ..
  · show b.count + 1 = _
    rw [hcount, List.length_append]
    rfl

/-- The prices determine the bar. -/
theorem Describes.unique {b b' : Ohlc K} {ps : List K} (h : b.Describes ps) (h' : b'.Describes ps) :
    b = b' := by
  have hopen : b.opening = b'.opening := Option.some.inj (h.opening.symm.trans h'.opening)
  have hclose : b.close = b'.close := Option.some.inj (h.close.symm.trans h'.close)
  have hhigh : b.high = b'.high := le_antisymm (h'.high.2 h.high.1) (h.high.2 h'.high.1)
  have hlow : b.low = b'.low := le_antisymm (h.low.2 h'.low.1) (h'.low.2 h.low.1)
  have hcount : b.count = b'.count := h.count.trans h'.count.symm
  cases b
  cases b'
  simp_all only

end Ohlc

/-- **A summary describes its sequence.** -/
theorem describes_of_summarize {xs : List (ι × K)} {m : Marked ι K} (h : summarize xs = some m) :
    m.bar.Describes (xs.map Prod.snd) := by
  induction xs using List.reverseRecOn generalizing m with
  | nil => cases h
  | append_singleton xs x ih =>
    rw [summarize_concat] at h
    rw [List.map_append, List.map_singleton]
    cases hs : summarize xs with
    | none =>
      rw [hs] at h
      cases h
      rw [summarize_eq_none_iff.mp hs]
      exact Ohlc.describes_single x.2
    | some b =>
      rw [hs] at h
      cases h
      exact (ih hs).add x.2

/-! ## Absorbing a batch at a watermark -/

variable [LinearOrder ι]

/-- What is held after a batch: it is merged only if its mark is above the one held. -/
def absorb (held batch : Option (Marked ι K)) : Option (Marked ι K) :=
  match held, batch with
  | held, none => held
  | none, batch => batch
  | some h, some b => if h.mark < b.mark then some ⟨h.bar.merge b.bar, b.mark⟩ else some h

theorem absorb_some (h b : Marked ι K) :
    absorb (some h) (some b) =
      if h.mark < b.mark then some ⟨h.bar.merge b.bar, b.mark⟩ else some h := rfl

theorem absorb_none (held : Option (Marked ι K)) : absorb held none = held := by
  cases held <;> rfl

/-- In ascending order the mark is the highest id. -/
theorem le_mark {xs : List (ι × K)} (hasc : xs.Pairwise fun x y => x.1 < y.1) {m : Marked ι K}
    (h : summarize xs = some m) : ∀ x ∈ xs, x.1 ≤ m.mark := by
  obtain ⟨l, hl, hm⟩ := Option.map_eq_some_iff.mp (mark_eq_getLast h)
  obtain ⟨init, rfl⟩ := List.getLast?_eq_some_iff.mp hl
  intro x hx
  rcases List.mem_append.mp hx with hx | hx
  · rw [← hm]
    exact le_of_lt ((List.pairwise_append.mp hasc).2.2 x hx l (List.mem_singleton_self l))
  · rw [List.mem_singleton.mp hx, hm]

/-- **A later batch is added.** -/
theorem absorb_next {xs ys : List (ι × K)} (h : ∀ x ∈ xs, ∀ y ∈ ys, x.1 < y.1) :
    absorb (summarize xs) (summarize ys) = summarize (xs ++ ys) := by
  rw [summarize_append]
  cases hx : summarize xs with
  | none => cases summarize ys <;> rfl
  | some a =>
    cases hy : summarize ys with
    | none => rfl
    | some b =>
      obtain ⟨x, hxm, hxa⟩ := mark_mem hx
      obtain ⟨y, hym, hyb⟩ := mark_mem hy
      have hlt : a.mark < b.mark := by
        rw [← hxa, ← hyb]
        exact h x hxm y hym
      exact if_pos hlt

/-- **A batch already folded in changes nothing.** -/
theorem absorb_replay {xs ys : List (ι × K)} (hasc : xs.Pairwise fun x y => x.1 < y.1)
    (h : ∀ y ∈ ys, y ∈ xs) : absorb (summarize xs) (summarize ys) = summarize xs := by
  cases hy : summarize ys with
  | none => exact absorb_none _
  | some b =>
    obtain ⟨y, hym, hyb⟩ := mark_mem hy
    cases hx : summarize xs with
    | none =>
      have hnil := summarize_eq_none_iff.mp hx
      have hmem := h y hym
      rw [hnil] at hmem
      cases hmem
    | some a =>
      have hle := le_mark hasc hx y (h y hym)
      rw [hyb] at hle
      exact if_neg (not_lt.mpr hle)

end FxTracker
