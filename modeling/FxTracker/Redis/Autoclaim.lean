import FxTracker.Redis.Group
import Mathlib.Data.List.Induction

/-!
# What `XAUTOCLAIM` may answer

A page covers the scan of the pending list from where it started up to its cursor: what was eligible
there throughout is claimed. Only the cursor `0-0` says that the scan is complete. A page may hold no
entries while its cursor is another, where the entries it came past were deleted or not idle enough.

* `Scan.claimed_or_le` — what is eligible is claimed, or not before the last cursor
* `answers_claimable` — the scan of `Group.claimable` keeps this contract
-/

namespace FxTracker.Redis

variable {ι α κ : Type*}

/-- An answer: where the scan would go on (`none` is `0-0`), and the entries claimed. -/
structure ClaimPage (ι α : Type*) where
  cursor : Option ι
  entries : List (ι × α)

variable [LinearOrder ι] {eligible : List (ι × α)} {start : Option ι} {page last : ClaimPage ι α}
  {pages init : List (ClaimPage ι α)} {e : ι × α}

/-- The page is an answer to a call from `start`. -/
structure Answers (eligible : List (ι × α)) (start : Option ι) (page : ClaimPage ι α) : Prop where
  claims : ∀ e ∈ eligible, (∀ s ∈ start, s ≤ e.1) → (∀ n ∈ page.cursor, e.1 < n) → e ∈ page.entries
  scanned : ∀ e ∈ page.entries, ∀ n ∈ page.cursor, e.1 < n
  advances : ∀ s ∈ start, ∀ n ∈ page.cursor, s < n

/-- The pages are answers to calls each of which goes on at the cursor of the one before. -/
def Scan (eligible : List (ι × α)) : Option ι → List (ClaimPage ι α) → Prop
  | _, [] => True
  | start, page :: pages => Answers eligible start page ∧ Scan eligible page.cursor pages

/-- **What is eligible is claimed**, if it is before the last cursor. -/
theorem Scan.claimed_or_le (h : Scan eligible start (init ++ [last])) (he : e ∈ eligible)
    (hstart : ∀ s ∈ start, s ≤ e.1) (hinit : ∀ p ∈ init, p.cursor ≠ none) :
    (∃ p ∈ init ++ [last], e ∈ p.entries) ∨ ∃ n ∈ last.cursor, n ≤ e.1 := by
  induction init generalizing start with
  | nil =>
    by_cases hlt : ∀ n ∈ last.cursor, e.1 < n
    · exact .inl ⟨last, List.mem_singleton_self last, h.1.claims e he hstart hlt⟩
    · right
      push Not at hlt
      exact hlt
  | cons p init ih =>
    obtain ⟨hp, hrest⟩ := h
    by_cases hlt : ∀ n ∈ p.cursor, e.1 < n
    · exact .inl ⟨p, List.mem_cons_self .., hp.claims e he hstart hlt⟩
    · obtain ⟨n, hn⟩ := Option.ne_none_iff_exists'.mp (hinit p (List.mem_cons_self ..))
      have hle : ∀ s ∈ p.cursor, s ≤ e.1 := by
        intro s hs
        rw [hn] at hs hlt
        cases hs
        exact not_lt.mp fun hcon => hlt fun m hm => by cases hm; exact hcon
      refine (ih hrest hle fun q hq => hinit q (List.mem_cons_of_mem _ hq)).imp_left ?_
      rintro ⟨q, hq, heq⟩
      exact ⟨q, List.mem_cons_of_mem _ hq, heq⟩

/-- Every entry claimed so far is before the last cursor. -/
theorem Scan.lt_cursor (h : Scan eligible start (init ++ [last])) (hinit : ∀ p ∈ init, p.cursor ≠ none)
    {n : ι} (hn : last.cursor = some n) {p : ClaimPage ι α} (hp : p ∈ init ++ [last])
    (he : e ∈ p.entries) : e.1 < n := by
  have hlast : (∀ s ∈ start, s < n) ∧ ∀ p ∈ init ++ [last], ∀ e ∈ p.entries, e.1 < n := by
    clear hp he
    induction init generalizing start with
    | nil =>
      refine ⟨fun s hs => h.1.advances s hs n hn, fun p hp e he => ?_⟩
      rw [List.mem_singleton.mp hp] at he
      exact h.1.scanned e he n hn
    | cons q init ih =>
      obtain ⟨hq, hrest⟩ := h
      obtain ⟨hcursor, hall⟩ := ih hrest fun r hr => hinit r (List.mem_cons_of_mem _ hr)
      obtain ⟨m, hm⟩ := Option.ne_none_iff_exists'.mp (hinit q (List.mem_cons_self ..))
      have hmn := hcursor m hm
      refine ⟨fun s hs => lt_trans (hq.advances s hs m hm) hmn, fun p hp e he => ?_⟩
      rcases List.mem_cons.mp hp with rfl | hp
      · exact lt_trans (hq.scanned e he m hm) hmn
      · exact hall p hp e he
  exact hlast.2 p hp e he

/-! ## The scan of the group -/

namespace Group

variable {idle : ι → Bool} {l : List ((ι × α) × κ)} {count attempts : Nat}

/-- What the scan claims, and where it stops. -/
theorem claimScan_spec (hasc : l.Pairwise fun p q => p.1.1 < q.1.1) :
    (∀ p ∈ l, idle p.1.1 = true → (∀ n ∈ (claimScan idle l count attempts).2, p.1.1 < n) →
      p.1 ∈ (claimScan idle l count attempts).1) ∧
    (∀ e ∈ (claimScan idle l count attempts).1, ∀ n ∈ (claimScan idle l count attempts).2, e.1 < n) ∧
    ∀ n ∈ (claimScan idle l count attempts).2, ∃ p ∈ l, p.1.1 = n := by
  induction l generalizing count attempts with
  | nil => simp [claimScan]
  | cons q l ih =>
    obtain ⟨hq, hl⟩ := List.pairwise_cons.mp hasc
    rw [claimScan]
    split
    · refine ⟨fun p hp _ hlt => ?_, fun e he => ?_, fun n hn => ?_⟩
      · rcases List.mem_cons.mp hp with rfl | hp
        · exact absurd (hlt _ rfl) (lt_irrefl _)
        · exact absurd (hlt _ rfl) (lt_asymm (hq p hp))
      · cases he
      · exact ⟨q, List.mem_cons_self .., Option.some.inj hn⟩
    · split
      · obtain ⟨hclaims, hscanned, hnext⟩ := @ih (count - 1) (attempts - 1) hl
        refine ⟨fun p hp hidle hlt => ?_, fun e he n hn => ?_, fun n hn => ?_⟩
        · rcases List.mem_cons.mp hp with rfl | hp
          · exact List.mem_cons_self ..
          · exact List.mem_cons_of_mem _ (hclaims p hp hidle hlt)
        · rcases List.mem_cons.mp he with rfl | he
          · obtain ⟨p, hp, rfl⟩ := hnext n hn
            exact hq p hp
          · exact hscanned e he n hn
        · obtain ⟨p, hp, hid⟩ := hnext n hn
          exact ⟨p, List.mem_cons_of_mem _ hp, hid⟩
      · next hbusy =>
        obtain ⟨hclaims, hscanned, hnext⟩ := @ih count (attempts - 1) hl
        refine ⟨fun p hp hidle hlt => ?_, hscanned, fun n hn => ?_⟩
        · rcases List.mem_cons.mp hp with rfl | hp
          · exact absurd hidle hbusy
          · exact hclaims p hp hidle hlt
        · obtain ⟨p, hp, hid⟩ := hnext n hn
          exact ⟨p, List.mem_cons_of_mem _ hp, hid⟩

/-- The scan gets past the first entry. -/
theorem exists_lt_next (hasc : l.Pairwise fun p q => p.1.1 < q.1.1) (hcount : 0 < count)
    (hattempts : 0 < attempts) : ∀ n ∈ (claimScan idle l count attempts).2, ∃ p ∈ l, p.1.1 < n := by
  cases l with
  | nil => simp [claimScan]
  | cons q l =>
    obtain ⟨hq, hl⟩ := List.pairwise_cons.mp hasc
    have hnext : ∀ count attempts, ∀ n ∈ (claimScan idle l count attempts).2, q.1.1 < n := by
      intro count attempts n hn
      obtain ⟨p, hp, rfl⟩ := (claimScan_spec hl).2.2 n hn
      exact hq p hp
    intro n hn
    refine ⟨q, List.mem_cons_self .., ?_⟩
    rw [claimScan, if_neg (by omega)] at hn
    split at hn
    · exact hnext _ _ n hn
    · exact hnext _ _ n hn

/-- **The scan of the group** answers a call: what is pending and idle enough is eligible. -/
theorem answers_claimable (g : Group ι α κ) (idle : ι → Bool) (start : Option ι) {count : Nat}
    (hcount : 0 < count) :
    Answers ((g.pel.filter fun p => idle p.1.1).map Prod.fst) start
      ⟨(g.claimable idle start count).2, (g.claimable idle start count).1⟩ := by
  have hasc := g.pairwise_pel.sublist
    (List.filter_sublist (p := fun p => ∀ s ∈ start, s ≤ p.1.1))
  obtain ⟨hclaims, hscanned, -⟩ := @claimScan_spec _ _ _ _ idle _ count (10 * count) hasc
  refine ⟨fun e he hstart hlt => ?_, hscanned, fun s hs n hn => ?_⟩
  · obtain ⟨p, hp, rfl⟩ := List.mem_map.mp he
    obtain ⟨hp, hidle⟩ := List.mem_filter.mp hp
    exact hclaims p (List.mem_filter.mpr ⟨hp, decide_eq_true hstart⟩) hidle hlt
  · obtain ⟨p, hp, hlt⟩ := exists_lt_next hasc hcount (by omega) n hn
    exact lt_of_le_of_lt (of_decide_eq_true (List.mem_filter.mp hp).2 s hs) hlt

end Group

end FxTracker.Redis
