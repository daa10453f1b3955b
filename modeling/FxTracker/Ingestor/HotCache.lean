import FxTracker.Ingestor.Recovery
import FxTracker.Lib.Ascending
import FxTracker.Lib.SortedSet
import Mathlib.Data.Finset.Sort
import Mathlib.Data.Int.ConditionallyCompleteOrder
import Mathlib.Data.String.Basic
import Mathlib.Order.ConditionallyCompleteLattice.Basic

/-!
# Repairing the hot cache

`_CACHE_ADD_LUA`, `cache_would_take` and `cache_add` of `fx_ingestor/recovery.py`. A key that is absent is
`none`.

The script trims after each addition and compares each bar with what is kept at that moment. What is left
is what one trim of everything held and offered leaves.

* `cacheAddOne_entries` — one bar of the script, against the untrimmed list
* `cacheAdd_newest` — what the script leaves, and when it takes a bar
-/

namespace FxTracker.Ingestor.Recovery

open Scored

variable {K : Type}

/-- `HOT_CACHE_BARS`. -/
def hotCacheBars : Nat := 1440

/-- A member of the hot cache, which is stored as a JSON text. The live writer gives it no `src`, and only
recovery a `run`. -/
structure CacheMember (K : Type) where
  t : Int
  o : K
  h : K
  l : K
  c : K
  n : Nat
  src : Option BarSource
  run : Option String
  deriving DecidableEq

/-- `cache_member`. -/
def cacheMember (bar : Bar K) (runId : String) : CacheMember K where
  t := bar.bucket
  o := bar.opening
  h := bar.high
  l := bar.low
  c := bar.close
  n := 0
  src := some .backfill
  run := some runId

-- the order of the texts
variable [LinearOrder (CacheMember K)]

/-- The script's turn for one score and member: the set, and how many were added. -/
def cacheAddOne (cap : Nat) (state : SortedSet (CacheMember K) × Nat) (arg : Scored (CacheMember K)) :
    SortedSet (CacheMember K) × Nat :=
  let (set, added) := state
  if (set.rangeByScore arg.score arg.score).isEmpty then
    let keep := if cap ≤ set.card then (set.newestAt cap).all fun oldestKept => oldestKept.score < arg.score else true
    if keep then ((set.zadd arg.score arg.member).keepNewest cap, added + 1) else (set, added)
  else (set, added)

/-- `_CACHE_ADD_LUA`. -/
def cacheAddScript (cap : Nat) (key : Option (SortedSet (CacheMember K))) (argv : List (Scored (CacheMember K))) :
    Option (SortedSet (CacheMember K)) × Nat :=
  match key with
  | none => (none, 0)
  | some set =>
    let (set, added) := argv.foldl (cacheAddOne cap) (set, 0)
    (some set, added)

/-- The score and the member of a bar. -/
def cacheArg (runId : String) (bar : Bar K) : Scored (CacheMember K) := toLex (bar.bucket, cacheMember bar runId)

/-- `cache_add`. -/
def cacheAdd (key : Option (SortedSet (CacheMember K))) (bars : List (Bar K)) (runId : String) :
    Option (SortedSet (CacheMember K)) × Nat :=
  if bars.isEmpty then (key, 0) else cacheAddScript hotCacheBars key (bars.map (cacheArg runId))

/-- `cache_would_take`: the minutes `cache_add` would add now. -/
def cacheWouldTake (key : Option (SortedSet (CacheMember K))) (minutes : List Int) : Finset Int :=
  match key, minutes with
  | none, _ => ∅
  | _, [] => ∅
  | some set, m :: ms =>
    let held := set.rangeByScore (ms.foldl min m) (ms.foldl max m)
    let taken := held.map score
    let floor := if hotCacheBars ≤ set.card then (set.newestAt hotCacheBars).map score else none
    (m :: ms).toFinset.filter fun t => t ∉ taken ∧ floor.all (· < t)

/-! ## One bar -/

/-- The minutes of a set, ascending. -/
def minutes (set : SortedSet (CacheMember K)) : List Int := set.entries.map score

/-- The script takes a bar of this minute. -/
def Takes (cap : Nat) (set : SortedSet (CacheMember K)) (minute : Int) : Prop :=
  minute ∉ minutes set ∧ (cap ≤ set.card → ∀ e ∈ set.newestAt cap, e.score < minute)

variable {cap added : Nat} {set : SortedSet (CacheMember K)} {arg : Scored (CacheMember K)}

theorem rangeByScore_isEmpty_iff (minute : Int) :
    (set.rangeByScore minute minute).isEmpty = true ↔ minute ∉ minutes set := by
  simp only [SortedSet.rangeByScore, minutes, List.isEmpty_iff, List.filter_eq_nil_iff, decide_eq_true_eq, List.mem_map,
    not_exists, not_and]
  refine forall₂_congr fun e _ => ?_
  omega

theorem cacheAddOne_of_takes (h : Takes cap set arg.score) :
    cacheAddOne cap (set, added) arg = ((set.zadd arg.score arg.member).keepNewest cap, added + 1) := by
  have hempty := (rangeByScore_isEmpty_iff arg.score).mpr h.1
  have hkeep :
      (if cap ≤ set.card then (set.newestAt cap).all fun e => decide (e.score < arg.score) else true) = true := by
    split
    · next hcap =>
      rw [Option.all_eq_true]
      exact fun e he => decide_eq_true (h.2 hcap e he)
    · rfl
  simp [cacheAddOne, hempty, hkeep]

theorem cacheAddOne_of_not_takes (h : ¬ Takes cap set arg.score) : cacheAddOne cap (set, added) arg = (set, added) := by
  unfold cacheAddOne
  by_cases hheld : arg.score ∈ minutes set
  · have hempty := mt (rangeByScore_isEmpty_iff arg.score).mp (not_not_intro hheld)
    simp [hempty]
  · have hbelow : ¬ (cap ≤ set.card → ∀ e ∈ set.newestAt cap, e.score < arg.score) := fun hlt => h ⟨hheld, hlt⟩
    obtain ⟨hcap, hlt⟩ := Classical.not_imp.mp hbelow
    have hkeep : (set.newestAt cap).all (fun e => decide (e.score < arg.score)) = false := by
      rw [← Bool.not_eq_true, Option.all_eq_true]
      simpa using hlt
    simp [hcap, hkeep]

/-! ## The script, against one trim -/

/-- One entry to a minute, in the order of the minutes, and each member carries its minute. -/
structure OnePerMinute (l : List (Scored (CacheMember K))) : Prop where
  ascending : l.Pairwise fun e e' => e.score < e'.score
  named : ∀ e ∈ l, e.member.t = e.score

/-- A list that is not trimmed, and one more entry if its minute is free. -/
def withBar (l : List (Scored (CacheMember K))) (e : Scored (CacheMember K)) : List (Scored (CacheMember K)) :=
  if e.score ∈ l.map score then l else l.orderedInsert (· ≤ ·) e

variable {l : List (Scored (CacheMember K))}

theorem le_of_score_lt {e e' : Scored (CacheMember K)} (h : e.score < e'.score) : e ≤ e' :=
  Prod.Lex.le_iff.mpr (.inl h)

theorem OnePerMinute.sorted (h : OnePerMinute l) : l.Pairwise (· ≤ ·) := h.ascending.imp le_of_score_lt

theorem OnePerMinute.withBar (h : OnePerMinute l) {e : Scored (CacheMember K)} (he : e.member.t = e.score) :
    OnePerMinute (withBar l e) := by
  unfold Recovery.withBar
  split
  · exact h
  · next hfree =>
    have hperm := List.perm_orderedInsert (· ≤ ·) e l
    have hscores : ((l.orderedInsert (· ≤ ·) e).map score).Nodup := by
      refine ((hperm.map score).nodup_iff).mpr (List.nodup_cons.mpr ⟨hfree, ?_⟩)
      exact nodup_keys h.ascending
    have hsorted := h.sorted.orderedInsert e l
    refine ⟨?_, ?_⟩
    · exact hsorted.imp₂ (fun a b hle hne => lt_of_le_of_ne (score_le hle) hne) (List.pairwise_map.mp hscores)
    · intro x hx
      rcases (List.mem_orderedInsert _).mp hx with rfl | hx
      · exact he
      · exact h.named x hx

/-- The lowest entry kept by a full set. -/
theorem newestAt_eq_head? (hset : set.entries = l.rtake cap) (hfull : cap ≤ set.card) :
    set.newestAt cap = (l.rtake cap).head? := by
  have hcard : set.card = cap := by
    have hle := length_rtake l cap
    rw [← hset] at hle
    unfold SortedSet.card at hfull ⊢
    omega
  rw [SortedSet.newestAt, if_pos hfull, hcard, Nat.sub_self, hset, List.head?_eq_getElem?]

omit [LinearOrder (CacheMember K)] in
/-- What the trim has dropped is below what it has kept. -/
theorem OnePerMinute.dropped_lt (h : OnePerMinute l) {e first : Scored (CacheMember K)} (he : e ∈ l)
    (hgone : e ∉ l.rtake cap) (hfirst : first ∈ l.rtake cap) : e.score < first.score := by
  have hsplit : l = l.take (l.length - cap) ++ l.rtake cap := (List.take_append_drop _ _).symm
  have hasc := h.ascending
  rw [hsplit] at hasc he
  have hold : e ∈ l.take (l.length - cap) := (List.mem_append.mp he).resolve_right hgone
  exact (List.pairwise_append.mp hasc).2.2 e hold first hfirst

/-- A bar whose minute is free in the untrimmed list is taken if it is among the newest. -/
theorem OnePerMinute.free_of_takes (h : OnePerMinute l) (hcap : 0 < cap) (hset : set.entries = l.rtake cap)
    (htakes : Takes cap set arg.score) : arg.score ∉ l.map score := by
  intro hheld
  obtain ⟨e, he, hscore⟩ := List.mem_map.mp hheld
  have hgone : e ∉ l.rtake cap := fun hkept =>
    htakes.1 (List.mem_map.mpr ⟨e, by rw [hset]; exact hkept, hscore⟩)
  -- the minute was trimmed away, so the set is full
  have hlong : cap ≤ l.length := by
    by_contra hshort
    rw [rtake_eq_self (by omega)] at hgone
    exact hgone he
  have hfull : cap ≤ set.card := by
    rw [SortedSet.card, hset, length_rtake]
    omega
  obtain ⟨first, hfirst⟩ : ∃ first, (l.rtake cap).head? = some first := by
    rw [← Option.isSome_iff_exists, List.isSome_head?, ← List.length_pos_iff, length_rtake]
    omega
  have hlt := h.dropped_lt he hgone (List.mem_of_head? hfirst)
  have hkeep := htakes.2 hfull first (by rw [newestAt_eq_head? hset hfull]; exact hfirst)
  omega

/-- A bar that is not taken though its minute is free is below everything kept, so the trim would drop it. -/
theorem OnePerMinute.below_of_not_takes (h : OnePerMinute l) (hset : set.entries = l.rtake cap)
    (hfree : arg.score ∉ l.map score) (htakes : ¬ Takes cap set arg.score) :
    cap ≤ set.card ∧ ∀ e ∈ l.rtake cap, arg ≤ e := by
  have hminute : arg.score ∉ minutes set := by
    rintro hheld
    obtain ⟨e, he, hscore⟩ := List.mem_map.mp hheld
    exact hfree (List.mem_map.mpr ⟨e, (rtake_suffix l cap).mem (hset ▸ he), hscore⟩)
  have hnot : ¬ (cap ≤ set.card → ∀ e ∈ set.newestAt cap, e.score < arg.score) := fun hlt => htakes ⟨hminute, hlt⟩
  obtain ⟨hfull, hlt⟩ := Classical.not_imp.mp hnot
  push Not at hlt
  obtain ⟨first, hfirst, hle⟩ := hlt
  rw [newestAt_eq_head? hset hfull] at hfirst
  refine ⟨hfull, fun e he => ?_⟩
  have hmem : first ∈ l.rtake cap := List.mem_of_head? hfirst
  have hne : arg.score ≠ first.score := fun heq =>
    hfree (List.mem_map.mpr ⟨first, (rtake_suffix l cap).mem hmem, heq.symm⟩)
  obtain ⟨rest, hrest⟩ := List.head?_eq_some_iff.mp hfirst
  have hasc := pairwise_rtake h.sorted cap
  rw [hrest] at he hasc
  rcases List.mem_cons.mp he with rfl | he
  · exact le_of_score_lt (by omega)
  · exact (le_of_score_lt (by omega)).trans ((List.pairwise_cons.mp hasc).1 e he)

/-- **One bar** of the script does to the trimmed list what `withBar` does to the whole one. -/
theorem cacheAddOne_entries (h : OnePerMinute l) (hcap : 0 < cap) (hset : set.entries = l.rtake cap)
    (harg : arg.member.t = arg.score) : (cacheAddOne cap (set, added) arg).1.entries = (withBar l arg).rtake cap := by
  by_cases htakes : Takes cap set arg.score
  · rw [cacheAddOne_of_takes htakes, withBar, if_neg (h.free_of_takes hcap hset htakes)]
    have hnew : ∀ e ∈ set.entries, e.member ≠ arg.member := by
      intro e he heq
      have hscore : e.score = arg.score := by rw [← h.named e ((rtake_suffix l cap).mem (hset ▸ he)), heq, harg]
      exact htakes.1 (List.mem_map.mpr ⟨e, he, hscore⟩)
    show ((set.zadd arg.score arg.member).entries).rtake cap = _
    rw [SortedSet.zadd_entries hnew, hset]
    exact rtake_orderedInsert_rtake h.sorted cap arg
  · rw [cacheAddOne_of_not_takes htakes, withBar]
    split
    · exact hset
    · next hfree =>
      obtain ⟨hfull, hbelow⟩ := h.below_of_not_takes hset hfree htakes
      have hlength : cap ≤ (l.rtake cap).length := by rw [← hset]; exact hfull
      rw [← rtake_orderedInsert_rtake h.sorted, orderedInsert_of_forall_le hbelow, rtake_cons_of_le hlength,
        rtake_rtake, Nat.min_self]
      exact hset

/-! ## All bars -/

variable {argv : List (Scored (CacheMember K))}

theorem OnePerMinute.foldl_withBar (h : OnePerMinute l) (hargv : ∀ e ∈ argv, e.member.t = e.score) :
    OnePerMinute (argv.foldl Recovery.withBar l) := by
  induction argv generalizing l with
  | nil => exact h
  | cons e argv ih => exact ih (h.withBar (hargv e List.mem_cons_self)) fun x hx => hargv x (List.mem_cons_of_mem e hx)

/-- **The script** leaves what one trim of everything held and offered leaves. -/
theorem foldl_cacheAddOne (h : OnePerMinute l) (hcap : 0 < cap) (hset : set.entries = l.rtake cap)
    (hargv : ∀ e ∈ argv, e.member.t = e.score) :
    (argv.foldl (cacheAddOne cap) (set, added)).1.entries = (argv.foldl withBar l).rtake cap := by
  induction argv generalizing l set added with
  | nil => exact hset
  | cons e argv ih =>
    have he := hargv e List.mem_cons_self
    exact ih (h.withBar he) (cacheAddOne_entries h hcap hset he) fun x hx => hargv x (List.mem_cons_of_mem e hx)

/-- What is held and what is offered for a free minute. -/
theorem foldl_withBar_perm (hargv : (argv.map score).Nodup) :
    (argv.foldl withBar l).Perm (l ++ argv.filter fun e => e.score ∉ l.map score) := by
  induction argv generalizing l with
  | nil => simp
  | cons e argv ih =>
    obtain ⟨hfresh, hrest⟩ := List.nodup_cons.mp hargv
    have hperm := ih (l := withBar l e) hrest
    rw [List.foldl_cons]
    by_cases hheld : e.score ∈ l.map score
    · rw [List.filter_cons_of_neg (by simpa using hheld)]
      rwa [withBar, if_pos hheld] at hperm ⊢
    · rw [List.filter_cons_of_pos (by simpa using hheld)]
      rw [withBar, if_neg hheld] at hperm ⊢
      have hinsert := List.perm_orderedInsert (· ≤ ·) e l
      have hfilter : (argv.filter fun x => x.score ∉ (l.orderedInsert (· ≤ ·) e).map score) =
          argv.filter fun x => x.score ∉ l.map score := by
        refine List.filter_congr fun x hx => ?_
        have hne : x.score ≠ e.score := fun heq => hfresh (heq ▸ List.mem_map_of_mem hx)
        rw [decide_eq_decide, (hinsert.map score).mem_iff, List.map_cons, List.mem_cons, not_or, and_iff_right hne]
      rw [hfilter] at hperm
      refine hperm.trans ((hinsert.append_right _).trans ?_)
      exact List.perm_middle.symm

/-- The order of the bars makes no difference. -/
theorem foldl_withBar_eq_of_perm {argv' : List (Scored (CacheMember K))} (h : OnePerMinute l)
    (hnamed : ∀ e ∈ argv, e.member.t = e.score) (hargv : (argv.map score).Nodup) (hperm : argv'.Perm argv) :
    argv'.foldl withBar l = argv.foldl withBar l := by
  have hargv' : (argv'.map score).Nodup := (hperm.map score).nodup_iff.mpr hargv
  have hall : (argv'.foldl withBar l).Perm (argv.foldl withBar l) :=
    (foldl_withBar_perm hargv').trans (((hperm.filter _).append_left l).trans (foldl_withBar_perm hargv).symm)
  have hsorted' := (h.foldl_withBar fun e he => hnamed e (hperm.mem_iff.mp he)).sorted
  exact hall.eq_of_pairwise' hsorted' (h.foldl_withBar hnamed).sorted

omit [LinearOrder (CacheMember K)] in
theorem OnePerMinute.eq_of_score_eq (h : OnePerMinute l) {e e' : Scored (CacheMember K)} (he : e ∈ l) (he' : e' ∈ l)
    (hscore : e.score = e'.score) : e = e' :=
  eq_of_key_eq h.ascending he he' hscore

/-! ## The cache -/

/-- What a hot cache is at any time: a member to a minute that carries its minute, a day of them at most. -/
structure Kept (set : SortedSet (CacheMember K)) : Prop where
  single : (minutes set).Nodup
  named : ∀ e ∈ set.entries, e.member.t = e.score
  bounded : set.card ≤ hotCacheBars

theorem Kept.onePerMinute (h : Kept set) : OnePerMinute set.entries where
  ascending := set.sorted.imp₂ (fun _ _ hlt hne => lt_of_le_of_ne (score_le hlt.le) hne) (List.pairwise_map.mp h.single)
  named := h.named

theorem Kept.rtake_entries (h : Kept set) : set.entries = set.entries.rtake hotCacheBars :=
  (rtake_eq_self h.bounded).symm

variable {bars : List (Bar K)} {runId : String}

omit [LinearOrder (CacheMember K)] in
theorem named_cacheArg : ∀ e ∈ bars.map (cacheArg runId), e.member.t = e.score := by
  intro e he
  obtain ⟨bar, -, rfl⟩ := List.mem_map.mp he
  rfl

omit [LinearOrder (CacheMember K)] in
theorem map_score_cacheArg (bars : List (Bar K)) (runId : String) :
    (bars.map (cacheArg runId)).map score = bars.map Bar.bucket := by
  rw [List.map_map]
  rfl

/-- What everything held and offered is, untrimmed. -/
def offered (set : SortedSet (CacheMember K)) (bars : List (Bar K)) (runId : String) : List (Scored (CacheMember K)) :=
  (bars.map (cacheArg runId)).foldl withBar set.entries

theorem Kept.cacheAdd_entries (h : Kept set) (bars : List (Bar K)) (runId : String) :
    ∃ after, (cacheAdd (some set) bars runId).1 = some after ∧
      after.entries = (offered set bars runId).rtake hotCacheBars := by
  unfold cacheAdd
  split
  · next hnone =>
    rw [List.isEmpty_iff] at hnone
    subst hnone
    exact ⟨set, rfl, h.rtake_entries⟩
  · refine ⟨_, rfl, ?_⟩
    exact foldl_cacheAddOne h.onePerMinute (by decide) h.rtake_entries named_cacheArg

theorem Kept.onePerMinute_offered (h : Kept set) : OnePerMinute (offered set bars runId) :=
  h.onePerMinute.foldl_withBar named_cacheArg

theorem offered_perm (hbars : (bars.map Bar.bucket).Nodup) :
    (offered set bars runId).Perm
      (set.entries ++ (bars.map (cacheArg runId)).filter fun e => e.score ∉ minutes set) :=
  foldl_withBar_perm (by rwa [map_score_cacheArg])

/-- The minutes held and offered, ascending. -/
theorem map_score_offered (h : Kept set) (hbars : (bars.map Bar.bucket).Nodup) :
    (offered set bars runId).map score = (minutes set ++ bars.map Bar.bucket).toFinset.sort := by
  have hperm : ((offered set bars runId).map score).Perm _ := (offered_perm hbars).map score
  have hsame : ((offered set bars runId).map score).toFinset = (minutes set ++ bars.map Bar.bucket).toFinset := by
    ext t
    simp only [List.mem_toFinset, hperm.mem_iff, List.map_append, List.mem_append, ← map_score_cacheArg bars runId,
      List.mem_map, List.mem_filter, decide_eq_true_eq]
    constructor
    · rintro (hheld | ⟨e, ⟨he, -⟩, rfl⟩)
      · exact .inl (List.mem_map.mpr hheld)
      · exact .inr ⟨e, he, rfl⟩
    · rintro (hheld | ⟨e, he, rfl⟩)
      · exact .inl (List.mem_map.mp hheld)
      · by_cases hheld : e.score ∈ minutes set
        · exact .inl (List.mem_map.mp hheld)
        · exact .inr ⟨e, ⟨he, hheld⟩, rfl⟩
  have hasc : ((offered set bars runId).map score).Pairwise (· < ·) :=
    List.pairwise_map.mpr h.onePerMinute_offered.ascending
  rw [← hsame, (List.toFinset_sort (· ≤ ·) (hasc.imp fun hlt => hlt.ne)).mpr (hasc.imp fun hlt => hlt.le)]

/-- A trim leaves a hot cache. -/
theorem OnePerMinute.kept {after : SortedSet (CacheMember K)} (h : OnePerMinute l)
    (hafter : after.entries = l.rtake hotCacheBars) : Kept after := by
  have hsub : ∀ e ∈ after.entries, e ∈ l := fun e he => (rtake_suffix l hotCacheBars).mem (hafter ▸ he)
  refine ⟨?_, fun e he => h.named e (hsub e he), ?_⟩
  · rw [minutes, hafter]
    exact nodup_keys (pairwise_rtake h.ascending _)
  · rw [SortedSet.card, hafter, length_rtake]
    exact Nat.min_le_left ..

/-! ## The read-only twin -/

theorem foldl_min_le (ms : List Int) : ∀ m : Int, ms.foldl min m ≤ m ∧ ∀ t ∈ ms, ms.foldl min m ≤ t := by
  induction ms with
  | nil => exact fun m => ⟨le_rfl, fun t ht => absurd ht List.not_mem_nil⟩
  | cons x ms ih =>
    intro m
    obtain ⟨hle, hall⟩ := ih (min m x)
    refine ⟨hle.trans (min_le_left ..), fun t ht => ?_⟩
    rcases List.mem_cons.mp ht with rfl | ht
    · exact hle.trans (min_le_right ..)
    · exact hall t ht

theorem le_foldl_max (ms : List Int) : ∀ m : Int, m ≤ ms.foldl max m ∧ ∀ t ∈ ms, t ≤ ms.foldl max m := by
  induction ms with
  | nil => exact fun m => ⟨le_rfl, fun t ht => absurd ht List.not_mem_nil⟩
  | cons x ms ih =>
    intro m
    obtain ⟨hle, hall⟩ := ih (max m x)
    refine ⟨(le_max_left ..).trans hle, fun t ht => ?_⟩
    rcases List.mem_cons.mp ht with rfl | ht
    · exact (le_max_right ..).trans hle
    · exact hall t ht

/-- The minutes the twin reports are those the script takes. -/
theorem mem_cacheWouldTake_iff {asked : List Int} {minute : Int} (hasked : minute ∈ asked) :
    minute ∈ cacheWouldTake (some set) asked ↔ Takes hotCacheBars set minute := by
  cases asked with
  | nil => exact absurd hasked List.not_mem_nil
  | cons m ms =>
    have hrange : ms.foldl min m ≤ minute ∧ minute ≤ ms.foldl max m := by
      obtain ⟨hmin, hmins⟩ := foldl_min_le ms m
      obtain ⟨hmax, hmaxs⟩ := le_foldl_max ms m
      rcases List.mem_cons.mp hasked with rfl | hm
      · exact ⟨hmin, hmax⟩
      · exact ⟨hmins minute hm, hmaxs minute hm⟩
    have htaken : minute ∈ (set.rangeByScore (ms.foldl min m) (ms.foldl max m)).map score ↔ minute ∈ minutes set := by
      simp only [SortedSet.rangeByScore, minutes, List.mem_map, List.mem_filter, decide_eq_true_eq]
      constructor
      · rintro ⟨e, ⟨he, -⟩, rfl⟩
        exact ⟨e, he, rfl⟩
      · rintro ⟨e, he, rfl⟩
        exact ⟨e, ⟨he, hrange⟩, rfl⟩
    have hfloor : (if hotCacheBars ≤ set.card then (set.newestAt hotCacheBars).map score else none).all (· < minute) =
        true ↔ (hotCacheBars ≤ set.card → ∀ e ∈ set.newestAt hotCacheBars, e.score < minute) := by
      split
      · next hfull => simp [hfull, Option.all_eq_true]
      · next hfull => simp [hfull]
    rw [cacheWouldTake, Finset.mem_filter, List.mem_toFinset, htaken, hfloor, and_iff_right hasked]
    rfl

/-- A single bar is added exactly when the twin reports its minute. -/
theorem cacheAdd_single_iff (key : Option (SortedSet (CacheMember K))) (bar : Bar K) (runId : String)
    {asked : List Int} (hasked : bar.bucket ∈ asked) :
    (cacheAdd key [bar] runId).2 = 1 ↔ bar.bucket ∈ cacheWouldTake key asked := by
  cases key with
  | none => simp [cacheAdd, cacheAddScript, cacheWouldTake]
  | some set =>
    rw [mem_cacheWouldTake_iff hasked]
    show (cacheAddOne hotCacheBars (set, 0) (cacheArg runId bar)).2 = 1 ↔ _
    by_cases htakes : Takes hotCacheBars set bar.bucket
    · rw [cacheAddOne_of_takes htakes]
      exact iff_of_true rfl htakes
    · rw [cacheAddOne_of_not_takes htakes]
      exact iff_of_false Nat.zero_ne_one htakes

/-! ## What a repair leaves -/

/-- **A repair keeps the newest day** and replaces no bar: of all minutes held and offered the newest 1 440
are left, one that was held keeps its member, the order of the bars makes no difference, an absent cache
stays absent, and the read-only twin reports what is added. -/
theorem cacheAdd_newest (h : Kept set) (hbars : (bars.map Bar.bucket).Nodup) (runId : String) :
    (∃ after, (cacheAdd (some set) bars runId).1 = some after ∧ Kept after ∧
      minutes after = ((minutes set ++ bars.map Bar.bucket).toFinset.sort).rtake hotCacheBars ∧
      (∀ e ∈ set.entries, e.score ∈ minutes after → e ∈ after.entries) ∧
      (∀ bar ∈ bars, bar.bucket ∉ minutes set → bar.bucket ∈ minutes after → cacheArg runId bar ∈ after.entries) ∧
      ∀ bars', bars'.Perm bars → (cacheAdd (some set) bars' runId).1 = some after) ∧
    cacheAdd none bars runId = (none, 0) ∧
    ∀ (key : Option (SortedSet (CacheMember K))) (bar : Bar K) (asked : List Int), bar.bucket ∈ asked →
      ((cacheAdd key [bar] runId).2 = 1 ↔ bar.bucket ∈ cacheWouldTake key asked) := by
  refine ⟨?_, ?_, fun key bar asked => cacheAdd_single_iff key bar runId⟩
  · obtain ⟨after, hafter, hentries⟩ := h.cacheAdd_entries bars runId
    have hall : OnePerMinute (offered set bars runId) := h.onePerMinute_offered
    have hperm : (offered set bars runId).Perm _ := offered_perm hbars
    -- an entry whose minute is left is left itself
    have hstays : ∀ e ∈ offered set bars runId, e.score ∈ minutes after → e ∈ after.entries := by
      intro e he hleft
      obtain ⟨e', he', hscore⟩ := List.mem_map.mp hleft
      have hold : e' ∈ offered set bars runId := (rtake_suffix _ hotCacheBars).mem (hentries ▸ he')
      rwa [← hall.eq_of_score_eq hold he hscore]
    refine ⟨after, hafter, hall.kept hentries, ?_, ?_, ?_, ?_⟩
    · have hscores : (offered set bars runId).map score = _ := map_score_offered h hbars
      rw [← hscores, minutes, hentries, List.rtake, List.rtake, List.map_drop, List.length_map]
    · exact fun e he => hstays e (hperm.mem_iff.mpr (List.mem_append_left _ he))
    · intro bar hbar hfree
      refine hstays (cacheArg runId bar) (hperm.mem_iff.mpr (List.mem_append_right _ ?_))
      exact List.mem_filter.mpr ⟨List.mem_map_of_mem hbar, decide_eq_true hfree⟩
    · intro bars' hsort
      obtain ⟨after', hafter', hentries'⟩ := h.cacheAdd_entries bars' runId
      have hsame : offered set bars' runId = offered set bars runId :=
        foldl_withBar_eq_of_perm h.onePerMinute named_cacheArg (by rwa [map_score_cacheArg]) (hsort.map _)
      rw [hafter', SortedSet.ext (hentries'.trans (hsame ▸ hentries.symm))]
  · unfold cacheAdd
    split
    · rfl
    · rfl

/-! ### Two minutes -/

/-- Where a member came from, as a number. -/
def sourceKey : Option BarSource → Nat
  | none => 0
  | some .stream => 1
  | some .backfill => 2
  | some .synthetic => 3

theorem sourceKey_injective : Function.Injective sourceKey := by
  rintro (_ | _ | _ | _) (_ | _ | _ | _) h <;> first | rfl | exact absurd h (by decide)

/-- The fields of a member one after the other, for runs on fixed inputs. -/
def CacheMember.key (m : CacheMember Int) : Int ×ₗ Int ×ₗ Int ×ₗ Int ×ₗ Int ×ₗ Nat ×ₗ Nat ×ₗ WithBot String :=
  toLex (m.t, toLex (m.o, toLex (m.h, toLex (m.l, toLex (m.c, toLex (m.n, toLex (sourceKey m.src, m.run)))))))

theorem CacheMember.key_injective : Function.Injective CacheMember.key := by
  rintro ⟨t, o, h, l, c, n, src, run⟩ ⟨t', o', h', l', c', n', src', run'⟩ heq
  simp only [CacheMember.key, EmbeddingLike.apply_eq_iff_eq, Prod.mk.injEq] at heq
  obtain ⟨rfl, rfl, rfl, rfl, rfl, rfl, hlast⟩ := heq
  obtain ⟨hsrc, rfl⟩ := Prod.mk.inj hlast
  rw [sourceKey_injective hsrc]

instance : LinearOrder (CacheMember Int) := LinearOrder.lift' CacheMember.key CacheMember.key_injective

/-- A minute that stays at 7. -/
def minuteAt (bucket : Int) : Bar Int where
  symbol := "EURUSD"
  bucket
  opening := 7
  high := 7
  low := 7
  close := 7
  tickCount := 0
  sumRet := 0
  sumRetSq := 0
  source := .backfill

/-- A cache that holds one minute. -/
def oneMinute : SortedSet (CacheMember Int) := SortedSet.empty.zadd 60 ⟨60, 5, 5, 5, 5, 3, none, none⟩

theorem cacheAdd_newest_two : ∃ after, (cacheAdd (some oneMinute) [minuteAt 60, minuteAt 0] "run").1 = some after ∧
    minutes after = [0, 60] := by
  have hkept : Kept oneMinute := ⟨by decide, by decide, by decide⟩
  obtain ⟨⟨after, hafter, -, hminutes, -⟩, -⟩ :=
    cacheAdd_newest hkept (by decide : ([minuteAt 60, minuteAt 0].map Bar.bucket).Nodup) "run"
  have hsorted : (([60] ++ [60, 0] : List Int).toFinset.sort) = [0, 60] := by
    rw [show ([60] ++ [60, 0] : List Int).toFinset = [0, 60].toFinset by decide]
    exact (List.toFinset_sort (· ≤ ·) (by decide)).mpr (by decide)
  refine ⟨after, hafter, hminutes.trans ?_⟩
  rw [show minutes oneMinute ++ [minuteAt 60, minuteAt 0].map Bar.bucket = [60] ++ [60, 0] by decide, hsorted]
  exact rtake_eq_self (by decide)

end FxTracker.Ingestor.Recovery
