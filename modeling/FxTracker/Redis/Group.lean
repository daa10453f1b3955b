import FxTracker.Lib.Ascending
import Mathlib.Data.List.Nodup
import Mathlib.Order.Defs.LinearOrder

/-!
# A stream and its consumer group

What `XADD`, `XREADGROUP`, `XACK` and `XAUTOCLAIM` do to one stream with one consumer group.
Ids are of any linear order, payloads and consumer names of any type.

Every entry is undelivered, or delivered and pending for one consumer, or acknowledged. Nothing
is deleted from the stream here, so the pending list can hold the entries themselves.

That the ids ascend and that the pending entries are delivered ones, in their order, is part of
the type.
-/

namespace FxTracker.Redis

/-- A stream, oldest entry first, with its group. -/
structure Group (ι α κ : Type*) [LT ι] where
  log : List (ι × α)
  /-- How many entries the group has delivered: `last-delivered-id` as a position. -/
  delivered : Nat
  /-- The pending entries list, by id, with the consumer each entry is pending for. -/
  pel : List ((ι × α) × κ)
  ascending : log.Pairwise fun e f => e.1 < f.1
  delivered_le : delivered ≤ log.length
  pel_sublist : (pel.map Prod.fst).Sublist (log.take delivered)

namespace Group

variable {ι α κ : Type*} [LinearOrder ι]

local instance lawfulBEq_id : LawfulBEq ι := inferInstance

/-- `XGROUP CREATE … 0 MKSTREAM` on a stream that is not there. -/
def empty : Group ι α κ := ⟨[], 0, [], List.Pairwise.nil, Nat.le_refl _, List.Sublist.slnil⟩

/-- A stream of these entries of which none is delivered yet. -/
def ofLog (log : List (ι × α)) (h : log.Pairwise fun e f => e.1 < f.1) : Group ι α κ :=
  ⟨log, 0, [], h, Nat.zero_le _, List.nil_sublist _⟩

/-- `XADD` takes an id above every id of the stream, and refuses any other. -/
def xadd (g : Group ι α κ) (id : ι) (a : α) : Option (Group ι α κ) :=
  if h : ∀ e ∈ g.log, e.1 < id then
    some
      { g with
        log := g.log ++ [(id, a)]
        ascending := List.pairwise_append.mpr
          ⟨g.ascending, List.pairwise_singleton .., fun e he f hf => by
            rw [List.mem_singleton.mp hf]; exact h e he⟩
        delivered_le := by
          rw [List.length_append]
          exact Nat.le_trans g.delivered_le (Nat.le_add_right ..)
        pel_sublist := by
          rw [List.take_append_of_le_length g.delivered_le]
          exact g.pel_sublist }
  else none

/-- The next `count` entries nobody has been given. -/
def fresh (g : Group ι α κ) (count : Nat) : List (ι × α) := (g.log.drop g.delivered).take count

theorem take_delivered_append_fresh (g : Group ι α κ) (count : Nat) :
    g.log.take (g.delivered + (g.fresh count).length) = g.log.take g.delivered ++ g.fresh count := by
  rw [List.take_add]
  exact congrArg _ (List.prefix_iff_eq_take.mp (List.take_prefix ..)).symm

/-- `XREADGROUP … >`: the next `count` entries, from now on pending for the reader. -/
def xreadNew (g : Group ι α κ) (consumer : κ) (count : Nat) : Group ι α κ :=
  { g with
    delivered := g.delivered + (g.fresh count).length
    pel := g.pel ++ (g.fresh count).map (·, consumer)
    delivered_le := by
      have hle := g.delivered_le
      simp only [fresh, List.length_take, List.length_drop]
      omega
    pel_sublist := by
      rw [take_delivered_append_fresh, List.map_append, List.map_map]
      have hid : (g.fresh count).map (Prod.fst ∘ fun e => (e, consumer)) = g.fresh count :=
        List.map_id _
      rw [hid]
      exact g.pel_sublist.append (List.Sublist.refl _) }

/-- `XACK`, whoever the entries are pending for. -/
def xack (g : Group ι α κ) (ids : List ι) : Group ι α κ :=
  { g with
    pel := g.pel.filter (·.1.1 ∉ ids)
    pel_sublist := (List.filter_sublist.map _).trans g.pel_sublist }

section Pending

variable [DecidableEq κ]

/-- What is pending for a consumer. -/
def pendingOf (g : Group ι α κ) (consumer : κ) : List (ι × α) :=
  (g.pel.filter (·.2 = consumer)).map Prod.fst

theorem pendingOf_eq [Subsingleton κ] (g : Group ι α κ) (consumer : κ) :
    g.pendingOf consumer = g.pel.map Prod.fst := by
  rw [pendingOf, List.filter_eq_self.mpr fun p _ => decide_eq_true (Subsingleton.elim p.2 consumer)]

/-- `XREADGROUP … 0`: the consumer's oldest pending entries again. -/
def xreadPending (g : Group ι α κ) (consumer : κ) (count : Nat) : List (ι × α) :=
  (g.pendingOf consumer).take count

end Pending

/-- The scan of `XAUTOCLAIM`: it takes the entries that are idle enough until it has `count` of
them or has tried ten times as many, and answers the id it would go on from. -/
def claimScan (idle : ι → Bool) :
    List ((ι × α) × κ) → (count attempts : Nat) → List (ι × α) × Option ι
  | [], _, _ => ([], none)
  | p :: rest, count, attempts =>
    if count = 0 ∨ attempts = 0 then ([], some p.1.1)
    else if idle p.1.1 then
      let (claimed, next) := claimScan idle rest (count - 1) (attempts - 1)
      (p.1 :: claimed, next)
    else claimScan idle rest count (attempts - 1)

/-- What `XAUTOCLAIM` from the id `start` (`none` is `0-0`) claims, and where it would go on. -/
def claimable (g : Group ι α κ) (idle : ι → Bool) (start : Option ι) (count : Nat) :
    List (ι × α) × Option ι :=
  claimScan idle (g.pel.filter fun p => ∀ s ∈ start, s ≤ p.1.1) count (10 * count)

/-- `XAUTOCLAIM`: the entries claimed are from now on pending for the claimer. -/
def xautoclaim (g : Group ι α κ) (consumer : κ) (claimed : List (ι × α)) : Group ι α κ :=
  { g with
    pel := g.pel.map fun p => if p.1.1 ∈ claimed.map Prod.fst then (p.1, consumer) else p
    pel_sublist := by
      rw [List.map_map]
      have hfst : (Prod.fst ∘ fun p : (ι × α) × κ =>
          if p.1.1 ∈ claimed.map Prod.fst then (p.1, consumer) else p) = Prod.fst := by
        funext p
        simp only [Function.comp]
        split <;> rfl
      rw [hfst]
      exact g.pel_sublist }

/-- The entries that are delivered and no longer pending. -/
def acked (g : Group ι α κ) : List (ι × α) :=
  (g.log.take g.delivered).filter fun e => e.1 ∉ g.pel.map (·.1.1)

theorem mem_acked_iff {g : Group ι α κ} {e : ι × α} :
    e ∈ g.acked ↔ e ∈ g.log.take g.delivered ∧ e.1 ∉ g.pel.map (·.1.1) := by
  simp [acked]

theorem mem_log_of_mem_pel {g : Group ι α κ} {p : (ι × α) × κ} (h : p ∈ g.pel) : p.1 ∈ g.log :=
  List.mem_of_mem_take (g.pel_sublist.subset (List.mem_map_of_mem h))

/-- An id names one entry. -/
theorem eq_of_id_eq {g : Group ι α κ} {e f : ι × α} (he : e ∈ g.log) (hf : f ∈ g.log)
    (h : e.1 = f.1) : e = f :=
  eq_of_key_eq g.ascending he hf h

/-! ## What each command acknowledges -/

variable {g g' : Group ι α κ} {e : ι × α}

/-- `XADD` in the terms of the record it leaves. -/
theorem xadd_eq_some {id : ι} {a : α} (h : g.xadd id a = some g') :
    g'.log = g.log ++ [(id, a)] ∧ g'.delivered = g.delivered ∧ g'.pel = g.pel := by
  unfold xadd at h
  split at h
  · cases h; exact ⟨rfl, rfl, rfl⟩
  · cases h

theorem acked_xadd {id : ι} {a : α} (h : g.xadd id a = some g') : g'.acked = g.acked := by
  obtain ⟨hlog, hdel, hpel⟩ := xadd_eq_some h
  rw [acked, acked, hlog, hdel, hpel, List.take_append_of_le_length g.delivered_le]

theorem acked_xreadNew (g : Group ι α κ) (consumer : κ) (count : Nat) :
    ∀ e ∈ (g.xreadNew consumer count).acked, e ∈ g.acked := by
  intro e he
  rw [mem_acked_iff] at he ⊢
  obtain ⟨htake, hpel⟩ := he
  simp only [xreadNew, List.map_append, List.map_map, List.mem_append, not_or] at htake hpel
  rw [take_delivered_append_fresh, List.mem_append] at htake
  obtain ⟨hold, hnew⟩ := hpel
  refine ⟨htake.resolve_right fun hf => hnew ?_, hold⟩
  exact List.mem_map.mpr ⟨e, hf, rfl⟩

/-- A claim changes nothing but whom the entries are pending for. -/
theorem map_fst_pel_xautoclaim (g : Group ι α κ) (consumer : κ) (claimed : List (ι × α)) :
    (g.xautoclaim consumer claimed).pel.map Prod.fst = g.pel.map Prod.fst := by
  rw [xautoclaim, List.map_map]
  refine List.map_congr_left fun p _ => ?_
  simp only [Function.comp]
  split <;> rfl

theorem acked_xautoclaim (g : Group ι α κ) (consumer : κ) (claimed : List (ι × α)) :
    (g.xautoclaim consumer claimed).acked = g.acked := by
  have hids : (g.xautoclaim consumer claimed).pel.map (·.1.1) = g.pel.map (·.1.1) := by
    have hfst := congrArg (List.map Prod.fst) (map_fst_pel_xautoclaim g consumer claimed)
    rw [List.map_map, List.map_map] at hfst
    exact hfst
  rw [acked, hids]
  rfl

/-- **`XACK` acknowledges only the ids it is given.** -/
theorem acked_xack {ids : List ι} (h : e ∈ (g.xack ids).acked) : e ∈ g.acked ∨ e.1 ∈ ids := by
  rw [mem_acked_iff] at h
  rw [mem_acked_iff]
  by_cases hid : e.1 ∈ ids
  · exact Or.inr hid
  · refine Or.inl ⟨h.1, fun hp => h.2 ?_⟩
    obtain ⟨p, hp, hpe⟩ := List.mem_map.mp hp
    refine List.mem_map.mpr ⟨p, List.mem_filter.mpr ⟨hp, ?_⟩, hpe⟩
    exact decide_eq_true (hpe ▸ hid)

theorem mem_pel_xack {ids : List ι} {p : (ι × α) × κ} :
    p ∈ (g.xack ids).pel ↔ p ∈ g.pel ∧ p.1.1 ∉ ids := by
  rw [xack, List.mem_filter, decide_eq_true_iff]

/-- The pending entries are in the order of their ids. -/
theorem pairwise_pel (g : Group ι α κ) : g.pel.Pairwise fun p q => p.1.1 < q.1.1 := by
  have hids : (g.pel.map Prod.fst).Pairwise fun e f => e.1 < f.1 :=
    (g.ascending.sublist (List.take_sublist ..)).sublist g.pel_sublist
  rw [List.pairwise_map] at hids
  exact hids

/-- An id is pending once. -/
theorem eq_of_mem_pel {p q : (ι × α) × κ} (hp : p ∈ g.pel) (hq : q ∈ g.pel) (h : p.1.1 = q.1.1) :
    p = q :=
  eq_of_key_eq g.pairwise_pel hp hq h

theorem pel_xack_eq_nil {ids : List ι} (h : ∀ p ∈ g.pel, p.1.1 ∈ ids) : (g.xack ids).pel = [] := by
  rw [List.eq_nil_iff_forall_not_mem]
  intro p hp
  obtain ⟨hmem, hne⟩ := mem_pel_xack.mp hp
  exact hne (h p hmem)

theorem length_pel_xack_lt {ids : List ι} {p : (ι × α) × κ} (hp : p ∈ g.pel) (hid : p.1.1 ∈ ids) :
    (g.xack ids).pel.length < g.pel.length := by
  refine Nat.lt_of_le_of_ne (List.length_filter_le ..) fun heq => ?_
  have hall := List.length_filter_eq_length_iff.mp heq p hp
  rw [decide_eq_true_iff] at hall
  exact hall hid

/-- Of elements with ascending ids, those whose ids are not among the first ones' are the others. -/
theorem filter_notMem_take {β : Type*} {f : β → ι} {l : List β} (h : l.Pairwise fun p q => f p < f q)
    (n : Nat) : l.filter (fun p => f p ∉ (l.take n).map f) = l.drop n := by
  generalize hmarks : (l.take n).map f = ids
  rw [← List.take_append_drop n l] at h
  obtain ⟨-, -, hlt⟩ := List.pairwise_append.mp h
  have htake : (l.take n).filter (fun p => f p ∉ ids) = [] := by
    refine List.filter_eq_nil_iff.mpr fun p hp => ?_
    rw [decide_eq_true_iff, not_not, ← hmarks]
    exact List.mem_map_of_mem hp
  have hdrop : (l.drop n).filter (fun p => f p ∉ ids) = l.drop n := by
    refine List.filter_eq_self.mpr fun p hp => ?_
    rw [decide_eq_true_iff, ← hmarks]
    intro hmem
    obtain ⟨q, hq, heq⟩ := List.mem_map.mp hmem
    exact ne_of_lt (hlt q hq p hp) heq
  calc l.filter (fun p => f p ∉ ids)
      = (l.take n ++ l.drop n).filter (fun p => f p ∉ ids) := by rw [List.take_append_drop]
    _ = l.drop n := by rw [List.filter_append, htake, hdrop, List.nil_append]

/-- Acknowledging the oldest pending entries leaves the others. -/
theorem pel_xack_take (g : Group ι α κ) (n : Nat) :
    (g.xack (((g.pel.map Prod.fst).take n).map Prod.fst)).pel = g.pel.drop n := by
  rw [← List.map_take, List.map_map]
  exact filter_notMem_take (f := fun p : (ι × α) × κ => p.1.1) g.pairwise_pel n

section

variable [DecidableEq κ] {consumer : κ}

/-- What is pending for a consumer is in the order of the ids. -/
theorem pairwise_pendingOf (g : Group ι α κ) (consumer : κ) :
    (g.pendingOf consumer).Pairwise fun e f => e.1 < f.1 := by
  have hpel := g.pairwise_pel.sublist (List.filter_sublist (p := fun p => p.2 = consumer))
  rw [pendingOf, List.pairwise_map]
  exact hpel

theorem xreadPending_eq_nil_iff {count : Nat} (h : 0 < count) :
    g.xreadPending consumer count = [] ↔ g.pendingOf consumer = [] := by
  rw [xreadPending, List.take_eq_nil_iff]
  exact or_iff_right (Nat.ne_of_gt h)

theorem pendingOf_xack (ids : List ι) :
    (g.xack ids).pendingOf consumer = (g.pendingOf consumer).filter fun e => e.1 ∉ ids := by
  rw [pendingOf, pendingOf, xack, List.filter_map, List.filter_filter, List.filter_filter]
  simp only [Function.comp_apply, Bool.and_comm]

/-- Acknowledging the oldest pending entries of a consumer leaves it the others. -/
theorem pendingOf_xack_xreadPending (count : Nat) :
    (g.xack ((g.xreadPending consumer count).map Prod.fst)).pendingOf consumer =
      (g.pendingOf consumer).drop count := by
  rw [pendingOf_xack, xreadPending]
  exact filter_notMem_take (f := Prod.fst) (g.pairwise_pendingOf consumer) count

end

theorem mem_log_of_mem_acked (h : e ∈ g.acked) : e ∈ g.log :=
  List.mem_of_mem_take (mem_acked_iff.mp h).1

/-- Where everything is acknowledged nothing is pending. -/
theorem pel_eq_nil_of_forall_acked (h : ∀ e ∈ g.log, e ∈ g.acked) : g.pel = [] := by
  rw [List.eq_nil_iff_forall_not_mem]
  intro p hp
  exact (mem_acked_iff.mp (h p.1 (mem_log_of_mem_pel hp))).2 (List.mem_map_of_mem hp)

/-- Where everything is acknowledged everything is delivered. -/
theorem take_delivered_of_forall_acked (h : ∀ e ∈ g.log, e ∈ g.acked) :
    g.log.take g.delivered = g.log := by
  have hasc := g.ascending
  rw [← List.take_append_drop g.delivered g.log] at hasc
  have hdrop : g.log.drop g.delivered = [] := by
    rw [List.eq_nil_iff_forall_not_mem]
    intro e he
    have htake := (mem_acked_iff.mp (h e (List.mem_of_mem_drop he))).1
    exact absurd ((List.pairwise_append.mp hasc).2.2 e htake e he) (lt_irrefl _)
  exact List.take_of_length_le (List.drop_eq_nil_iff.mp hdrop)

/-- What comes before a delivered entry is delivered. -/
theorem mem_delivered_of_le (g : Group ι α κ) {e f : ι × α} (hf : f ∈ g.log.take g.delivered) (he : e ∈ g.log)
    (hle : e.1 ≤ f.1) : e ∈ g.log.take g.delivered := by
  have hasc := g.ascending
  rw [← List.take_append_drop g.delivered g.log] at hasc he
  refine (List.mem_append.mp he).resolve_right fun hlater => ?_
  exact absurd hle (not_le.mpr ((List.pairwise_append.mp hasc).2.2 f hf e hlater))

theorem delivered_eq_length {count : Nat} (h : g.fresh count = []) (hpos : 0 < count) :
    g.delivered = g.log.length := by
  have hle := g.delivered_le
  rcases List.take_eq_nil_iff.mp h with h0 | hdrop
  · omega
  · have hlen := List.drop_eq_nil_iff.mp hdrop
    omega

theorem mem_log_of_mem_fresh {count : Nat} (h : e ∈ g.fresh count) : e ∈ g.log :=
  List.mem_of_mem_drop (List.mem_of_mem_take h)

theorem mem_log_of_mem_xreadPending [DecidableEq κ] {consumer : κ} {count : Nat}
    (h : e ∈ g.xreadPending consumer count) : e ∈ g.log := by
  obtain ⟨p, hp, rfl⟩ := List.mem_map.mp (List.mem_of_mem_take h)
  exact mem_log_of_mem_pel (List.mem_filter.mp hp).1

omit [LinearOrder ι] in
theorem mem_of_mem_claimScan {idle : ι → Bool} {l : List ((ι × α) × κ)} {count attempts : Nat}
    (h : e ∈ (claimScan idle l count attempts).1) : e ∈ l.map Prod.fst := by
  induction l generalizing count attempts with
  | nil => cases h
  | cons p l ih =>
    rw [claimScan] at h
    split at h
    · cases h
    · split at h
      · rcases List.mem_cons.mp h with rfl | h
        · exact List.mem_cons_self ..
        · exact List.mem_cons_of_mem _ (ih h)
      · exact List.mem_cons_of_mem _ (ih h)

omit [LinearOrder ι] in
/-- With everything idle enough the scan takes the oldest, and would go on from the next. -/
theorem claimScan_all (l : List ((ι × α) × κ)) {count attempts : Nat} (h : count ≤ attempts) :
    claimScan (fun _ => true) l count attempts =
      ((l.map Prod.fst).take count, (l.drop count).head?.map (·.1.1)) := by
  induction l generalizing count attempts with
  | nil => simp [claimScan]
  | cons p l ih =>
    cases count with
    | zero => simp [claimScan]
    | succ count =>
      have hne : ¬ (count + 1 = 0 ∨ attempts = 0) := by omega
      rw [claimScan, if_neg hne, if_pos rfl, ih (by omega)]
      rfl

omit [LinearOrder ι] in
theorem claimScan_of_busy {idle : ι → Bool} {l : List ((ι × α) × κ)}
    (h : ∀ p ∈ l, idle p.1.1 = false) (count attempts : Nat) :
    (claimScan idle l count attempts).1 = [] := by
  rw [List.eq_nil_iff_forall_not_mem]
  intro e he
  induction l generalizing count attempts with
  | nil => cases he
  | cons p l ih =>
    rw [claimScan] at he
    split at he
    · cases he
    · rw [h p (List.mem_cons_self ..)] at he
      exact ih (fun q hq => h q (List.mem_cons_of_mem _ hq)) _ _ he

theorem claimable_all {start : Option ι} (h : ∀ id ∈ start, ∀ p ∈ g.pel, id ≤ p.1.1) (count : Nat) :
    g.claimable (fun _ => true) start count =
      ((g.pel.map Prod.fst).take count, (g.pel.drop count).head?.map (·.1.1)) := by
  have hall : g.pel.filter (fun p => ∀ s ∈ start, s ≤ p.1.1) = g.pel :=
    List.filter_eq_self.mpr fun p hp => decide_eq_true fun s hs => h s hs p hp
  rw [claimable, hall]
  exact claimScan_all _ (by omega)

/-- What a claim of the oldest leaves is not before the id it would go on from. -/
theorem mem_take_or_next_le {p : (ι × α) × κ} (hp : p ∈ g.pel) (count : Nat) :
    p.1 ∈ (g.pel.map Prod.fst).take count ∨
      ∃ next, (g.pel.drop count).head?.map (·.1.1) = some next ∧ next ≤ p.1.1 := by
  have hasc := g.pairwise_pel
  rw [← List.take_append_drop count g.pel, List.mem_append] at hp
  rcases hp with hp | hp
  · left
    rw [← List.map_take]
    exact List.mem_map_of_mem hp
  · right
    have hdrop := hasc.sublist (List.drop_sublist count g.pel)
    cases h : g.pel.drop count with
    | nil => rw [h] at hp; cases hp
    | cons q rest =>
      rw [h] at hp hdrop
      refine ⟨q.1.1, rfl, ?_⟩
      rcases List.mem_cons.mp hp with rfl | hp
      · exact le_refl _
      · exact le_of_lt ((List.pairwise_cons.mp hdrop).1 p hp)

theorem claimable_of_busy {idle : ι → Bool} (h : ∀ p ∈ g.pel, idle p.1.1 = false)
    (start : Option ι) (count : Nat) : (g.claimable idle start count).1 = [] :=
  claimScan_of_busy (fun p hp => h p (List.mem_of_mem_filter hp)) _ _

theorem xreadNew_of_fresh_eq_nil {count : Nat} (h : g.fresh count = []) (consumer : κ) :
    g.xreadNew consumer count = g := by
  cases g
  simp only [xreadNew, mk.injEq, true_and, h]
  simp

/-- A single consumer has nothing to claim from another. -/
theorem xautoclaim_eq [Subsingleton κ] (g : Group ι α κ) (consumer : κ) (claimed : List (ι × α)) :
    g.xautoclaim consumer claimed = g := by
  have hid : (fun p : (ι × α) × κ => if p.1.1 ∈ claimed.map Prod.fst then (p.1, consumer) else p) =
      id := by
    funext p
    split
    · exact Prod.ext rfl (Subsingleton.elim consumer p.2)
    · rfl
  cases g
  simp only [xautoclaim, hid, List.map_id]

theorem xautoclaim_nil (g : Group ι α κ) (consumer : κ) : g.xautoclaim consumer [] = g := by
  cases g
  simp [xautoclaim]

theorem mem_log_of_mem_claimable {idle : ι → Bool} {start : Option ι} {count : Nat}
    (h : e ∈ (g.claimable idle start count).1) : e ∈ g.log := by
  obtain ⟨p, hp, rfl⟩ := List.mem_map.mp (mem_of_mem_claimScan h)
  exact mem_log_of_mem_pel (List.mem_filter.mp hp).1

end Group

end FxTracker.Redis
