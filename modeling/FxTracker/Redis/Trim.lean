import FxTracker.Redis.Group

/-!
# Trimming a stream

What `XADD … MINID ~ <id>` deletes, beside what it adds. The `~` lets Redis keep entries the bound
would delete, so what is deleted lies below some bound that is no higher.

A deleted entry that nobody was given is never delivered. One that is pending stays in the pending
list and is answered from there without its fields, so the log keeps the ids of what is deleted.

* `undelivered_trim` — what is left to deliver is what was not deleted
* `mem_backlog_trim` — trimming adds nothing to what a group can still be answered
-/

namespace FxTracker.Redis.Group

variable {ι α κ : Type*} [LinearOrder ι] {g g' : Group ι α κ} {bound : ι} {blank : α} {e : ι × α}

/-- An entry after the entries below `bound` were deleted. -/
def blankBelow (bound : ι) (blank : α) (e : ι × α) : ι × α :=
  if e.1 < bound then (e.1, blank) else e

@[simp] theorem blankBelow_fst (bound : ι) (blank : α) (e : ι × α) :
    (blankBelow bound blank e).1 = e.1 := by
  unfold blankBelow
  split <;> rfl

/-- The stream without the entries below `bound`; `blank` is the payload of a deleted entry. -/
def trim (g : Group ι α κ) (bound : ι) (blank : α) : Group ι α κ where
  log := g.log.map (blankBelow bound blank)
  -- what is deleted before it is delivered is passed over
  delivered := max g.delivered (g.log.takeWhile (·.1 < bound)).length
  pel := g.pel.map fun p => (blankBelow bound blank p.1, p.2)
  ascending := by
    rw [List.pairwise_map]
    refine g.ascending.imp fun h => ?_
    rw [blankBelow_fst, blankBelow_fst]
    exact h
  delivered_le := by
    have hle := g.delivered_le
    have htake := (List.takeWhile_sublist (l := g.log) (·.1 < bound)).length_le
    rw [List.length_map]
    omega
  pel_sublist := by
    have hmap : (g.pel.map fun p => (blankBelow bound blank p.1, p.2)).map Prod.fst =
        (g.pel.map Prod.fst).map (blankBelow bound blank) := by
      rw [List.map_map, List.map_map]
      rfl
    rw [hmap, ← List.map_take]
    refine (g.pel_sublist.map _).trans (List.Sublist.map _ ?_)
    exact (List.take_prefix_take_left (Nat.le_max_left ..)).sublist

/-! ## What is left to deliver -/

/-- Entries that ascend from one that is not below a bound are none of them below it. -/
theorem bound_le_of_ascending {l : List (ι × α)} (h : (e :: l).Pairwise fun e f => e.1 < f.1)
    (he : ¬ e.1 < bound) : ∀ f ∈ e :: l, bound ≤ f.1 := by
  intro f hf
  rcases List.mem_cons.mp hf with rfl | hf
  · exact not_lt.mp he
  · exact le_of_lt (lt_of_le_of_lt (not_lt.mp he) ((List.pairwise_cons.mp h).1 f hf))

/-- From any position on, ascending entries that are not below a bound are those after all that are. -/
theorem filter_drop_eq {l : List (ι × α)} (h : l.Pairwise fun e f => e.1 < f.1) (bound : ι) (n : Nat) :
    (l.drop n).filter (fun e => bound ≤ e.1) =
      l.drop (max n (l.takeWhile (·.1 < bound)).length) := by
  induction l generalizing n with
  | nil => simp
  | cons e l ih =>
    have hl := (List.pairwise_cons.mp h).2
    by_cases he : e.1 < bound
    · rw [List.takeWhile_cons_of_pos (by simpa using he), List.length_cons]
      cases n with
      | zero =>
        rw [List.drop_zero, List.filter_cons_of_neg (by simpa using he), Nat.zero_max]
        exact (ih hl 0).trans (by rw [Nat.zero_max]; rfl)
      | succ n =>
        rw [List.drop_succ_cons, ih hl n, Nat.succ_max_succ]
        rfl
    · rw [List.takeWhile_cons_of_neg (by simpa using he), List.length_nil, Nat.max_zero]
      refine List.filter_eq_self.mpr fun f hf => decide_eq_true ?_
      exact bound_le_of_ascending h he f (List.mem_of_mem_drop hf)

/-- **What is left to deliver** is what was, without the entries below the bound. -/
theorem undelivered_trim (g : Group ι α κ) (bound : ι) (blank : α) :
    (g.trim bound blank).log.drop (g.trim bound blank).delivered =
      (g.log.drop g.delivered).filter fun e => bound ≤ e.1 := by
  have hkept : ∀ e ∈ (g.log.drop g.delivered).filter fun e => bound ≤ e.1,
      blankBelow bound blank e = e := by
    intro e he
    have hle : bound ≤ e.1 := of_decide_eq_true (List.mem_filter.mp he).2
    exact if_neg (not_lt.mpr hle)
  show (g.log.map _).drop (max g.delivered _) = _
  rw [← List.map_drop, ← filter_drop_eq g.ascending, List.map_congr_left hkept, List.map_id']

/-! ## What the group can still be answered -/

/-- The entries a consumer can still be given: those pending, and those nobody was given. -/
def backlog (g : Group ι α κ) : List (ι × α) := g.pel.map Prod.fst ++ g.log.drop g.delivered

theorem mem_backlog_iff : e ∈ g.backlog ↔ e ∈ g.pel.map Prod.fst ∨ e ∈ g.log.drop g.delivered :=
  List.mem_append

/-- **Trimming** takes entries out of the backlog, or their fields. -/
theorem mem_backlog_trim (h : e ∈ (g.trim bound blank).backlog) : e.2 = blank ∨ e ∈ g.backlog := by
  rw [mem_backlog_iff, undelivered_trim] at h
  rcases h with h | h
  · have hmap : (g.trim bound blank).pel.map Prod.fst =
        (g.pel.map Prod.fst).map (blankBelow bound blank) := by
      rw [trim, List.map_map, List.map_map]
      rfl
    rw [hmap] at h
    obtain ⟨f, hf, rfl⟩ := List.mem_map.mp h
    unfold blankBelow
    split
    · exact .inl rfl
    · exact .inr (mem_backlog_iff.mpr (.inl hf))
  · exact .inr (mem_backlog_iff.mpr (.inr (List.mem_of_mem_filter h)))

theorem mem_backlog_xadd {id : ι} {a : α} (hadd : g.xadd id a = some g') (h : e ∈ g'.backlog) :
    e ∈ g.backlog ∨ e = (id, a) := by
  obtain ⟨hlog, hdel, hpel⟩ := xadd_eq_some hadd
  rw [mem_backlog_iff, hlog, hdel, hpel, List.drop_append_of_le_length g.delivered_le,
    List.mem_append] at h
  rcases h with h | h | h
  · exact .inl (mem_backlog_iff.mpr (.inl h))
  · exact .inl (mem_backlog_iff.mpr (.inr h))
  · exact .inr (List.mem_singleton.mp h)

theorem mem_backlog_of_mem_fresh {count : Nat} (h : e ∈ g.fresh count) : e ∈ g.backlog :=
  mem_backlog_iff.mpr (.inr (List.mem_of_mem_take h))

theorem mem_backlog_xreadNew {consumer : κ} {count : Nat}
    (h : e ∈ (g.xreadNew consumer count).backlog) : e ∈ g.backlog := by
  rw [mem_backlog_iff] at h
  simp only [xreadNew, List.map_append, List.map_map, List.mem_append] at h
  rcases h with (h | h) | h
  · exact mem_backlog_iff.mpr (.inl h)
  · obtain ⟨f, hf, rfl⟩ := List.mem_map.mp h
    exact mem_backlog_of_mem_fresh hf
  · exact mem_backlog_iff.mpr (.inr ((List.drop_suffix_drop_left _ (Nat.le_add_right ..)).subset h))

theorem mem_backlog_xack {ids : List ι} (h : e ∈ (g.xack ids).backlog) : e ∈ g.backlog := by
  rw [mem_backlog_iff] at h ⊢
  refine h.imp_left fun h => ?_
  obtain ⟨p, hp, rfl⟩ := List.mem_map.mp h
  exact List.mem_map_of_mem (mem_pel_xack.mp hp).1

theorem mem_backlog_of_mem_xreadPending [DecidableEq κ] {consumer : κ} {count : Nat}
    (h : e ∈ g.xreadPending consumer count) : e ∈ g.backlog := by
  obtain ⟨p, hp, rfl⟩ := List.mem_map.mp (List.mem_of_mem_take h)
  exact mem_backlog_iff.mpr (.inl (List.mem_map_of_mem (List.mem_filter.mp hp).1))

theorem mem_backlog_of_mem_claimable {idle : ι → Bool} {start : Option ι} {count : Nat}
    (h : e ∈ (g.claimable idle start count).1) : e ∈ g.backlog := by
  obtain ⟨p, hp, rfl⟩ := List.mem_map.mp (mem_of_mem_claimScan h)
  exact mem_backlog_iff.mpr (.inl (List.mem_map_of_mem (List.mem_filter.mp hp).1))

theorem backlog_xautoclaim (g : Group ι α κ) (consumer : κ) (claimed : List (ι × α)) :
    (g.xautoclaim consumer claimed).backlog = g.backlog := by
  unfold backlog
  rw [map_fst_pel_xautoclaim]
  rfl

end FxTracker.Redis.Group
