import FxTracker.Redis.Group
import FxTracker.Worker.Persister

/-!
# The stream as the persisters leave it

At any time the delivered entries are a committed prefix `C` of the stream and the entries that await
their commit: `F`, which the leader has in hand, and the rest `R`. What is pending is some committed
entries `P`, whose `XACK` has not come yet, and all of `F` and `R`.

The watermark makes a merge depend on order, so a page must not mix committed and uncommitted
entries. `Queue.page` says that the next page does not; the other lemmas say what a read, a commit
and an `XACK` do to the cut.

* `Queue.page` — the next page of the pending entries replays committed ones or holds the next ones
* `Queue.commit_replay`, `Queue.commit_next` — the commit of such a page
* `Queue.xack` — the `XACK` of committed entries
-/

namespace FxTracker.Worker.Ticks

open Redis

variable {K κ : Type} [LinearOrder K] [FloatOps K] {cfg : PersisterConfig K}
  {g g' : Group StreamId Fields κ} {table table' : BarTable K} {C P F R H : List Entry}
  {m : Persister K}

/-- The delivered entries, cut into committed ones, those the leader has in hand and the rest. -/
structure Queue (cfg : PersisterConfig K) (g : Group StreamId Fields κ) (table : BarTable K)
    (C P F R : List Entry) : Prop where
  split : g.log.take g.delivered = C ++ (F ++ R)
  covers : Covers cfg table C
  pel : g.pel.map Prod.fst = P ++ (F ++ R)
  leftover : ∀ e ∈ P, e ∈ C
  /-- A page that begins with committed entries holds no others. -/
  aligned : P = [] ∨ F ++ R = [] ∨ P.length = cfg.flushMaxRows
  /-- The rest is pending for one consumer. -/
  owner : ∀ p ∈ g.pel, ∀ q ∈ g.pel, p.1 ∈ R → q.1 ∈ R → p.2 = q.2

/-- Acknowledging `H` leaves the pending entries aligned. -/
def AckSafe (P U H : List Entry) : Prop := U = [] ∨ (∀ e ∈ P, e ∈ H) ∨ ∀ e ∈ P, e ∉ H

/-- Between two pages: the rest is not behind committed entries of another consumer. -/
def Rested (κ : Type) (P R : List Entry) : Prop := Subsingleton κ ∨ R = [] ∨ P = []

/-- The watermark of the entry's row is not below it: a merge at that row would skip it. -/
def Settled (cfg : PersisterConfig K) (table : BarTable K) (e : Entry) : Prop :=
  ∃ x ∈ entryPrice cfg e.2, ∃ r ∈ table.get? x.1, e.1 ≤ r.lastStreamId

/-- What a page of the pending entries can be, while the leader has nothing in hand: committed
entries, or the next of the rest. -/
def Page (cfg : PersisterConfig K) (C P R H : List Entry) : Prop :=
  ((∀ e ∈ H, e ∈ C) ∧ AckSafe P R H) ∨
    (P = [] ∧ ∃ R', R = H ++ R' ∧ (R' = [] ∨ H.length = cfg.flushMaxRows))

theorem queue_empty (cfg : PersisterConfig K) :
    Queue cfg (.empty : Group StreamId Fields κ) .empty [] [] [] [] where
  split := rfl
  covers := covers_empty cfg
  pel := rfl
  leftover := fun _ h => by cases h
  aligned := .inl rfl
  owner := fun _ h => by cases h

namespace Queue

theorem ascending (hq : Queue cfg g table C P F R) :
    (C ++ (F ++ R)).Pairwise fun x y => x.1 < y.1 := by
  rw [← hq.split]
  exact g.ascending.sublist (List.take_sublist ..)

/-- Committed entries come before the others. -/
theorem lt_of_mem (hq : Queue cfg g table C P F R) {x y : Entry} (hx : x ∈ C) (hy : y ∈ F ++ R) :
    x.1 < y.1 :=
  (List.pairwise_append.mp hq.ascending).2.2 x hx y hy

theorem ascending_pel (hq : Queue cfg g table C P F R) :
    (P ++ (F ++ R)).Pairwise fun x y => x.1 < y.1 := by
  rw [← hq.pel]
  exact (g.ascending.sublist (List.take_sublist ..)).sublist g.pel_sublist

theorem mem_log (hq : Queue cfg g table C P F R) {e : Entry} (he : e ∈ C ++ (F ++ R)) :
    e ∈ g.log := by
  rw [← hq.split] at he
  exact List.mem_of_mem_take he

/-- What is acknowledged is committed. -/
theorem mem_of_mem_acked (hq : Queue cfg g table C P F R) {e : Entry} (he : e ∈ g.acked) : e ∈ C := by
  obtain ⟨htake, hpel⟩ := Group.mem_acked_iff.mp he
  rw [hq.split] at htake
  refine (List.mem_append.mp htake).resolve_right fun hu => hpel ?_
  have hmem : e ∈ g.pel.map Prod.fst := by
    rw [hq.pel]
    exact List.mem_append_right _ hu
  obtain ⟨p, hp, rfl⟩ := List.mem_map.mp hmem
  exact List.mem_map_of_mem hp

/-- Where every pending entry is settled, none awaits its commit. -/
theorem rest_eq_nil (hq : Queue cfg g table C P F R) (h : ∀ p ∈ g.pel, Settled cfg table p.1) :
    F ++ R = [] := by
  rw [List.eq_nil_iff_forall_not_mem]
  intro e he
  have hmem : e ∈ g.pel.map Prod.fst := by
    rw [hq.pel]
    exact List.mem_append_right _ he
  obtain ⟨p, hp, rfl⟩ := List.mem_map.mp hmem
  obtain ⟨x, -, r, hr, hle⟩ := h p hp
  have hsum := hq.covers.marked x.1
  rw [Option.mem_def.mp hr] at hsum
  obtain ⟨y, hy, hmark⟩ := mark_mem hsum.symm
  obtain ⟨c, hc, hid, -⟩ := mem_pricesOf_iff.mp hy
  have hlt := hq.lt_of_mem hc he
  rw [hid, hmark] at hlt
  exact absurd hle (not_le.mpr hlt)

/-! ## Pages -/

/-- **The next page** of the pending entries does not mix committed and uncommitted ones. -/
theorem page (hq : Queue cfg g table C P [] R) :
    Page cfg C P R ((P ++ R).take cfg.flushMaxRows) := by
  rcases hq.aligned with rfl | hR | hlen
  · refine .inr ⟨rfl, R.drop cfg.flushMaxRows, (List.take_append_drop ..).symm, ?_⟩
    by_cases h : R.length ≤ cfg.flushMaxRows
    · exact .inl (List.drop_eq_nil_of_le h)
    · right
      rw [List.nil_append, List.length_take]
      omega
  · rw [List.nil_append] at hR
    subst hR
    rw [List.append_nil]
    exact .inl ⟨fun e he => hq.leftover e (List.mem_of_mem_take he), .inl rfl⟩
  · rw [List.take_left' hlen]
    exact .inl ⟨hq.leftover, .inr (.inl fun _ he => he)⟩

/-- A page of the worker's own entries. -/
theorem page_own [DecidableEq κ] (hq : Queue cfg g table C P [] R) (hr : Rested κ P R) {c : κ}
    (hne : g.xreadPending c cfg.flushMaxRows ≠ []) :
    Page cfg C P R (g.xreadPending c cfg.flushMaxRows) := by
  have hall : (∀ p ∈ g.pel, p.2 = c) → Page cfg C P R (g.xreadPending c cfg.flushMaxRows) := by
    intro h
    have hpending : g.pendingOf c = P ++ R := by
      rw [Group.pendingOf, List.filter_eq_self.mpr fun p hp => decide_eq_true (h p hp), hq.pel,
        List.nil_append]
    rw [Group.xreadPending, hpending]
    exact hq.page
  rcases hr with hsub | rfl | rfl
  · exact hall fun p _ => Subsingleton.elim ..
  · refine .inl ⟨fun e he => ?_, .inl rfl⟩
    obtain ⟨p, hp, rfl⟩ := List.mem_map.mp (List.mem_of_mem_take he)
    have hmem : p.1 ∈ g.pel.map Prod.fst := List.mem_map_of_mem (List.mem_filter.mp hp).1
    rw [hq.pel, List.append_nil, List.append_nil] at hmem
    exact hq.leftover _ hmem
  · obtain ⟨e, he⟩ := List.exists_mem_of_ne_nil _ hne
    obtain ⟨p, hp, -⟩ := List.mem_map.mp (List.mem_of_mem_take he)
    obtain ⟨hp, hpc⟩ := List.mem_filter.mp hp
    have hrest : ∀ q ∈ g.pel, q.1 ∈ R := fun q hq' => by
      have hmem : q.1 ∈ g.pel.map Prod.fst := List.mem_map_of_mem hq'
      rw [hq.pel] at hmem
      exact hmem
    exact hall fun q hq' =>
      (hq.owner q hq' p hp (hrest q hq') (hrest p hp)).trans (of_decide_eq_true hpc)

/-- Taking the page in hand. -/
theorem take_page {R' : List Entry} (hq : Queue cfg g table C [] [] (H ++ R')) :
    Queue cfg g table C [] H R' where
  split := hq.split
  covers := hq.covers
  pel := hq.pel
  leftover := hq.leftover
  aligned := .inl rfl
  owner := fun p hp q hq' hpR hqR =>
    hq.owner p hp q hq' (List.mem_append_right _ hpR) (List.mem_append_right _ hqR)

/-- Letting go of what is in hand. -/
theorem drop_hand (hq : Queue cfg g table C P F R)
    (howner : ∀ p ∈ g.pel, ∀ q ∈ g.pel, p.1 ∈ F ++ R → q.1 ∈ F ++ R → p.2 = q.2) :
    Queue cfg g table C P [] (F ++ R) where
  split := hq.split
  covers := hq.covers
  pel := hq.pel
  leftover := hq.leftover
  aligned := hq.aligned
  owner := howner

/-! ## Commits -/

theorem commit_replay (hq : Queue cfg g table C P F R) (hm : m.Holds cfg H) (hH : ∀ e ∈ H, e ∈ C)
    (hu : upsertBars cfg.instruments table m.batch = some table') :
    Queue cfg g table' C P F R :=
  { hq with
    covers := covers_replay hq.covers hm hu (List.pairwise_append.mp hq.ascending).1 hH }

/-- **The commit of what the leader has in hand.** -/
theorem commit_next (hq : Queue cfg g table C [] F R) (hm : m.Holds cfg F)
    (hF : R = [] ∨ F.length = cfg.flushMaxRows)
    (hu : upsertBars cfg.instruments table m.batch = some table') :
    Queue cfg g table' (C ++ F) F [] R where
  split := by rw [hq.split, List.append_assoc, List.nil_append]
  covers := covers_commit hq.covers hm hu fun x hx y hy =>
    hq.lt_of_mem hx (List.mem_append_left _ hy)
  pel := hq.pel
  leftover := fun e he => List.mem_append_right _ he
  aligned := by
    rcases hF with rfl | hlen
    · exact .inr (.inl rfl)
    · exact .inr (.inr hlen)
  owner := hq.owner

/-! ## What the commands do to the cut -/

theorem xadd (hq : Queue cfg g table C P F R) {id : StreamId} {fields : Fields}
    (h : g.xadd id fields = some g') : Queue cfg g' table C P F R := by
  obtain ⟨hlog, hdel, hpel⟩ := Group.xadd_eq_some h
  refine ⟨?_, hq.covers, hpel ▸ hq.pel, hq.leftover, hq.aligned, hpel ▸ hq.owner⟩
  rw [hlog, hdel, List.take_append_of_le_length g.delivered_le]
  exact hq.split

/-- A read appends to what the leader has in hand, if nothing else is pending. -/
theorem xreadNew (hq : Queue cfg g table C [] F []) (c : κ) (count : Nat) :
    Queue cfg (g.xreadNew c count) table C [] (F ++ g.fresh count) [] where
  split := by
    have hsplit := hq.split
    rw [List.append_nil] at hsplit ⊢
    show g.log.take (g.delivered + (g.fresh count).length) = _
    rw [Group.take_delivered_append_fresh, hsplit, List.append_assoc]
  covers := hq.covers
  pel := by
    have hpel := hq.pel
    simp only [List.nil_append, List.append_nil] at hpel ⊢
    show (g.pel ++ (g.fresh count).map (·, c)).map Prod.fst = _
    rw [List.map_append, hpel, List.map_map]
    exact congrArg _ (List.map_id _)
  leftover := hq.leftover
  aligned := .inl rfl
  owner := fun _ _ _ _ h => by cases h

/-- The `XACK` of committed entries. -/
theorem xack (hq : Queue cfg g table C P F R) (hH : ∀ e ∈ H, e ∈ C) (hs : AckSafe P (F ++ R) H) :
    Queue cfg (g.xack (H.map Prod.fst)) table C (P.filter (·.1 ∉ H.map Prod.fst)) F R where
  split := hq.split
  covers := hq.covers
  pel := by
    have hkeep : (F ++ R).filter (·.1 ∉ H.map Prod.fst) = F ++ R := by
      refine List.filter_eq_self.mpr fun e he => decide_eq_true fun hmem => ?_
      obtain ⟨x, hx, hid⟩ := List.mem_map.mp hmem
      exact absurd hid (ne_of_lt (hq.lt_of_mem (hH x hx) he))
    show (g.pel.filter _).map Prod.fst = _
    rw [← hkeep, ← List.filter_append, ← hq.pel, List.filter_map]
    exact congrArg _ (List.filter_congr fun p _ => decide_eq_decide.mpr Iff.rfl)
  leftover := fun e he => hq.leftover e (List.mem_of_mem_filter he)
  aligned := by
    rcases hs with hU | hall | hnone
    · exact .inr (.inl hU)
    · left
      refine List.filter_eq_nil_iff.mpr fun e he => ?_
      simpa using ⟨e.2, hall e he⟩
    · have hkeep : P.filter (·.1 ∉ H.map Prod.fst) = P := by
        refine List.filter_eq_self.mpr fun e he => decide_eq_true fun hmem => ?_
        obtain ⟨x, hx, hid⟩ := List.mem_map.mp hmem
        have heq : x = e := Group.eq_of_id_eq
          (hq.mem_log (List.mem_append_left _ (hH x hx)))
          (hq.mem_log (List.mem_append_left _ (hq.leftover e he))) hid
        exact hnone e he (heq ▸ hx)
      rw [hkeep]
      exact hq.aligned
  owner := fun p hp q hq' =>
    hq.owner p (List.mem_of_mem_filter hp) q (List.mem_of_mem_filter hq')

/-- An `XAUTOCLAIM` that takes nothing of the rest. -/
theorem xautoclaim [DecidableEq κ] (hq : Queue cfg g table C P F R) (c : κ)
    (hH : ∀ e ∈ H, e ∈ g.log) (hd : ∀ e ∈ H, e ∉ R) :
    Queue cfg (g.xautoclaim c H) table C P F R where
  split := hq.split
  covers := hq.covers
  pel := (Group.map_fst_pel_xautoclaim ..).trans hq.pel
  leftover := hq.leftover
  aligned := hq.aligned
  owner := by
    have hsame : ∀ p ∈ (g.xautoclaim c H).pel, p.1 ∈ R → p ∈ g.pel := by
      intro p hp hpR
      obtain ⟨p₀, hp₀, rfl⟩ := List.mem_map.mp hp
      split at hpR
      · next hmem =>
        obtain ⟨e, he, hid⟩ := List.mem_map.mp hmem
        have heq : e = p₀.1 := Group.eq_of_id_eq (hH e he) (Group.mem_log_of_mem_pel hp₀) hid
        exact absurd hpR (heq ▸ hd e he)
      · next hmem =>
        rw [if_neg hmem]
        exact hp₀
    intro p hp q hq' hpR hqR
    exact hq.owner p (hsame p hp hpR) q (hsame q hq' hqR) hpR hqR

end Queue

end FxTracker.Worker.Ticks
