import FxTracker.Worker.ExactlyOnce
import FxTracker.Worker.Returns

/-!
# Returns over any schedule

One persister under its lease. `drain_own_pending` clears `_last_price`, so a restart cuts the return
of the next tick of each symbol: the tick before it is not read again once it is acknowledged. As long
as no restart comes between an acknowledged tick and an uncommitted one that is linked to it, the rows
have the returns of the stream, wherever batches, failures and restarts fall.

* `solo_step` — such restarts keep the invariant `Solo`
* `same_returns` — two schedules that have acknowledged the same stream have the same returns
-/

namespace FxTracker.Worker.Ticks

open Redis

noncomputable section

variable {cfg : PersisterConfig ℝ} {L A H T C P U : List Entry} {s t : System ℝ Unit}
  {w : WorkerState ℝ} {m : Persister ℝ} {table' : BarTable ℝ}

/-! ## The condition on restarts -/

/-- The tick after an acknowledged one is committed, or it takes no return from it. -/
def System.KeepsLinks (s : System ℝ Unit) (cfg : PersisterConfig ℝ) (stream : List Entry) : Prop :=
  ∀ e ∈ s.group.acked, ∀ f, Next cfg stream e f → Linked cfg e f → Settled cfg s.table f

/-- One persister whose runs begin where no link is cut, on a stream that becomes `stream`. -/
def Unbroken (cfg : PersisterConfig ℝ) (stream : List Entry) (s : System ℝ Unit) (a : Action Unit) :
    Prop :=
  Alone cfg s a ∧ (a = .act () .acquire → s.KeepsLinks cfg stream)

/-! ## The invariant -/

/-- The table has the prices and the returns of exactly these entries. -/
structure Stored (cfg : PersisterConfig ℝ) (table : BarTable ℝ) (C : List Entry) : Prop where
  covers : Covers cfg table C
  returns : ∀ k, rowReturns table k = logReturns cfg k C

/-- Everything but the worker: the delivered entries are `A`, which are acknowledged, `H`, which the
worker has in memory, and `T`; the table has those of `C`. -/
structure Base (cfg : PersisterConfig ℝ) (L : List Entry) (s : System ℝ Unit) (A H T C : List Entry) :
    Prop where
  parses : ∀ e ∈ s.group.log, (parseTick cfg.codec e.2).isSome
  ahead : s.group.log <+: L
  delivered : s.group.log.take s.group.delivered = A ++ (H ++ T)
  pel : s.group.pel.map Prod.fst = H ++ T
  stored : Stored cfg s.table C

/-- Of the pending entries `T` the first may be committed; if so the next page is of such only. -/
def Resting (cfg : PersisterConfig ℝ) (A T C : List Entry) : Prop :=
  ∃ P U, C = A ++ P ∧ T = P ++ U ∧ (P = [] ∨ U = [] ∨ P.length = cfg.flushMaxRows)

/-- The page `H` before the committed entries `P` and the uncommitted `U`. -/
def Paged (cfg : PersisterConfig ℝ) (H P U : List Entry) : Prop :=
  U = [] ∨ P = [] ∧ H.length = cfg.flushMaxRows

/-- The page in memory is committed. -/
def Replayed (cfg : PersisterConfig ℝ) (A H T C : List Entry) : Prop :=
  ∃ P U, C = A ++ H ++ P ∧ T = P ++ U ∧ Paged cfg H P U

/-- In the loop the memory has every pending entry and its return. -/
structure Looping (cfg : PersisterConfig ℝ) (L A H T C : List Entry) (m : Persister ℝ) : Prop where
  rest : T = []
  committed : C = A
  holds : m.Holds cfg H
  knows : m.Knows cfg L A.length (A ++ H)
  sums : m.Sums cfg A H

/-- What holds of the worker, by where it stands. -/
def SoloOk (cfg : PersisterConfig ℝ) (L A H T C : List Entry) (w : WorkerState ℝ) : Prop :=
  match w.phase with
  | .stopped => H = [] ∧ Resting cfg A T C
  | .drain =>
    H = [] ∧ Resting cfg A T C ∧ w.memory.Holds cfg [] ∧ w.memory.Knows cfg L C.length A
  | .claim _ sweep => Looping cfg L A H T C w.memory ∧ (sweep = false → H = [])
  | .loopTop | .reading | .check | .sweepCheck => Looping cfg L A H T C w.memory
  | .flushing resume sweep =>
    sweep = false ∧ (resume = .drain ∨ T = []) ∧ w.memory.Holds cfg H ∧
      w.memory.Knows cfg L C.length (A ++ H) ∧
      (C = A ∧ w.memory.Sums cfg A H ∧ Paged cfg H [] T ∨ Replayed cfg A H T C)
  | .acking resume sweep =>
    sweep = false ∧ (resume = .drain ∨ T = []) ∧ w.memory.unacked = H.map Prod.fst ∧
      w.memory.Knows cfg L C.length (A ++ H) ∧ Replayed cfg A H T C

structure Solo (cfg : PersisterConfig ℝ) (L : List Entry) (s : System ℝ Unit) : Prop where
  lost : (s.worker ()).lost = false
  cut : ∃ A H T C, Base cfg L s A H T C ∧ SoloOk cfg L A H T C (s.worker ())

theorem solo_init (cfg : PersisterConfig ℝ) (L : List Entry) : Solo cfg L .init where
  lost := rfl
  cut := ⟨[], [], [], [],
    { parses := fun _ h => nomatch h
      ahead := List.nil_prefix
      delivered := rfl
      pel := rfl
      stored := ⟨covers_empty cfg, fun _ => rfl⟩ },
    rfl, [], [], rfl, rfl, .inl rfl⟩

/-! ### What it says -/

theorem Paged.resting (h : Paged cfg H P U) : Resting cfg A (H ++ (P ++ U)) (A ++ H ++ P) := by
  refine ⟨H ++ P, U, List.append_assoc .., (List.append_assoc ..).symm, ?_⟩
  rcases h with hU | ⟨rfl, hlen⟩
  · exact .inr (.inl hU)
  · rw [List.append_nil]
    exact .inr (.inr hlen)

theorem Paged.resting_acked (h : Paged cfg H P U) : Resting cfg (A ++ H) (P ++ U) (A ++ H ++ P) :=
  ⟨P, U, rfl, rfl, h.elim (fun hU => .inr (.inl hU)) fun hP => .inl hP.1⟩

theorem resting_of_uncommitted (T : List Entry) : Resting cfg A T A :=
  ⟨[], T, (List.append_nil A).symm, rfl, .inl rfl⟩

/-- Wherever the run ends, what is pending is aligned. -/
theorem SoloOk.resting (h : SoloOk cfg L A H T C w) : Resting cfg A (H ++ T) C := by
  unfold SoloOk at h
  have hloop : Looping cfg L A H T C w.memory → Resting cfg A (H ++ T) C := fun h => by
    rw [h.committed]
    exact resting_of_uncommitted _
  split at h
  · obtain ⟨rfl, hr⟩ := h
    exact hr
  · obtain ⟨rfl, hr, -⟩ := h
    exact hr
  · exact hloop h.1
  · exact hloop h
  · exact hloop h
  · exact hloop h
  · exact hloop h
  · obtain ⟨-, -, -, -, ⟨rfl, -⟩ | ⟨P, U, rfl, rfl, hp⟩⟩ := h
    · exact resting_of_uncommitted _
    · exact hp.resting
  · obtain ⟨-, -, -, -, P, U, rfl, rfl, hp⟩ := h
    exact hp.resting

theorem Resting.eq_of_nil (h : Resting cfg A [] C) : C = A := by
  obtain ⟨P, U, rfl, hT, -⟩ := h
  rw [(List.append_eq_nil_iff.mp hT.symm).1, List.append_nil]

namespace Base

/-- What was in memory is pending again. -/
theorem drop (hb : Base cfg L s A H T C) : Base cfg L s A [] (H ++ T) C :=
  { hb with }

theorem put (hb : Base cfg L t A H T C) (hlost : w.lost = false) (hok : SoloOk cfg L A H T C w) :
    Solo cfg L (t.put () w) where
  lost := by rw [System.worker_put_self]; exact hlost
  cut := ⟨A, H, T, C, { hb with }, by rw [System.worker_put_self]; exact hok⟩

/-- A run that ends. -/
theorem leave (hb : Base cfg L t A H T C) (hlost : w.lost = false) (hr : Resting cfg A (H ++ T) C)
    (memory : Persister ℝ) : Solo cfg L (t.leave () w memory) :=
  let h : Solo cfg L (t.put () { w with phase := .stopped, memory }) := hb.drop.put hlost ⟨rfl, hr⟩
  ⟨h.lost, h.cut.imp fun _ h => h.imp fun _ h => h.imp fun _ h => h.imp fun _ h =>
    ⟨{ h.1 with }, h.2⟩⟩

theorem failed (hb : Base cfg L t A H T C) (hlost : w.lost = false)
    (hr : Resting cfg A (H ++ T) C) {sweep : Bool}
    (hsweep : sweep = true → Looping cfg L A H T C w.memory) (failure : Failure) :
    Solo cfg L (t.failed () w sweep failure) := by
  cases failure with
  | redis =>
    unfold System.failed
    dsimp only
    split
    · next h => exact hb.put hlost (hsweep h)
    · exact hb.leave hlost hr _
  | os | other => exact hb.leave hlost hr _

theorem delivered_prefix (hb : Base cfg L s A H T C) : A ++ (H ++ T) <+: L := by
  rw [← hb.delivered]
  exact (List.take_prefix ..).trans hb.ahead

theorem ascending (hb : Base cfg L s A H T C) : (A ++ (H ++ T)).Pairwise fun x y => x.1 < y.1 := by
  rw [← hb.delivered]
  exact s.group.ascending.sublist (List.take_sublist ..)

/-- The acknowledged entries are. -/
theorem mem_acked (hb : Base cfg L s A H T C) {e : Entry} (he : e ∈ A) : e ∈ s.group.acked := by
  refine Group.mem_acked_iff.mpr ⟨?_, fun hmem => ?_⟩
  · rw [hb.delivered]
    exact List.mem_append_left _ he
  · obtain ⟨p, hp, hid⟩ := List.mem_map.mp hmem
    have hpel : p.1 ∈ H ++ T := by
      rw [← hb.pel]
      exact List.mem_map_of_mem hp
    exact absurd hid (ne_of_gt ((List.pairwise_append.mp hb.ascending).2.2 e he p.1 hpel))

theorem parses_pending (hb : Base cfg L s A H T C) :
    ∀ e ∈ H ++ T, (parseTick cfg.codec e.2).isSome := fun e he => by
  refine hb.parses e (List.mem_of_mem_take (i := s.group.delivered) ?_)
  rw [hb.delivered]
  exact List.mem_append_right _ he

/-- After an `XACK`, or a flush of nothing. -/
theorem goOn (hb : Base cfg L t A [] T C) (hlost : w.lost = false) (hm : w.memory.Holds cfg [])
    (hk : w.memory.Knows cfg L C.length A) (hr : Resting cfg A T C) {resume : Resume}
    (hres : resume = .drain ∨ T = []) : Solo cfg L (t.goOn () w resume) := by
  have hloop : T = [] → Looping cfg L A [] T C w.memory := by
    rintro rfl
    cases hr.eq_of_nil
    exact ⟨rfl, rfl, hm, by rwa [List.append_nil], hm.sums _⟩
  cases resume with
  | exit => exact hb.leave hlost hr _
  | drain => exact hb.put hlost ⟨rfl, hr, hm, hk⟩
  | claim next sweep => exact hb.put hlost ⟨hloop (hres.resolve_left nofun), fun _ => rfl⟩
  | loop | sweepCheck => exact hb.put hlost (hloop (hres.resolve_left nofun))

/-- In the loop a flush commits all there is in memory. -/
theorem beginFlush (hb : Base cfg L t A H T C) (hlost : w.lost = false)
    (hl : Looping cfg L A H T C w.memory) (resume : Resume) :
    Solo cfg L (t.beginFlush () w resume false) := by
  obtain ⟨rfl, rfl, hm, hk, hs⟩ := hl
  unfold System.beginFlush
  split
  · next hempty =>
    have hparse := hb.parses_pending
    rw [List.append_nil] at hparse
    cases (hm.accs_isEmpty hparse).mp hempty
    rw [List.append_nil] at hk
    exact hb.goOn hlost hm hk (resting_of_uncommitted _) (.inr rfl)
  · exact hb.put hlost ⟨rfl, .inr rfl, hm, hk, .inl ⟨rfl, hs, .inl rfl⟩⟩

/-- **A page of pending entries is folded in.** -/
theorem receive (hb : Base cfg L t A [] T C) (hlost : w.lost = false)
    (hm : w.memory.Holds cfg []) (hk : w.memory.Knows cfg L C.length A) (hr : Resting cfg A T C)
    (hne : T ≠ []) :
    Solo cfg L (t.receive () w cfg (T.take cfg.flushMaxRows) .drain false) := by
  unfold System.receive
  cases hfold : w.memory.ingestAll cfg (T.take cfg.flushMaxRows) with
  | none => exact hb.leave hlost hr _
  | some memory =>
    have hsplit := List.take_append_drop cfg.flushMaxRows T
    have hb' : Base cfg L t A (T.take cfg.flushMaxRows) (T.drop cfg.flushMaxRows) C :=
      { hb with
        delivered := by rw [hsplit]; exact hb.delivered
        pel := by rw [hsplit]; exact hb.pel }
    have hasc := (List.pairwise_append.mp hb'.ascending).2.1
    have hholds : memory.Holds cfg (T.take cfg.flushMaxRows) :=
      Persister.holds_ingestAll hm (List.pairwise_append.mp hasc).1 hfold
    have hparse : ∀ e ∈ T.take cfg.flushMaxRows, (parseTick cfg.codec e.2).isSome := fun e he =>
      hb'.parses_pending e (List.mem_append_left _ he)
    have hfull : memory.accs.isEmpty = false := by
      rw [← Bool.not_eq_true, hholds.accs_isEmpty hparse]
      intro hnil
      exact hne ((List.take_eq_nil_iff.mp hnil).resolve_left cfg.flushMaxRows_pos.ne')
    dsimp only
    unfold System.beginFlush
    rw [if_neg (by rw [hfull]; exact Bool.false_ne_true)]
    refine hb'.put hlost ⟨rfl, .inl rfl, hholds, hk.ingestAll hfold, ?_⟩
    obtain ⟨P, U, rfl, rfl, rfl | rfl | hlen⟩ := hr
    · -- nothing pending is committed
      rw [List.append_nil] at hk ⊢
      refine .inl ⟨rfl, ?_, ?_⟩
      · have hpre : A ++ [] ++ ([] ++ U).take cfg.flushMaxRows <+: L := by
          rw [List.append_nil]
          exact ((List.prefix_append_right_inj A).mpr (List.take_prefix ..)).trans hb.delivered_prefix
        exact (hm.sums A).ingestAll (by rwa [List.append_nil]) hpre hfold
      · by_cases h : ([] ++ U).length ≤ cfg.flushMaxRows
        · exact .inl (List.drop_eq_nil_of_le h)
        · exact .inr ⟨rfl, by rw [List.length_take]; omega⟩
    · -- all of it is
      simp only [List.append_nil]
      exact .inr ⟨P.drop cfg.flushMaxRows, [], by rw [List.append_assoc, List.take_append_drop],
        (List.append_nil _).symm, .inl rfl⟩
    · rw [List.take_left' hlen, List.drop_left' hlen]
      exact .inr ⟨[], U, (List.append_nil _).symm, rfl, .inr ⟨rfl, hlen⟩⟩

/-! ## The steps -/

/-- What is past the committed entries is not settled. -/
theorem not_settled (hb : Base cfg L s A H T C) (hL : L.Pairwise fun x y => x.1 < y.1)
    (hC : C <+: L) {D : List Entry} {f : Entry} (hD : D ++ [f] <+: L) (hlen : C.length ≤ D.length) :
    ¬ Settled cfg s.table f := by
  rintro ⟨x, -, r, hr, hle⟩
  have hsum := hb.stored.covers.marked x.1
  rw [Option.mem_def.mp hr] at hsum
  obtain ⟨y, hy, hmark⟩ := mark_mem hsum.symm
  obtain ⟨c, hc, hid, -⟩ := mem_pricesOf_iff.mp hy
  have hmem : c ∈ D :=
    (List.prefix_of_prefix_length_le hC ((List.prefix_append ..).trans hD) hlen).subset hc
  have hlt := (List.pairwise_append.mp (hL.sublist hD.sublist)).2.2 c hmem f (List.mem_singleton_self f)
  rw [hid, hmark] at hlt
  exact absurd hle (not_le.mpr hlt)

theorem committed_prefix (hb : Base cfg L s A H T C) (hr : Resting cfg A (H ++ T) C) : C <+: L := by
  obtain ⟨P, U, rfl, hT, -⟩ := hr
  have hpre := hb.delivered_prefix
  rw [hT, ← List.append_assoc] at hpre
  exact (List.prefix_append ..).trans hpre

/-- **A restart** that cuts no link. -/
theorem knows_clear (hb : Base cfg L s A [] T C) (hL : L.Pairwise fun x y => x.1 < y.1)
    (hr : Resting cfg A T C) (hkeep : s.KeepsLinks cfg L) (m : Persister ℝ) :
    m.clear.Knows cfg L C.length A := by
  intro symbol
  refine .inr ⟨rfl, fun ys f hpre hlen hys x hx hsym => ?_⟩
  subst hsym
  by_contra hret
  obtain ⟨pre, e, zs, rfl, hlink, hno⟩ := linked_of_returnAfter hx hys hret
  obtain ⟨post, rfl⟩ := hpre
  have hacked := hb.mem_acked (List.mem_append_right pre (List.mem_cons_self (a := e) (l := zs)))
  refine hb.not_settled hL (hb.committed_prefix hr) (List.prefix_append _ post) hlen
    (hkeep e hacked f ⟨pre, zs ++ ys, post, by simp, hno⟩ hlink)

/-- What the batch in memory leaves in the table. -/
theorem commit (hb : Base cfg L s A H T C) (hm : m.Holds cfg H)
    (hcase : C = A ∧ m.Sums cfg A H ∧ Paged cfg H [] T ∨ Replayed cfg A H T C)
    (hu : upsertBars cfg.instruments s.table m.batch = some table') :
    ∃ C', Base cfg L { s with table := table' } A H T C' ∧ C.length ≤ C'.length ∧
      Replayed cfg A H T C' := by
  obtain ⟨hcovers, hreturns⟩ := hb.stored
  have hasc := hb.ascending
  rw [← List.append_assoc] at hasc
  have hlt := (List.pairwise_append.mp (List.pairwise_append.mp hasc).1).2.2
  rcases hcase with ⟨rfl, hs, hp⟩ | ⟨P, U, rfl, rfl, hp⟩
  · refine ⟨C ++ H, { hb with stored := ⟨covers_commit hcovers hm hu hlt, fun k => ?_⟩ },
      by rw [List.length_append]; omega, [], T, (List.append_nil _).symm, rfl, hp⟩
    rw [returns_commit hcovers hm hu hlt, hreturns, hs, logReturns, logReturns, tally_append,
      List.nil_append]
  · have hascC : (A ++ H ++ P).Pairwise fun x y => x.1 < y.1 := by
      rw [← List.append_assoc] at hasc
      exact (List.pairwise_append.mp hasc).1
    have hsub : ∀ e ∈ H, e ∈ A ++ H ++ P := fun e he =>
      List.mem_append_left _ (List.mem_append_right _ he)
    refine ⟨A ++ H ++ P, { hb with stored := ⟨covers_replay hcovers hm hu hascC hsub, fun k => ?_⟩ },
      le_refl _, P, U, rfl, rfl, hp⟩
    rw [returns_replay hcovers hm hu hascC hsub, hreturns]

theorem xack (hb : Base cfg L s A H T C) (hun : m.unacked = H.map Prod.fst) :
    Base cfg L { s with group := s.group.xack m.unacked } (A ++ H) [] T C := by
  have hH : H = (s.group.pel.map Prod.fst).take H.length := by
    rw [hb.pel, List.take_left]
  refine { hb with delivered := ?_, pel := ?_ }
  · rw [List.nil_append, List.append_assoc]
    exact hb.delivered
  · show (s.group.xack m.unacked).pel.map Prod.fst = T
    rw [hun, hH, Group.pel_xack_take, List.map_drop, hb.pel, List.drop_left]

end Base

section Steps

variable (hb : Base cfg L s A H T C) (hlost : (s.worker ()).lost = false)
  (hok : SoloOk cfg L A H T C (s.worker ()))

include hb hlost hok

theorem solo_readPending (h : s.act () cfg .readPending = some t) : Solo cfg L t := by
  have hpage : s.group.xreadPending () cfg.flushMaxRows = (H ++ T).take cfg.flushMaxRows := by
    rw [Group.xreadPending, Group.pendingOf_eq, hb.pel]
  unfold SoloOk at hok
  cases takes_of_act h with
  | drained hphase hnil =>
    rw [hphase] at hok
    obtain ⟨rfl, hr, hm, hk⟩ := hok
    rw [hpage, List.nil_append] at hnil
    cases (List.take_eq_nil_iff.mp hnil).resolve_left cfg.flushMaxRows_pos.ne'
    cases hr.eq_of_nil
    exact hb.put hlost ⟨⟨rfl, rfl, hm, by rwa [List.append_nil], hm.sums _⟩, fun _ => rfl⟩
  | readPending hphase hne =>
    rw [hphase] at hok
    obtain ⟨rfl, hr, hm, hk⟩ := hok
    rw [hpage, List.nil_append] at hne ⊢
    refine hb.receive hlost hm hk hr fun hT => hne ?_
    rw [hT, List.take_nil]

/-- Nothing is pending that is not in memory, and the sweep finds that busy. -/
theorem solo_claim {idle : StreamId → Bool} (hsweep : s.SweepOk () idle)
    (h : s.act () cfg (.claim idle) = some t) : Solo cfg L t := by
  unfold SoloOk at hok
  have hloaded : ∀ {start sweep}, (s.worker ()).phase = .claim start sweep →
      Looping cfg L A H T C (s.worker ()).memory ∧
        (s.group.claimable (fun id => !sweep || idle id) start cfg.flushMaxRows).1 = [] := by
    intro start sweep hphase
    rw [hphase] at hok
    obtain ⟨hl, hH⟩ := hok
    refine ⟨hl, Group.claimable_of_busy (fun p hp => ?_) _ _⟩
    have hmem : p.1 ∈ H ++ T := by
      rw [← hb.pel]
      exact List.mem_map_of_mem hp
    rw [hl.rest, List.append_nil] at hmem
    cases sweep with
    | false =>
      rw [hH rfl] at hmem
      cases hmem
    | true =>
      have hidle := hsweep (by rw [hphase]; rfl) p.1.1
      rw [hl.holds.unacked] at hidle
      exact hidle (List.mem_map_of_mem hmem)
  cases takes_of_act h with
  | claimed hphase =>
    rw [Group.xautoclaim_nil]
    exact hb.put hlost (hloaded hphase).1
  | claim hphase hpage hne =>
    have hnone := (hloaded hphase).2
    rw [hpage] at hnone
    exact absurd hnone hne

theorem solo_read {count : Nat} (h : s.act () cfg (.read count) = some t) : Solo cfg L t := by
  have hphase : (s.worker ()).phase = .reading := by cases takes_of_act h <;> assumption
  unfold SoloOk at hok
  rw [hphase] at hok
  obtain ⟨rfl, rfl, hm, hk, hs⟩ := hok
  have hb' : Base cfg L { s with group := s.group.xreadNew () count } C (H ++ s.group.fresh count) []
      C :=
    { hb with
      delivered := by
        have hdel := hb.delivered
        rw [List.append_nil] at hdel ⊢
        show s.group.log.take (s.group.delivered + (s.group.fresh count).length) = _
        rw [Group.take_delivered_append_fresh, hdel, List.append_assoc]
      pel := by
        have hpel := hb.pel
        rw [List.append_nil] at hpel ⊢
        show (s.group.pel ++ (s.group.fresh count).map (·, ())).map Prod.fst = _
        rw [List.map_append, hpel, List.map_map]
        exact congrArg _ (List.map_id _) }
  cases takes_of_act h with
  | readRaises => exact hb'.leave hlost (resting_of_uncommitted _) _
  | read _ _ hfold =>
    have hasc := (List.pairwise_append.mp hb'.ascending).2.1
    have hpre := hb'.delivered_prefix
    have hknows := hk.ingestAll hfold
    rw [List.append_nil] at hasc hpre
    rw [List.append_assoc] at hknows
    rw [← List.append_assoc] at hpre
    exact hb'.put hlost
      ⟨rfl, rfl, Persister.holds_ingestAll hm hasc hfold, hknows, hs.ingestAll hk hpre hfold⟩

theorem solo_commit (h : s.act () cfg .commit = some t) : Solo cfg L t := by
  have hr := hok.resting
  unfold SoloOk at hok
  cases takes_of_act h with
  | commit hphase hu =>
    rw [hphase] at hok
    obtain ⟨rfl, hres, hm, hk, hcase⟩ := hok
    obtain ⟨C', hb', hlen, hrep⟩ := hb.commit hm hcase hu
    exact hb'.put hlost ⟨rfl, hres, hm.unacked, hk.mono hlen, hrep⟩
  | commitRaises => exact hb.leave hlost hr _

theorem solo_commitLost {failure : Failure} (h : s.act () cfg (.commitLost failure) = some t) :
    Solo cfg L t := by
  cases takes_of_act h with
  | commitLost hphase hu =>
    unfold SoloOk at hok
    rw [hphase] at hok
    obtain ⟨rfl, -, hm, -, hcase⟩ := hok
    obtain ⟨C', hb', -, P, U, rfl, rfl, hp⟩ := hb.commit hm hcase hu
    exact hb'.failed hlost hp.resting (fun h => absurd h Bool.false_ne_true) failure

theorem solo_ack (h : s.act () cfg .ack = some t) : Solo cfg L t := by
  cases takes_of_act h with
  | ack hphase =>
    unfold SoloOk at hok
    rw [hphase] at hok
    obtain ⟨rfl, hres, hun, hk, P, U, rfl, rfl, hp⟩ := hok
    exact (hb.xack hun).goOn (w := { s.worker () with memory := (s.worker ()).memory.clearBatch })
      hlost (Persister.holds_clearBatch ..) hk.clearBatch hp.resting_acked hres

theorem solo_ackLost (h : s.act () cfg .ackLost = some t) : Solo cfg L t := by
  cases takes_of_act h with
  | ackLost hphase =>
    unfold SoloOk at hok
    rw [hphase] at hok
    obtain ⟨rfl, -, hun, -, P, U, rfl, rfl, hp⟩ := hok
    exact (hb.xack hun).failed hlost hp.resting_acked (fun h => absurd h Bool.false_ne_true) _

theorem solo_fail {failure : Failure} (h : s.act () cfg (.fail failure) = some t) :
    Solo cfg L t := by
  have hr := hok.resting
  unfold SoloOk at hok
  cases takes_of_act h with
  | fail =>
    refine hb.failed hlost hr (fun hsweep => ?_) failure
    cases hphase : (s.worker ()).phase with
    | claim start sweep =>
      rw [hphase] at hok
      exact hok.1
    | flushing resume sweep | acking resume sweep =>
      rw [hphase] at hok hsweep
      change sweep = true at hsweep
      rw [hok.1] at hsweep
      cases hsweep
    | _ =>
      rw [hphase] at hsweep
      cases hsweep

/-- **A step of the persister** keeps the invariant, where a restart cuts no link. -/
theorem solo_act (hL : L.Pairwise fun x y => x.1 < y.1) {what : Act}
    (hun : Unbroken cfg L s (.act () what)) (h : s.act () cfg what = some t) : Solo cfg L t := by
  obtain ⟨halone, hkeep⟩ := hun
  have hstands := hok
  unfold SoloOk at hstands
  cases takes_of_act h with
  | acquire hphase =>
    rw [hphase] at hstands
    obtain ⟨rfl, hr⟩ := hstands
    have hb' : Base cfg L { s with lease := some () } A [] T C := { hb with }
    exact hb'.put rfl ⟨rfl, hr, Persister.holds_clear .., hb.knows_clear hL hr (hkeep rfl) _⟩
  | lose => exact halone.elim
  | drained | readPending => exact solo_readPending hb hlost hok h
  | claimed | claim => exact solo_claim hb hlost hok halone h
  | lost _ hgone =>
    rw [hlost] at hgone
    cases hgone
  | top hphase | notDue hphase =>
    rw [hphase] at hstands
    exact hb.put hlost hstands
  | stop hphase | due hphase =>
    rw [hphase] at hstands
    exact hb.beginFlush hlost hstands _
  | read | readRaises => exact solo_read hb hlost hok h
  | @sweepCheck due hphase =>
    rw [hphase] at hstands
    cases due with
    | false => exact hb.put hlost hstands
    | true => exact hb.put hlost ⟨hstands, nofun⟩
  | commit | commitRaises => exact solo_commit hb hlost hok h
  | commitLost => exact solo_commitLost hb hlost hok h
  | ack => exact solo_ack hb hlost hok h
  | ackLost => exact solo_ackLost hb hlost hok h
  | fail => exact solo_fail hb hlost hok h
  | crash => exact hb.leave hlost hok.resting _

end Steps

/-- **Every step** keeps the invariant, as long as the stream has not become another. -/
theorem solo_step (hL : L.Pairwise fun x y => x.1 < y.1) (hi : s.group.log <+: L → Solo cfg L s)
    {a : Action Unit} (hun : Unbroken cfg L s a) (h : s.step cfg a = some t)
    (hpre : t.group.log <+: L) : Solo cfg L t := by
  cases a with
  | append id fields =>
    obtain ⟨g, hg, rfl⟩ := Option.map_eq_some_iff.mp h
    obtain ⟨hlog, hdel, hpel⟩ := Group.xadd_eq_some hg
    have hold : s.group.log <+: g.log := hlog ▸ List.prefix_append ..
    obtain ⟨hlost, A, H, T, C, hb, hok⟩ := hi (hold.trans hpre)
    refine ⟨hlost, A, H, T, C, { hb with parses := fun e he => ?_, ahead := hpre, delivered := ?_, pel := ?_ }, hok⟩
    · rw [hlog] at he
      rcases List.mem_append.mp he with he | he
      · exact hb.parses e he
      · rw [List.mem_singleton.mp he]
        exact hun.1
    · show g.log.take g.delivered = _
      rw [hlog, hdel, List.take_append_of_le_length s.group.delivered_le]
      exact hb.delivered
    · show g.pel.map Prod.fst = _
      rw [hpel]
      exact hb.pel
  | act c what =>
    cases c
    rw [(System.effect_of_act h).log] at hpre
    obtain ⟨hlost, A, H, T, C, hb, hok⟩ := hi hpre
    exact solo_act hb hlost hok hL hun h

theorem solo_of_reachable (hL : L.Pairwise fun x y => x.1 < y.1)
    (hr : ((tickLts cfg).guard (Unbroken cfg L)).Reachable s) (hpre : s.group.log <+: L) :
    Solo cfg L s := by
  refine hr.invariant (I := fun s => s.group.log <+: L → Solo cfg L s) (fun s hs _ => ?_)
    (fun s a t hi ht => solo_step hL hi ht.2 ht.1) hpre
  rw [hs]
  exact solo_init cfg L

/-- Where everything is acknowledged, the table has the stream. -/
theorem Solo.stored (h : Solo cfg L s) (hall : ∀ e ∈ s.group.log, e ∈ s.group.acked) :
    Stored cfg s.table s.group.log := by
  obtain ⟨-, A, H, T, C, hb, hok⟩ := h
  have hpel := hb.pel
  have hdel := hb.delivered
  have hr := hok.resting
  rw [Group.pel_eq_nil_of_forall_acked hall, List.map_nil] at hpel
  rw [Group.take_delivered_of_forall_acked hall, ← hpel, List.append_nil] at hdel
  rw [← hpel] at hr
  rw [hdel, ← hr.eq_of_nil]
  exact hb.stored

/-- **The returns of the rows are a function of the stream.** -/
theorem rowReturns_eq (hr : ((tickLts cfg).guard (Unbroken cfg s.group.log)).Reachable s)
    (hall : ∀ e ∈ s.group.log, e ∈ s.group.acked) :
    Stored cfg s.table s.group.log :=
  (solo_of_reachable s.group.ascending hr (List.prefix_refl _)).stored hall

/-- `sum_ret` and `sum_ret_sq` of a row, if there is one. -/
def System.sums (s : System ℝ Unit) (k : BarKey) : Option (ℝ × ℝ) :=
  (s.table.get? k).map fun r => (r.sumRet, r.sumRetSq)

theorem Stored.sums_eq (hs : Stored cfg s.table L) (ht : Stored cfg t.table L) (k : BarKey) :
    s.sums k = t.sums k := by
  have hrow : (s.table.get? k).map BarRow.marked = (t.table.get? k).map BarRow.marked :=
    (hs.covers.marked k).trans (ht.covers.marked k).symm
  have hret : rowReturns s.table k = rowReturns t.table k :=
    (hs.returns k).trans (ht.returns k).symm
  unfold System.sums rowReturns at *
  cases hsk : s.table.get? k with
  | none =>
    rw [hsk] at hrow
    rw [Option.map_eq_none_iff.mp hrow.symm]
  | some r =>
    rw [hsk] at hrow hret
    obtain ⟨r', hr', -⟩ := Option.map_eq_some_iff.mp hrow.symm
    rw [hr'] at hret ⊢
    exact congrArg some hret

/--
**Two schedules persist the same returns.**

One persister under its lease, on any stream of entries that parse. Two runs, through reads of any size,
flushes at any time, commits and acknowledgements that fail or whose answer is lost, crashes and restarts,
that both come to have acknowledged the same stream, have the same `sum_ret` and `sum_ret_sq` in every row,
where no restart of either comes between an acknowledged tick and an uncommitted one that takes its return
from it.
-/
theorem same_returns (hs : ((tickLts cfg).guard (Unbroken cfg s.group.log)).Reachable s)
    (ht : ((tickLts cfg).guard (Unbroken cfg t.group.log)).Reachable t)
    (hlog : s.group.log = t.group.log) (hsall : ∀ e ∈ s.group.log, e ∈ s.group.acked)
    (htall : ∀ e ∈ t.group.log, e ∈ t.group.acked) (k : BarKey) : s.sums k = t.sums k := by
  have hstored := rowReturns_eq ht htall
  rw [← hlog] at hstored
  exact (rowReturns_eq hs hsall).sums_eq hstored k

/-! ### Two schedules of two ticks -/

attribute [local instance] atLeastTwo_two in
/-- Readers of the few texts the sample quotes hold. -/
def exactCodec : Codec ℝ where
  float raw := if raw = "1" then some 1 else if raw = "2" then some 2 else none
  int _ := none
  fromisoformat := sampleCodec.fromisoformat
  isFinite _ := true

def exactConfig : PersisterConfig ℝ where
  codec := exactCodec
  bucketSeconds := 60
  flushMaxRows := 5
  flushMaxRows_pos := sampleConfig.flushMaxRows_pos
  instruments := ["EURUSD"]

def quote (price provider : String) : Fields :=
  ⟨[("s", "EURUSD"), ("b", price), ("a", price), ("t", "1970-01-01T00:00:00+00:00"), ("p", provider)],
    by show List.Nodup ["s", "b", "a", "t", "p"]; decide⟩

/-- A read, and the flush of what it answers. -/
def oneBatch : List (Action Unit) :=
  [.act () (.read 5), .act () (.check true), .act () .commit, .act () .ack]

/-- Both ticks in one batch. -/
def together (x y : Fields) : List (Action Unit) :=
  [.append (toLex (5, 0)) x, .append (toLex (5, 1)) y] ++ startUp () ++ oneBatch

/-- A restart between them. -/
def apart (x y : Fields) : List (Action Unit) :=
  [.append (toLex (5, 0)) x] ++ startUp () ++ oneBatch ++
    [.act () .crash, .append (toLex (5, 1)) y] ++ startUp () ++ oneBatch

theorem alone_schedules {x y : Fields} (hx : (parseTick exactConfig.codec x).isSome)
    (hy : (parseTick exactConfig.codec y).isSome) :
    ∀ a ∈ together x y ++ apart x y, ∀ s : System ℝ Unit, Alone exactConfig s a := by
  simp [together, apart, startUp, oneBatch, Alone, System.SweepOk, hx, hy]

/-- What a worker without memory makes of the whole stream. -/
theorem exists_batch {log : List Entry} (hcfg : cfg.flushMaxRows = 5) (hst : ∀ e ∈ log, Storable cfg e)
    (hlen : log.length ≤ 5) (hne : log ≠ []) (table : BarTable ℝ) :
    ∃ m table', (Persister.fresh : Persister ℝ).ingestAll cfg log = some m ∧ m.accs.isEmpty = false ∧
      upsertBars cfg.instruments table m.batch = some table' ∧ m.unacked = log.map Prod.fst := by
  have hret := returnsOk cfg log
  obtain ⟨m, hm⟩ := Persister.exists_ingestAll hst hret (List.infix_refl _) (by omega)
  obtain ⟨hc, hl⟩ := (Persister.carries_clear cfg .fresh).ingestAll hm
  have hlisted := hl (fun e he => .inl (hst e he)) fun k acc h => nomatch h
  rw [List.nil_append] at hc
  obtain ⟨table', hu⟩ := hc.exists_upsert hlisted table
  obtain ⟨e, he⟩ := List.exists_mem_of_ne_nil _ hne
  exact ⟨m, table', hm, hc.accs_isEmpty_eq_false he (hst e he), hu, hc.unacked⟩

/-- The stream is acknowledged with its ids. -/
theorem acked_of_xack {g : Group StreamId Fields Unit} {ids : List StreamId} (hfresh : g.fresh 5 = g.log)
    (hpel : g.pel = []) (hids : ids = g.log.map Prod.fst) :
    ∀ e ∈ g.log, e ∈ ((g.xreadNew () 5).xack ids).acked := by
  subst hids
  intro e he
  refine Group.mem_acked_iff.mpr ⟨?_, ?_⟩
  · show e ∈ g.log.take (g.delivered + (g.fresh 5).length)
    rw [Group.take_delivered_append_fresh, hfresh]
    exact List.mem_append_right _ he
  · have hall : ∀ p ∈ (g.xreadNew () 5).pel, p.1.1 ∈ g.log.map Prod.fst := by
      intro p hp
      change p ∈ g.pel ++ (g.fresh 5).map (·, ()) at hp
      rw [hpel, hfresh, List.nil_append] at hp
      obtain ⟨e, he, rfl⟩ := List.mem_map.mp hp
      exact List.mem_map_of_mem he
    rw [Group.pel_xack_eq_nil hall]
    exact List.not_mem_nil

/-- What is read into an empty memory is committed and acknowledged. -/
theorem exec_oneBatch (hw : s.worker () = ⟨.reading, .fresh, false⟩) (hcfg : cfg.flushMaxRows = 5)
    (hst : ∀ e ∈ s.group.log, Storable cfg e) (hlen : s.group.log.length ≤ 5)
    (hfresh : s.group.fresh 5 = s.group.log) (hne : s.group.log ≠ []) (hpel : s.group.pel = []) :
    ∃ t, Lts.exec (fun s a => s.step cfg a) s oneBatch = some t ∧ t.group.log = s.group.log ∧
      ∀ e ∈ t.group.log, e ∈ t.group.acked := by
  obtain ⟨m, table', hm, hfull, hu, hids⟩ := exists_batch hcfg hst hlen hne s.table
  refine ⟨{ s with
    group := (s.group.xreadNew () 5).xack m.unacked
    table := table'
    worker := fun _ => ⟨.sweepCheck, m.clearBatch, false⟩ }, ?_, rfl, acked_of_xack hfresh hpel hids⟩
  simp only [oneBatch, Lts.exec, System.step, System.act, hw, hcfg, le_refl, if_true, hfresh, hm,
    Option.bind_some, System.put_unit, System.beginFlush, hfull, Bool.false_eq_true, if_false,
    reduceCtorEq, and_false, hu, System.goOn, Resume.phase]

/-- A crash before the flush; the next run is handed the entries again. -/
theorem exec_replayed (hw : s.worker () = ⟨.reading, .fresh, false⟩) (hlease : s.lease = some ())
    (hcfg : cfg.flushMaxRows = 5) (hst : ∀ e ∈ s.group.log, Storable cfg e)
    (hlen : s.group.log.length ≤ 5) (hfresh : s.group.fresh 5 = s.group.log)
    (hne : s.group.log ≠ []) (hpel : s.group.pel = [])
    (hpending : (s.group.xreadNew () 5).xreadPending () 5 = s.group.log) :
    ∃ u v t : System ℝ Unit,
      Lts.exec (fun s a => s.step cfg a) s [.act () (.read 5), .act () .crash] = some u ∧
      u.group = s.group.xreadNew () 5 ∧ u.step cfg (.act () .acquire) = some v ∧
      Lts.exec (fun s a => s.step cfg a) v [.act () .readPending, .act () .commit, .act () .ack] =
        some t ∧
      t.group.log = s.group.log ∧ ∀ e ∈ t.group.log, e ∈ t.group.acked := by
  obtain ⟨m, table', hm, hfull, hu, hids⟩ := exists_batch hcfg hst hlen hne s.table
  obtain ⟨e, rest, hlog⟩ := List.exists_cons_of_ne_nil hne
  have hclear : (Persister.fresh : Persister ℝ).clear = .fresh := rfl
  refine ⟨{ s with
      group := s.group.xreadNew () 5, lease := none, worker := fun _ => ⟨.stopped, .fresh, false⟩ },
    { s with
      group := s.group.xreadNew () 5, lease := some (), worker := fun _ => ⟨.drain, .fresh, false⟩ },
    { s with
      group := (s.group.xreadNew () 5).xack m.unacked
      table := table'
      lease := some ()
      worker := fun _ => ⟨.drain, m.clearBatch, false⟩ },
    ?_, rfl, ?_, ?_, rfl, acked_of_xack hfresh hpel hids⟩
  · rw [hlog] at hm
    simp only [Lts.exec, System.step, System.act, hw, hcfg, le_refl, if_true, hfresh, hlog, hm, hlease,
      Option.bind_some, System.put_unit, System.leave]
  · simp only [System.step, System.act, System.put_unit, hclear, if_true]
  · rw [hlog] at hpending hm
    simp only [Lts.exec, System.step, System.act, hcfg, hm, Option.bind_some, System.put_unit, hpending,
      System.receive, System.beginFlush, hfull, Bool.false_eq_true, if_false, hu, System.goOn,
      Resume.phase]

/-- The return of the second of two quotes. -/
theorem logReturns_quotes :
    logReturns exactConfig ("EURUSD", 0)
      [(toLex (5, 0), quote "1" "a"), (toLex (5, 1), quote "2" "a")] = withSquare (Real.log 2) := by
  have hx : tickOf exactConfig (toLex (5, 0), quote "1" "a") =
      some (⟨"EURUSD", 1, 1, 0, "a"⟩, 0) := rfl
  have hy : tickOf exactConfig (toLex (5, 1), quote "2" "a") =
      some (⟨"EURUSD", 2, 2, 0, "a"⟩, 0) := rfl
  have hlink : linkedPrice exactConfig [(toLex (5, 0), quote "1" "a")] (⟨"EURUSD", 2, 2, 0, "a"⟩, 0) =
      some ((1 + 1) / ((2 : ℕ) : ℝ)) := rfl
  have hlog : returnFrom ((2 + 2) / ((2 : ℕ) : ℝ)) (some ((1 + 1) / ((2 : ℕ) : ℝ))) = Real.log 2 := by
    norm_num [returnFrom, BucketAccumulator.logReturn, log_eq]
  have hfirst : returnAfter exactConfig [] (⟨"EURUSD", 1, 1, 0, "a"⟩, 0) = 0 := rfl
  have hsecond : returnAfter exactConfig [(toLex (5, 0), quote "1" "a")]
      (⟨"EURUSD", 2, 2, 0, "a"⟩, 0) = Real.log 2 := by
    rw [returnAfter, hlink]
    exact hlog
  simp [logReturns, tally, addedTo, hx, hy, hfirst, hsecond]

/-- The two quotes of one provider. -/
def linkedQuotes : List Entry := [(toLex (5, 0), quote "1" "a"), (toLex (5, 1), quote "2" "a")]

theorem storable_linkedQuotes : ∀ e ∈ linkedQuotes, Storable exactConfig e := by
  intro e he
  rcases List.mem_pair.mp he with rfl | rfl
  · exact ⟨_, rfl, by decide⟩
  · exact ⟨_, rfl, by decide⟩

/-- A worker before its first read of them. -/
theorem exists_started : ∃ s : System ℝ Unit,
    ((tickLts exactConfig).guard (Unbroken exactConfig linkedQuotes)).Reachable s ∧
      s.worker () = ⟨.reading, .fresh, false⟩ ∧ s.lease = some () ∧ s.group.log = linkedQuotes ∧
      s.group.fresh 5 = s.group.log ∧ s.group.pel = [] ∧ (s.group.xreadNew () 5).acked = [] ∧
      (s.group.xreadNew () 5).xreadPending () 5 = s.group.log := by
  obtain ⟨s₀, s₁, s, h₀, hacked, h₁, h, hstarted⟩ : ∃ s₀ s₁ s : System ℝ Unit,
      Lts.exec (fun s a => s.step exactConfig a) .init
        [.append (toLex (5, 0)) (quote "1" "a"), .append (toLex (5, 1)) (quote "2" "a")] = some s₀ ∧
      s₀.group.acked = [] ∧ s₀.step exactConfig (.act () .acquire) = some s₁ ∧
      Lts.exec (fun s a => s.step exactConfig a) s₁
        [.act () .readPending, .act () (.claim fun _ => false), .act () .top] = some s ∧
      s.worker () = ⟨.reading, .fresh, false⟩ ∧ s.lease = some () ∧ s.group.log = linkedQuotes ∧
      s.group.fresh 5 = s.group.log ∧ s.group.pel = [] ∧ (s.group.xreadNew () 5).acked = [] ∧
      (s.group.xreadNew () 5).xreadPending () 5 = s.group.log :=
    ⟨_, _, _, rfl, rfl, rfl, rfl, rfl, rfl, rfl, rfl, rfl, rfl, rfl⟩
  have halone : ∀ a ∈ together (quote "1" "a") (quote "2" "a"), a ≠ .act () .acquire →
      ∀ u, Unbroken exactConfig linkedQuotes u a := fun a ha hne u =>
    ⟨alone_schedules rfl rfl a (List.mem_append_left _ ha) u, fun h => absurd h hne⟩
  have hr₀ : ((tickLts exactConfig).guard (Unbroken exactConfig linkedQuotes)).Reachable s₀ :=
    Lts.reachable_guard_exec (.init rfl)
      (fun a ha => halone a (by simp [together] at ha ⊢; tauto) (by rintro rfl; simp at ha)) h₀
  have hr₁ : ((tickLts exactConfig).guard (Unbroken exactConfig linkedQuotes)).Reachable s₁ :=
    .step hr₀ ⟨h₁, trivial, fun _ e he => by rw [hacked] at he; cases he⟩
  exact ⟨s, Lts.reachable_guard_exec hr₁
    (fun a ha => halone a (by simp [together, startUp] at ha ⊢; tauto) (by rintro rfl; simp at ha)) h, hstarted⟩

/-- Any such run that acknowledges them has taken the return. -/
theorem sums_linkedQuotes (hr : ((tickLts exactConfig).guard (Unbroken exactConfig s.group.log)).Reachable s)
    (hlog : s.group.log = linkedQuotes) (hall : ∀ e ∈ s.group.log, e ∈ s.group.acked) :
    s.sums ("EURUSD", 0) = some (withSquare (Real.log 2)) := by
  have hret := (rowReturns_eq hr hall).returns ("EURUSD", 0)
  rw [hlog, linkedQuotes, logReturns_quotes] at hret
  unfold System.sums
  unfold rowReturns at hret
  cases hrow : s.table.get? ("EURUSD", 0) with
  | none =>
    rw [hrow] at hret
    exact absurd (congrArg Prod.fst hret) (Real.log_pos one_lt_two).ne
  | some r =>
    rw [hrow] at hret
    exact congrArg some hret

/-- In one batch. -/
theorem exists_oneBatch : ∃ s : System ℝ Unit,
    ((tickLts exactConfig).guard (Unbroken exactConfig s.group.log)).Reachable s ∧
      s.group.log = linkedQuotes ∧ ∀ e ∈ s.group.log, e ∈ s.group.acked := by
  obtain ⟨s₀, hr₀, hw, -, hlog, hfresh, hpel, -, -⟩ := exists_started
  have hst : ∀ e ∈ s₀.group.log, Storable exactConfig e := hlog ▸ storable_linkedQuotes
  obtain ⟨s, hs, hslog, hsall⟩ := exec_oneBatch hw rfl hst (by rw [hlog]; decide) hfresh
    (by rw [hlog]; exact List.cons_ne_nil _ _) hpel
  refine ⟨s, ?_, hslog.trans hlog, hsall⟩
  rw [hslog, hlog]
  refine Lts.reachable_guard_exec hr₀ (fun a ha u => ⟨?_, ?_⟩) hs
  · have hmem : a ∈ together (quote "1" "a") (quote "2" "a") := List.mem_append_right _ ha
    exact alone_schedules rfl rfl a (List.mem_append_left _ hmem) u
  · rintro rfl
    simp [oneBatch] at ha

/-- With a crash in between. -/
theorem exists_replayed : ∃ s : System ℝ Unit,
    ((tickLts exactConfig).guard (Unbroken exactConfig s.group.log)).Reachable s ∧
      s.group.log = linkedQuotes ∧ ∀ e ∈ s.group.log, e ∈ s.group.acked := by
  obtain ⟨s₀, hr₀, hw, hlease, hlog, hfresh, hpel, hacked, hpending⟩ := exists_started
  have hst : ∀ e ∈ s₀.group.log, Storable exactConfig e := hlog ▸ storable_linkedQuotes
  obtain ⟨u, v, t, hu, hgroup, hv, ht, htlog, htall⟩ :=
    exec_replayed hw hlease rfl hst (by rw [hlog]; decide) hfresh
      (by rw [hlog]; exact List.cons_ne_nil _ _) hpel hpending
  refine ⟨t, ?_, htlog.trans hlog, htall⟩
  rw [htlog, hlog]
  have hread : ((tickLts exactConfig).guard (Unbroken exactConfig linkedQuotes)).Reachable u :=
    Lts.reachable_guard_exec hr₀ (fun a ha s => by
      rcases List.mem_pair.mp ha with rfl | rfl <;> simp [Unbroken, Alone]) hu
  have hrestarted : ((tickLts exactConfig).guard (Unbroken exactConfig linkedQuotes)).Reachable v :=
    -- nothing is acknowledged, so the restart cuts no link
    .step hread ⟨hv, trivial, fun _ e he => by rw [hgroup, hacked] at he; cases he⟩
  refine Lts.reachable_guard_exec hrestarted (fun a ha s => ?_) ht
  simp only [List.mem_cons, List.not_mem_nil, or_false] at ha
  rcases ha with rfl | rfl | rfl <;> simp [Unbroken, Alone]

/-- Both schedules take the return of the second quote. -/
theorem same_returns_replayed :
    ∃ s t : System ℝ Unit, s.sums ("EURUSD", 0) = some (withSquare (Real.log 2)) ∧
      s.sums ("EURUSD", 0) = t.sums ("EURUSD", 0) := by
  obtain ⟨s, hs, hslog, hsall⟩ := exists_oneBatch
  obtain ⟨t, ht, htlog, htall⟩ := exists_replayed
  exact ⟨s, t, sums_linkedQuotes hs hslog hsall, same_returns hs ht (hslog.trans htlog.symm) hsall htall _⟩

/-- **A restart loses a return.** Two ticks of one provider in one minute, of prices 1 and 2: in one
batch they leave `ln 2`, with a restart between them nothing. -/
theorem sums_differ :
    ∃ s t : System ℝ Unit, ((tickLts exactConfig).guard (Alone exactConfig)).Reachable s ∧
      ((tickLts exactConfig).guard (Alone exactConfig)).Reachable t ∧
      s.group.log = t.group.log ∧ (∀ e ∈ s.group.log, e ∈ s.group.acked) ∧
      (∀ e ∈ t.group.log, e ∈ t.group.acked) ∧
      s.sums ("EURUSD", 0) = some (withSquare (Real.log 2)) ∧ t.sums ("EURUSD", 0) = some 0 := by
  obtain ⟨s, hr, hslog, hsall⟩ := exists_oneBatch
  obtain ⟨t, ht, htlog, htall, htsum⟩ : ∃ t : System ℝ Unit,
      Lts.exec (fun s a => s.step exactConfig a) .init (apart (quote "1" "a") (quote "2" "a")) =
        some t ∧ t.group.log = linkedQuotes ∧
        t.group.acked = t.group.log ∧ t.sums ("EURUSD", 0) = some (0 + 0, 0 + 0) :=
    ⟨_, rfl, rfl, rfl, rfl⟩
  refine ⟨s, t, hr.guard_mono fun _ _ h => h.1, ?_, hslog.trans htlog.symm, hsall,
    fun e he => htall ▸ he, sums_linkedQuotes hr hslog hsall, htsum.trans (by rw [add_zero]; rfl)⟩
  exact Lts.reachable_guard_exec (.init rfl)
    (fun a ha => alone_schedules rfl rfl a (List.mem_append_right _ ha)) ht

end

end FxTracker.Worker.Ticks
