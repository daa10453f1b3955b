import FxTracker.Redis.Trim
import FxTracker.Worker.Poison

/-!
# Draining a worker's own pending entries

`fx_worker/persister.py`, `drain_own_pending`, where PostgreSQL and Redis answer. A page of which no
entry parses leaves nothing to commit, and then `flush` acknowledges nothing: the next read answers
the same page.

* `Draining.drainPass_again` — a pass over a page with a tick in it acknowledges the page
* `Stalled.drainPass` — a pass over a page without one acknowledges nothing
* `drainsAll_iff` — the loop ends, with nothing left pending, just where every page has a tick in it
  and no entry raises
-/

namespace FxTracker.Worker.Ticks

open Redis Persister

variable {K κ : Type} [FloatOps K] [LT K] [DecidableLT K] [DecidableEq κ]
  {cfg : PersisterConfig K} {s t : System K κ} {c : κ} {m m' : Persister K} {e : Entry}
  {pre es xs ys page : List Entry}

/-! ## The loop -/

/-- The step, or nothing where the worker does not come to it. -/
def System.tryAct (s : System K κ) (c : κ) (cfg : PersisterConfig K) (what : Act) : System K κ :=
  (s.act c cfg what).getD s

/-- A pass of the loop: the read, and the commit and the `XACK` of `flush`, if it comes to them. -/
def System.drainPass (s : System K κ) (c : κ) (cfg : PersisterConfig K) : Option (System K κ) :=
  (s.act c cfg .readPending).map fun s => (s.tryAct c cfg .commit).tryAct c cfg .ack

def System.drainPasses (s : System K κ) (c : κ) (cfg : PersisterConfig K) : Nat → Option (System K κ)
  | 0 => some s
  | n + 1 => (s.drainPass c cfg).bind fun s => s.drainPasses c cfg n

/-- `drain_own_pending` returned, and nothing is pending for the worker. -/
def System.Drained (s : System K κ) (c : κ) : Prop :=
  (s.worker c).phase = .claim none false ∧ s.group.pendingOf c = []

/-- The loop ends with nothing left pending, and each of its passes acknowledges something. -/
structure DrainsAll (cfg : PersisterConfig K) (s : System K κ) (c : κ) : Prop where
  ends : ∃ n t, s.drainPasses c cfg n = some t ∧ t.Drained c
  acks : ∀ n t u, s.drainPasses c cfg n = some t → t.group.pendingOf c ≠ [] →
    t.drainPass c cfg = some u → (u.group.pendingOf c).length < (t.group.pendingOf c).length

/-- Every page of the entries, from the oldest on, has one that parses. -/
def EveryPageTicks (cfg : PersisterConfig K) (es : List Entry) : Prop :=
  ∀ k, (es.drop (k * cfg.flushMaxRows)).take cfg.flushMaxRows ≠ [] →
    ∃ e ∈ (es.drop (k * cfg.flushMaxRows)).take cfg.flushMaxRows, (parseTick cfg.codec e.2).isSome

/-- None of the entries `es` raises after the entries `pre`: one that parses has a bucket, and the
return from the last tick of its symbol, if it takes one, is defined. -/
def FoldsAfter (cfg : PersisterConfig K) : (pre es : List Entry) → Prop
  | _, [] => True
  | pre, e :: es =>
    ((parseTick cfg.codec e.2).isSome → ∃ x ∈ tickOf cfg e,
      (BucketAccumulator.logReturn (RawTick.mid x.1) (linkedPrice cfg pre x)).isSome) ∧
    FoldsAfter cfg (pre ++ [e]) es

omit [DecidableEq κ] in
theorem foldsAfter_append :
    FoldsAfter cfg pre (xs ++ ys) ↔ FoldsAfter cfg pre xs ∧ FoldsAfter cfg (pre ++ xs) ys := by
  induction xs generalizing pre with
  | nil => simp [FoldsAfter]
  | cons x xs ih =>
    rw [List.cons_append, FoldsAfter, FoldsAfter, ih, ← List.append_cons, and_assoc]

omit [FloatOps K] [LT K] [DecidableLT K] in
/-- The pages are the first one and those of what follows it. -/
theorem everyPageTicks_iff :
    EveryPageTicks cfg es ↔
      (es.take cfg.flushMaxRows ≠ [] →
        ∃ e ∈ es.take cfg.flushMaxRows, (parseTick cfg.codec e.2).isSome) ∧
      EveryPageTicks cfg (es.drop cfg.flushMaxRows) := by
  have hshift : ∀ k, (es.drop cfg.flushMaxRows).drop (k * cfg.flushMaxRows) =
      es.drop ((k + 1) * cfg.flushMaxRows) := by
    intro k
    rw [List.drop_drop, Nat.add_mul, Nat.one_mul, Nat.add_comm]
  constructor
  · intro h
    refine ⟨?_, fun k => ?_⟩
    · have hfirst := h 0
      rw [Nat.zero_mul, List.drop_zero] at hfirst
      exact hfirst
    · rw [hshift]
      exact h (k + 1)
  · rintro ⟨hfirst, hrest⟩ k
    cases k with
    | zero =>
      rw [Nat.zero_mul, List.drop_zero]
      exact hfirst
    | succ k =>
      rw [← hshift]
      exact hrest k

/-! ## Folding a page in -/

/-- The memory recalls the last tick of each symbol among the entries, and no price of another
symbol. -/
structure Tracks (cfg : PersisterConfig K) (m : Persister K) (es : List Entry) : Prop where
  lastPrice : ∀ symbol, m.lastPrice.get? symbol = (lastTick cfg es symbol).map fun x => RawTick.mid x.1
  lastBucket : ∀ symbol, ∀ x ∈ lastTick cfg es symbol, m.lastBucket.get? symbol = some x.2
  provider : ∀ symbol, ∀ x ∈ lastTick cfg es symbol, m.provider.get? symbol = some x.1.provider

omit [LT K] [DecidableLT K] in
theorem tracks_clear (cfg : PersisterConfig K) (m : Persister K) : Tracks cfg m.clear [] :=
  ⟨fun _ => rfl, fun _ _ h => (nomatch h), fun _ _ h => (nomatch h)⟩

omit [LT K] [DecidableLT K] in
theorem Tracks.clearBatch (h : Tracks cfg m es) : Tracks cfg m.clearBatch es :=
  ⟨h.lastPrice, h.lastBucket, h.provider⟩

omit [LT K] [DecidableLT K] in
theorem Tracks.prevPrice (h : Tracks cfg m es) (x : RawTick K × Int) :
    m.prevPrice cfg.bucketSeconds x.1 x.2 = linkedPrice cfg es x := by
  cases hlast : lastTick cfg es x.1.symbol with
  | none =>
    have hprice := h.lastPrice x.1.symbol
    rw [hlast] at hprice
    unfold Persister.prevPrice linkedPrice
    rw [hprice, hlast]
    exact ite_self _
  | some y =>
    refine prevPrice_of_last (h.lastPrice _) ?_ ?_
    · rw [hlast]
      exact h.lastBucket _ y hlast
    · rw [hlast]
      exact h.provider _ y hlast

theorem Tracks.ingestEntry (h : Tracks cfg m es) (hm : m.ingestEntry cfg e = some m')
    (unacked : List StreamId) : Tracks cfg { m' with unacked } (es ++ [e]) := by
  cases hx : tickOf cfg e with
  | none =>
    rw [ingestEntry_of_tickOf_eq_none hx hm]
    refine ⟨fun symbol => ?_, fun symbol => ?_, fun symbol => ?_⟩ <;> rw [lastTick_concat_of_none hx]
    · exact h.lastPrice symbol
    · exact h.lastBucket symbol
    · exact h.provider symbol
  | some x =>
    refine ⟨fun symbol => ?_, fun symbol y hy => ?_, fun symbol y hy => ?_⟩ <;>
      obtain ⟨hprice, hbucket, hprovider⟩ := get?_ingestEntry hx hm symbol
    · rw [lastTick_concat_of_tick hx]
      refine hprice.trans ?_
      split
      · rfl
      · exact h.lastPrice symbol
    · rw [lastTick_concat_of_tick hx] at hy
      refine hbucket.trans ?_
      split at hy
      · next hs =>
        cases hy
        exact if_pos hs
      · next hs =>
        rw [if_neg hs]
        exact h.lastBucket symbol y hy
    · rw [lastTick_concat_of_tick hx] at hy
      refine hprovider.trans ?_
      split at hy
      · next hs =>
        cases hy
        exact if_pos hs
      · next hs =>
        rw [if_neg hs]
        exact h.provider symbol y hy

theorem Tracks.ingestAll (h : Tracks cfg m pre) (hm : m.ingestAll cfg es = some m') :
    Tracks cfg m' (pre ++ es) := by
  induction es generalizing m pre with
  | nil =>
    cases hm
    rw [List.append_nil]
    exact h
  | cons e es ih =>
    unfold Persister.ingestAll at hm
    obtain ⟨m₁, hm₁, hrest⟩ := Option.bind_eq_some_iff.mp hm
    rw [List.append_cons]
    exact ih (h.ingestEntry hm₁ _) hrest

theorem Tracks.isSome_ingestEntry_iff (h : Tracks cfg m pre) :
    (m.ingestEntry cfg e).isSome ↔ ((parseTick cfg.codec e.2).isSome → ∃ x ∈ tickOf cfg e,
      (BucketAccumulator.logReturn (RawTick.mid x.1) (linkedPrice cfg pre x)).isSome) := by
  cases hp : parseTick cfg.codec e.2 with
  | none => simp [Persister.ingestEntry, hp]
  | some tick =>
    cases hb : floorToBucket tick.ts cfg.bucketSeconds with
    | none => simp [Persister.ingestEntry, ingestTick, tickOf, hp, hb]
    | some bucket =>
      have hx : tickOf cfg e = some (tick, bucket) := tickOf_eq_some_iff.mpr ⟨hp, hb⟩
      rw [isSome_ingestEntry m hx, h.prevPrice, hx]
      simp

/-- **Where folding a page in raises nothing.** -/
theorem Tracks.isSome_ingestAll_iff (h : Tracks cfg m pre) :
    (m.ingestAll cfg es).isSome ↔ FoldsAfter cfg pre es := by
  induction es generalizing m pre with
  | nil => simp [Persister.ingestAll, FoldsAfter]
  | cons e es ih =>
    rw [FoldsAfter, ← h.isSome_ingestEntry_iff, Persister.ingestAll]
    cases hm : m.ingestEntry cfg e with
    | none => simp
    | some m₁ =>
      have hnext := h.ingestEntry hm (m₁.unacked ++ [e.1])
      simp only [Option.bind_eq_bind, Option.bind_some, ih hnext, Option.isSome_some, true_and]

/-! ## One pass -/

/-- In the loop, with the entries `pre` acknowledged in it and the entries `es` left. -/
structure Draining (cfg : PersisterConfig K) (s : System K κ) (c : κ) (pre es : List Entry) : Prop where
  phase : (s.worker c).phase = .drain
  carries : Carries cfg (s.worker c).memory []
  tracks : Tracks cfg (s.worker c).memory pre
  pending : s.group.pendingOf c = es

/-- In the loop before a page of which no entry parses, with nothing to commit. -/
structure Stalled (cfg : PersisterConfig K) (s : System K κ) (c : κ) (page : List Entry) : Prop where
  phase : (s.worker c).phase = .drain
  empty : (s.worker c).memory.accs.isEmpty = true
  next : s.group.xreadPending c cfg.flushMaxRows = page
  malformed : ∀ e ∈ page, parseTick cfg.codec e.2 = none

theorem act_readPending (hphase : (s.worker c).phase = .drain)
    (hpage : s.group.xreadPending c cfg.flushMaxRows = page) (hne : page ≠ []) :
    s.act c cfg .readPending = some (s.receive c (s.worker c) cfg page .drain false) := by
  rw [System.act, hphase]
  dsimp only
  rw [hpage]
  cases page with
  | nil => exact absurd rfl hne
  | cons => rfl

/-- The commit of a flush. -/
theorem tryAct_commit {w : WorkerState K} {resume : Resume} {sweep : Bool} {table : BarTable K}
    (hphase : w.phase = .flushing resume sweep)
    (hu : upsertBars cfg.instruments s.table w.memory.batch = some table) :
    (s.put c w).tryAct c cfg .commit =
      { s.put c w with table }.put c { w with phase := .acking resume sweep } := by
  have hu' : upsertBars cfg.instruments (s.put c w).table w.memory.batch = some table := hu
  rw [System.tryAct, System.act, System.worker_put_self, hphase]
  dsimp only
  rw [hu']
  rfl

/-- The `XACK` of a flush. -/
theorem tryAct_ack {w : WorkerState K} {resume : Resume} {sweep : Bool}
    (hphase : w.phase = .acking resume sweep) :
    (s.put c w).tryAct c cfg .ack =
      { s.put c w with group := s.group.xack w.memory.unacked }.goOn c
        { w with memory := w.memory.clearBatch } resume := by
  rw [System.tryAct, System.act, System.worker_put_self, hphase]
  rfl

/-- With nothing pending the loop ends. -/
theorem drainPass_nil (hphase : (s.worker c).phase = .drain) (h : s.group.pendingOf c = []) :
    s.drainPass c cfg = some (s.put c { s.worker c with phase := .claim none false }) := by
  rw [System.drainPass, System.act, hphase]
  dsimp only
  rw [(Group.xreadPending_eq_nil_iff cfg.flushMaxRows_pos).mpr h]
  simp [System.tryAct, System.act]

/-- An exception ends the process. -/
theorem drainPass_raises (hphase : (s.worker c).phase = .drain)
    (hpage : s.group.xreadPending c cfg.flushMaxRows = page) (hne : page ≠ [])
    (hraise : (s.worker c).memory.ingestAll cfg page = none) :
    s.drainPass c cfg = some (s.leave c (s.worker c) .fresh) := by
  have hleft : ((s.leave c (s.worker c) .fresh).worker c).phase = .stopped := by
    show ((s.put c _).worker c).phase = _
    rw [System.worker_put_self]
  rw [System.drainPass, act_readPending hphase hpage hne, System.receive, hraise]
  simp [System.tryAct, System.act, hleft]

/-- **A page without a tick** is not acknowledged. -/
theorem Stalled.drainPass (h : Stalled cfg s c page) (hne : page ≠ []) :
    ∃ t, s.drainPass c cfg = some t ∧ t.group = s.group ∧ Stalled cfg t c page := by
  obtain ⟨hphase, hempty, hpage, hbad⟩ := h
  rw [System.drainPass, act_readPending hphase hpage hne, System.receive, ingestAll_malformed hbad]
  dsimp only
  unfold System.beginFlush
  rw [if_pos hempty]
  refine ⟨s.goOn c { s.worker c with memory := { (s.worker c).memory with
    unacked := (s.worker c).memory.unacked ++ page.map Prod.fst } } .drain, ?_, rfl, ?_, ?_, hpage, hbad⟩
  · simp [System.tryAct, System.act, System.goOn, Resume.phase]
  · simp [System.goOn, Resume.phase]
  · simpa [System.goOn] using hempty

/-- **A page with a tick** is committed and acknowledged. -/
theorem Draining.drainPass_again (h : Draining cfg s c pre es)
    (hlisted : ∀ e ∈ es, ∀ x ∈ tickOf cfg e, x.1.symbol ∈ cfg.instruments)
    (hm : (s.worker c).memory.ingestAll cfg (es.take cfg.flushMaxRows) = some m)
    (he : e ∈ es.take cfg.flushMaxRows) (htick : (tickOf cfg e).isSome) :
    ∃ t, s.drainPass c cfg = some t ∧
      Draining cfg t c (pre ++ es.take cfg.flushMaxRows) (es.drop cfg.flushMaxRows) := by
  obtain ⟨hphase, hcarries, htracks, hpending⟩ := h
  have hpage : s.group.xreadPending c cfg.flushMaxRows = es.take cfg.flushMaxRows := by
    rw [Group.xreadPending, hpending]
  obtain ⟨hc, hl⟩ := hcarries.ingestAll hm
  have hsymbols : ∀ f ∈ es.take cfg.flushMaxRows, Storable cfg f ∨ tickOf cfg f = none := by
    intro f hf
    cases hx : tickOf cfg f with
    | none => exact .inr rfl
    | some x => exact .inl ⟨x, hx, hlisted f (List.mem_of_mem_take hf) x hx⟩
  have hstored : Storable cfg e := (hsymbols e he).resolve_right (Option.isSome_iff_ne_none.mp htick)
  have hempty : m.accs.isEmpty = false := hc.accs_isEmpty_eq_false he hstored
  have hnone : Listed cfg (s.worker c).memory := fun k acc hacc => by
    have hnot := Dict.isEmpty_eq_false_of_get? hacc
    rw [hcarries.empty rfl] at hnot
    cases hnot
  obtain ⟨table, hu⟩ := hc.exists_upsert (hl hsymbols hnone) s.table
  have hreceive : s.receive c (s.worker c) cfg (es.take cfg.flushMaxRows) .drain false =
      s.put c { s.worker c with phase := .flushing .drain false, memory := m } := by
    rw [System.receive, hm]
    dsimp only
    rw [System.beginFlush, if_neg (by rw [hempty]; exact Bool.false_ne_true)]
  have hun : m.unacked = (s.group.xreadPending c cfg.flushMaxRows).map Prod.fst := by
    rw [hpage]
    exact hc.unacked
  have hpass : s.drainPass c cfg =
      some (({ s.put c { s.worker c with phase := .flushing .drain false, memory := m } with table }.put c
        { s.worker c with phase := .acking .drain false, memory := m }).tryAct c cfg .ack) := by
    rw [System.drainPass, act_readPending hphase hpage (List.ne_nil_of_mem he), hreceive,
      Option.map_some, tryAct_commit rfl hu]
  rw [tryAct_ack rfl] at hpass
  refine ⟨_, hpass, ?_, ?_, ?_, ?_⟩
  · exact congrArg WorkerState.phase (System.worker_put_self ..)
  · rw [System.goOn, System.worker_put_self]
    · exact carries_clearBatch cfg m
    · intro hstopped
      cases hstopped
  · rw [System.goOn, System.worker_put_self]
    · exact (htracks.ingestAll hm).clearBatch
    · intro hstopped
      cases hstopped
  · show (s.group.xack m.unacked).pendingOf c = _
    rw [hun, Group.pendingOf_xack_xreadPending, hpending]

/-! ## All passes -/

theorem drainPass_eq_none (h : (s.worker c).phase ≠ .drain) : s.drainPass c cfg = none := by
  rw [System.drainPass, Option.map_eq_none_iff, System.act]
  split
  · next hphase => exact absurd hphase h
  · rfl

/-- Out of the loop there are no more passes. -/
theorem drainsAll_of_phase_ne (h : (s.worker c).phase ≠ .drain) : DrainsAll cfg s c ↔ s.Drained c := by
  have hmore : ∀ n, s.drainPasses c cfg (n + 1) = none := by
    intro n
    rw [System.drainPasses, drainPass_eq_none h]
    rfl
  constructor
  · rintro ⟨⟨n, t, ht, hdone⟩, -⟩
    cases n with
    | zero =>
      cases ht
      exact hdone
    | succ n =>
      rw [hmore] at ht
      cases ht
  · intro hdone
    refine ⟨⟨0, s, rfl, hdone⟩, fun n t u ht _ hu => ?_⟩
    cases n with
    | zero =>
      cases ht
      rw [drainPass_eq_none h] at hu
      cases hu
    | succ n =>
      rw [hmore] at ht
      cases ht

/-- A pass and those after it. -/
theorem drainsAll_of_pass (hphase : (s.worker c).phase = .drain) (hpass : s.drainPass c cfg = some t) :
    DrainsAll cfg s c ↔
      (s.group.pendingOf c ≠ [] → (t.group.pendingOf c).length < (s.group.pendingOf c).length) ∧
      DrainsAll cfg t c := by
  have hnext : ∀ n, s.drainPasses c cfg (n + 1) = t.drainPasses c cfg n := by
    intro n
    rw [System.drainPasses, hpass]
    rfl
  constructor
  · rintro ⟨⟨n, u, hu, hdone⟩, hacks⟩
    refine ⟨fun hne => hacks 0 s t rfl hne hpass, ?_, fun n u v hu => hacks (n + 1) u v ?_⟩
    · cases n with
      | zero =>
        cases hu
        rw [System.Drained, hphase] at hdone
        cases hdone.1
      | succ n => exact ⟨n, u, (hnext n).symm.trans hu, hdone⟩
    · exact (hnext n).trans hu
  · rintro ⟨hfirst, ⟨n, u, hu, hdone⟩, hacks⟩
    refine ⟨⟨n + 1, u, (hnext n).trans hu, hdone⟩, fun n u v hu hne hv => ?_⟩
    cases n with
    | zero =>
      cases hu
      rw [hpass] at hv
      cases hv
      exact hfirst hne
    | succ n => exact hacks n u v ((hnext n).symm.trans hu) hne hv

/-- **The loop never ends** on a page without a tick. -/
theorem Stalled.not_drainsAll (h : Stalled cfg s c page) (hne : page ≠ []) : ¬ DrainsAll cfg s c := by
  rintro ⟨⟨n, t, ht, hdone⟩, -⟩
  induction n generalizing s with
  | zero =>
    cases ht
    rw [System.Drained, h.phase] at hdone
    cases hdone.1
  | succ n ih =>
    obtain ⟨u, hpass, -, hu⟩ := h.drainPass hne
    rw [System.drainPasses, hpass] at ht
    exact ih hu ht

omit [DecidableEq κ] in
theorem FoldsAfter.exists_tick (h : FoldsAfter cfg pre es) (he : e ∈ es)
    (hparse : (parseTick cfg.codec e.2).isSome) : (tickOf cfg e).isSome := by
  obtain ⟨xs, ys, rfl⟩ := List.append_of_mem he
  obtain ⟨x, hx, -⟩ := (foldsAfter_append.mp h).2.1 hparse
  exact Option.isSome_of_mem hx

/-- **From any point of the loop on.** -/
theorem Draining.empties_iff (h : Draining cfg s c pre es)
    (hlisted : ∀ e ∈ es, ∀ x ∈ tickOf cfg e, x.1.symbol ∈ cfg.instruments) :
    DrainsAll cfg s c ↔ EveryPageTicks cfg es ∧ FoldsAfter cfg pre es := by
  induction hlen : es.length using Nat.strong_induction_on generalizing s pre es with
  | _ n ih =>
  by_cases hnil : es = []
  · subst hnil
    have hdone : (s.put c { s.worker c with phase := .claim none false }).Drained c :=
      ⟨congrArg WorkerState.phase (System.worker_put_self ..), h.pending⟩
    have hleft : ((s.put c { s.worker c with phase := .claim none false }).worker c).phase ≠ .drain := by
      rw [hdone.1]
      intro hdrain
      cases hdrain
    rw [drainsAll_of_pass h.phase (drainPass_nil h.phase h.pending), drainsAll_of_phase_ne hleft]
    simp [EveryPageTicks, FoldsAfter, hdone, h.pending]
  have hpos := cfg.flushMaxRows_pos
  have hpage : s.group.xreadPending c cfg.flushMaxRows = es.take cfg.flushMaxRows := by
    rw [Group.xreadPending, h.pending]
  have hne : es.take cfg.flushMaxRows ≠ [] := by
    rw [ne_eq, List.take_eq_nil_iff, not_or]
    exact ⟨hpos.ne', hnil⟩
  have hfolds : ((s.worker c).memory.ingestAll cfg (es.take cfg.flushMaxRows)).isSome ↔ _ :=
    h.tracks.isSome_ingestAll_iff
  have hsplit : FoldsAfter cfg pre es ↔ FoldsAfter cfg pre (es.take cfg.flushMaxRows) ∧
      FoldsAfter cfg (pre ++ es.take cfg.flushMaxRows) (es.drop cfg.flushMaxRows) := by
    rw [← foldsAfter_append, List.take_append_drop]
  cases hm : (s.worker c).memory.ingestAll cfg (es.take cfg.flushMaxRows) with
  | none =>
    have hraise := drainPass_raises h.phase hpage hne hm
    have hstopped : ((s.leave c (s.worker c) .fresh).worker c).phase = .stopped :=
      congrArg WorkerState.phase (System.worker_put_self ..)
    have hnot : ¬ FoldsAfter cfg pre (es.take cfg.flushMaxRows) := by
      rw [← hfolds, hm]
      exact Bool.false_ne_true
    have hleft : ((s.leave c (s.worker c) .fresh).worker c).phase ≠ .drain := by
      rw [hstopped]
      intro hdrain
      cases hdrain
    rw [drainsAll_of_pass h.phase hraise, drainsAll_of_phase_ne hleft, System.Drained, hstopped, hsplit]
    simp [hnot]
  | some m =>
    rw [hm] at hfolds
    by_cases htick : ∃ e ∈ es.take cfg.flushMaxRows, (parseTick cfg.codec e.2).isSome
    · obtain ⟨e, he, hparse⟩ := htick
      obtain ⟨t, hpass, ht⟩ := h.drainPass_again hlisted hm he ((hfolds.mp rfl).exists_tick he hparse)
      have hlt : (es.drop cfg.flushMaxRows).length < es.length := by
        have := List.length_pos_iff.mpr hnil
        rw [List.length_drop]
        omega
      rw [drainsAll_of_pass h.phase hpass, h.pending, ht.pending,
        ih _ (hlen ▸ hlt) ht (fun e he => hlisted e (List.mem_of_mem_drop he)) rfl,
        hsplit]
      rw [show EveryPageTicks cfg es ↔ _ from everyPageTicks_iff]
      have hfirst : FoldsAfter cfg pre (es.take cfg.flushMaxRows) := hfolds.mp rfl
      constructor
      · rintro ⟨-, hpages, hrest⟩
        exact ⟨⟨fun _ => ⟨e, he, hparse⟩, hpages⟩, hfirst, hrest⟩
      · rintro ⟨⟨-, hpages⟩, -, hrest⟩
        exact ⟨fun _ => hlt, hpages, hrest⟩
    · have hbad : ∀ e ∈ es.take cfg.flushMaxRows, parseTick cfg.codec e.2 = none := by
        intro e he
        by_contra hsome
        exact htick ⟨e, he, Option.isSome_iff_ne_none.mpr hsome⟩
      have hstalled : Stalled cfg s c (es.take cfg.flushMaxRows) :=
        ⟨h.phase, h.carries.empty rfl, hpage, hbad⟩
      refine iff_of_false (hstalled.not_drainsAll hne) fun hall => htick ?_
      exact (everyPageTicks_iff.mp hall.1).1 hne

/--
**Where `drain_own_pending` ends.**

A worker with any memory acquires the lease, with any entries pending for it, and PostgreSQL takes
every batch. The loop ends with none of them pending, every pass acknowledging something, just where
each page of `flush_max_rows` of them has one that parses, and none of them raises.
-/
theorem drainsAll_iff (cfg : PersisterConfig K) (hstart : s.act c cfg .acquire = some t)
    (hlisted : ∀ e ∈ s.group.pendingOf c, ∀ x ∈ tickOf cfg e, x.1.symbol ∈ cfg.instruments) :
    DrainsAll cfg t c ↔
      EveryPageTicks cfg (s.group.pendingOf c) ∧ FoldsAfter cfg [] (s.group.pendingOf c) := by
  refine Draining.empties_iff ?_ hlisted
  rw [System.act] at hstart
  split at hstart
  · split at hstart
    · cases hstart
      refine ⟨?_, ?_, ?_, rfl⟩ <;> rw [System.worker_put_self]
      · exact carries_clear cfg _
      · exact tracks_clear cfg _
    · cases hstart
  · cases hstart

/-- Two entries in the hands of a worker that died, one of them without a time. -/
def handed : Group StreamId Fields Unit :=
  (Group.ofLog malformedThenTick.log malformedThenTick.ascending).xreadNew () 5

theorem drainsAll_handed :
    ∃ t, (System.atRest handed .empty : System Int Unit).act () sampleConfig .acquire = some t ∧
      DrainsAll sampleConfig t () := by
  have hpending : handed.pendingOf () = [malformed, (toLex (2, 0), sampleTick)] := rfl
  refine ⟨_, rfl, (drainsAll_iff sampleConfig (s := System.atRest handed .empty) rfl ?_).mpr ⟨?_, ?_⟩⟩
  · show ∀ e ∈ [malformed, (toLex (2, 0), sampleTick)], _
    decide
  · show EveryPageTicks sampleConfig [malformed, (toLex (2, 0), sampleTick)]
    intro k hk
    cases k with
    | zero => exact ⟨(toLex (2, 0), sampleTick), by decide, rfl⟩
    | succ k =>
      refine absurd ?_ hk
      rw [List.drop_eq_nil_of_le, List.take_nil]
      show 2 ≤ (k + 1) * 5
      omega
  · exact ⟨fun h => (nomatch h), fun _ => ⟨_, rfl, rfl⟩, trivial⟩

/-- A tick in the hands of a worker that died, and trimmed before the worker starts again. -/
def handedThenTrimmed : Group StreamId Fields Unit :=
  ((Group.ofLog [(toLex (1, 0), sampleTick)] (List.pairwise_singleton ..)).xreadNew () 1).trim
    (toLex (2, 0)) .empty

/-- The drain reads the trimmed entry for ever. -/
theorem trimmed_entry_stalls_drain :
    ¬ ∀ s t : System Int Unit, s.act () sampleConfig .acquire = some t →
      (∀ e ∈ s.group.pendingOf (), ∀ x ∈ tickOf sampleConfig e,
        x.1.symbol ∈ sampleConfig.instruments) → DrainsAll sampleConfig t () := by
  intro hall
  have hbad : ∀ e ∈ [((toLex (1, 0) : StreamId), (.empty : Fields))],
      parseTick sampleConfig.codec e.2 = none := by decide
  refine Stalled.not_drainsAll ⟨rfl, rfl, ?_, hbad⟩ (by simp)
    (hall (System.atRest handedThenTrimmed .empty) _ rfl ?_)
  · rfl
  · show ∀ e ∈ [((toLex (1, 0) : StreamId), (.empty : Fields))], _
    decide

end FxTracker.Worker.Ticks
