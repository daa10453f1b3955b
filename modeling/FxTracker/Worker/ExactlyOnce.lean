import FxTracker.Worker.Handover
import Mathlib.Data.List.Perm.Subperm

/-!
# Every tick counts once

* `acked_step` — a step acknowledges only entries whose commit came before it
* `exactly_once` — one persister under its lease, through any crashes and failures: once everything is
  acknowledged, every row describes exactly the ticks of its bucket
-/

namespace FxTracker.Worker.Ticks

open Redis

variable {K κ : Type} [LinearOrder K] [FloatOps K]

/-- The entry is in a prefix of the stream whose ticks the table counts once each. -/
def System.Committed (s : System K κ) (cfg : PersisterConfig K) (e : Entry) : Prop :=
  ∃ C, C <+: s.group.log ∧ Covers cfg s.table C ∧ e ∈ C

/-- Each row describes the prices these entries bring to it, in their order. -/
def RowsExact (cfg : PersisterConfig K) (table : BarTable K) (es : List Entry) : Prop :=
  ∀ k, match table.get? k with
    | none => pricesOf cfg k es = []
    | some r => r.key = k ∧ r.marked.bar.Describes ((pricesOf cfg k es).map Prod.snd)

variable {cfg : PersisterConfig K} {s t : System K κ}

theorem rowsExact_of_covers {table : BarTable K} {es : List Entry} (h : Covers cfg table es) :
    RowsExact cfg table es := by
  intro k
  have hsum := h.marked k
  cases hr : table.get? k with
  | none =>
    rw [hr] at hsum
    exact summarize_eq_none_iff.mp hsum.symm
  | some r =>
    rw [hr] at hsum
    exact ⟨h.keyed k r hr, describes_of_summarize hsum.symm⟩

theorem Queue.committed {C P F R : List Entry} (hq : Queue cfg s.group s.table C P F R) {e : Entry}
    (he : e ∈ C) : s.Committed cfg e := by
  refine ⟨C, ?_, hq.covers, he⟩
  have hpre : C <+: s.group.log.take s.group.delivered := by
    rw [hq.split]
    exact List.prefix_append ..
  exact hpre.trans (List.take_prefix ..)

theorem Inv.acked_committed (hi : Inv cfg s) {e : Entry} (he : e ∈ s.group.acked) :
    s.Committed cfg e := by
  obtain ⟨C, P, F, R, hq, -⟩ := hi.cut
  exact hq.committed (hq.mem_of_mem_acked he)

/-- What a worker is about to acknowledge is committed. -/
theorem Inv.unacked_committed (hi : Inv cfg s) {c : κ} {resume : Resume} {sweep : Bool}
    (hphase : (s.worker c).phase = .acking resume sweep) {e : Entry} (he : e ∈ s.group.log)
    (hid : e.1 ∈ (s.worker c).memory.unacked) : s.Committed cfg e := by
  obtain ⟨C, P, F, R, hq, hr⟩ := hi.cut
  have hack : ∃ H : List Entry, (s.worker c).memory.unacked = H.map Prod.fst ∧ ∀ e ∈ H, e ∈ C := by
    by_cases hc : s.lease = some c
    · obtain ⟨-, hok⟩ := hr.leader c hc
      unfold LeaderOk at hok
      rw [hphase] at hok
      obtain ⟨-, -, -, ⟨H, hun, hH, -⟩, -⟩ := hok
      exact ⟨H, hun, hH⟩
    · rcases hr.aside c hc with hstop | ⟨-, hlost⟩
      · rw [hphase] at hstop
        cases hstop
      · unfold LostOk at hlost
        rw [hphase] at hlost
        obtain ⟨H, hun, hH, -⟩ := hlost
        exact ⟨H, hun, hH⟩
  obtain ⟨H, hun, hH⟩ := hack
  rw [hun] at hid
  obtain ⟨x, hx, hxe⟩ := List.mem_map.mp hid
  have heq : x = e :=
    Group.eq_of_id_eq (hq.mem_log (List.mem_append_left _ (hH x hx))) he hxe
  exact hq.committed (heq ▸ hH x hx)

/-- **A step acknowledges only what is committed already.** -/
theorem Inv.acked_step [DecidableEq κ] (hi : Inv cfg s) {a : Action κ} (h : s.step cfg a = some t) :
    ∀ e ∈ t.group.acked, s.Committed cfg e := by
  intro e he
  cases a with
  | append id fields =>
    obtain ⟨g, hg, rfl⟩ := Option.map_eq_some_iff.mp h
    exact hi.acked_committed (Group.acked_xadd hg ▸ he)
  | act c what =>
    have heff := System.effect_of_act h
    rcases heff.acked with hsub | ⟨hgroup, resume, sweep, hphase⟩
    · exact hi.acked_committed (hsub e he)
    · have hlog := Group.mem_log_of_mem_acked he
      rw [heff.log] at hlog
      rw [hgroup] at he
      rcases Group.acked_xack he with he | hid
      · exact hi.acked_committed he
      · exact hi.unacked_committed hphase hlog hid

/-- Where everything is acknowledged, every row is exact. -/
theorem Inv.rowsExact (hi : Inv cfg s) (hall : ∀ e ∈ s.group.log, e ∈ s.group.acked) :
    RowsExact cfg s.table s.group.log := by
  obtain ⟨C, P, F, R, hq, -⟩ := hi.cut
  have hlen : s.group.log.length ≤ C.length := by
    have hnd : s.group.log.Nodup := s.group.ascending.imp fun hlt heq => by
      rw [heq] at hlt
      exact absurd hlt (lt_irrefl _)
    exact (List.subperm_of_subset hnd fun e he => hq.mem_of_mem_acked (hall e he)).length_le
  have hpre : C <+: s.group.log := by
    have htake : C <+: s.group.log.take s.group.delivered := by
      rw [hq.split]
      exact List.prefix_append ..
    exact htake.trans (List.take_prefix ..)
  rw [← hpre.eq_of_length (Nat.le_antisymm hpre.length_le hlen)]
  exact rowsExact_of_covers hq.covers

/-! ## One persister -/

/-- A persister that consumes alone under its lease, on a stream of entries that parse. -/
def Alone (cfg : PersisterConfig K) (s : System K Unit) : Action Unit → Prop
  | .append _ fields => (parseTick cfg.codec fields).isSome
  | .act _ .lose => False
  | .act c (.claim idle) => s.SweepOk c idle
  | .act _ _ => True

theorem not_lost_of_alone {s : System K Unit}
    (hr : ((tickLts cfg).guard (Alone cfg)).Reachable s) : (s.worker ()).lost = false := by
  refine hr.invariant (I := fun s => (s.worker ()).lost = false) (fun s hs => ?_) fun s a t hs ht => ?_
  · rw [hs]
    rfl
  · obtain ⟨hstep, halone⟩ := ht
    cases a with
    | append id fields =>
      obtain ⟨g, -, rfl⟩ := Option.map_eq_some_iff.mp hstep
      exact hs
    | act c what =>
      have heff := System.effect_of_act hstep
      have hne : what ≠ .lose := by
        rintro rfl
        exact halone
      cases hlost : (t.worker ()).lost with
      | false => rfl
      | true => exact absurd (heff.lost hne hlost) (by rw [hs]; exact Bool.false_ne_true)

/-- A persister that consumes alone is disciplined. -/
theorem reachable_disciplined {s : System K Unit}
    (hr : ((tickLts cfg).guard (Alone cfg)).Reachable s) :
    ((tickLts cfg).guard (Disciplined cfg)).Reachable s := by
  induction hr with
  | init h => exact .init h
  | @step s t a hs h ih =>
    obtain ⟨hstep, halone⟩ := h
    refine .step ih ⟨hstep, ?_⟩
    cases a with
    | append id fields => exact halone
    | act c what =>
      have hlost : (s.worker c).lost = false := not_lost_of_alone hs
      refine ⟨fun _ => inferInstance, fun h => ?_, ?_⟩
      · rw [hlost] at h
        cases h
      · cases what with
        | lose => exact halone.elim
        | claim idle => exact halone
        | _ => trivial

/--
**Exactly-once effect of the persister.**

One persister under its lease, on any stream of entries that parse, whatever their event times: in
every state it reaches, through reads of any size, flushes at any time, commits and acknowledgements
that fail or whose answer is lost, crashes anywhere and restarts, what is acknowledged is committed,
and so was it before the step that acknowledges it. Where every entry is acknowledged, each row
describes the prices of the ticks in its bucket: their number, the first, the highest, the lowest and
the last.
-/
theorem exactly_once (cfg : PersisterConfig K) {s : System K Unit}
    (hr : ((tickLts cfg).guard (Alone cfg)).Reachable s) :
    (∀ e ∈ s.group.acked, s.Committed cfg e) ∧
    (∀ a t, s.step cfg a = some t → ∀ e ∈ t.group.acked, s.Committed cfg e) ∧
    ((∀ e ∈ s.group.log, e ∈ s.group.acked) → RowsExact cfg s.table s.group.log) := by
  have hi := inv_of_reachable (reachable_disciplined hr)
  exact ⟨fun e he => hi.acked_committed he, fun a t h => hi.acked_step h, hi.rowsExact⟩

/-- Readers of the few texts the sample ticks hold. -/
def sampleCodec : Codec Int where
  float raw := if raw = "2" then some 2 else if raw = "4" then some 4 else none
  int _ := none
  fromisoformat raw :=
    if raw = "1970-01-01T00:00:00+00:00" then some { wall := 0, offset := some 0 } else none
  isFinite _ := true

def sampleConfig : PersisterConfig Int where
  codec := sampleCodec
  bucketSeconds := 60
  flushMaxRows := 5
  flushMaxRows_pos := by decide
  instruments := ["EURUSD"]

def sampleTick : Fields :=
  ⟨[("s", "EURUSD"), ("b", "2"), ("a", "4"), ("t", "1970-01-01T00:00:00+00:00")], by decide⟩

/-- From the lease to the loop, with nothing pending. -/
def startUp {κ : Type} (c : κ) : List (Action κ) :=
  [.act c .acquire, .act c .readPending, .act c (.claim fun _ => false), .act c .top]

/-- A commit, a crash before its `XACK`, one more tick; then the replay and the next batch. -/
def crashAndReplay : List (Action Unit) :=
  [.append (toLex (5, 0)) sampleTick] ++ startUp () ++
    [.act () (.read 5), .act () (.check true), .act () .commit, .act () .crash,
      .append (toLex (5, 1)) sampleTick, .act () .acquire, .act () .readPending, .act () .commit,
      .act () .ack, .act () .readPending, .act () (.claim fun _ => false), .act () .top,
      .act () (.read 5), .act () (.check true), .act () .commit, .act () .ack]

theorem exactly_once_crashAndReplay :
    ∃ s : System Int Unit, Lts.exec (fun s a => s.step sampleConfig a) .init crashAndReplay = some s ∧
      s.table.values.map (·.tickCount) = [2] ∧
      RowsExact sampleConfig s.table s.group.log := by
  have halone : ∀ a ∈ crashAndReplay, ∀ s : System Int Unit, Alone sampleConfig s a := by
    have hparse : (parseTick sampleConfig.codec sampleTick).isSome := rfl
    simp [crashAndReplay, startUp, Alone, System.SweepOk, hparse]
  have hr : ∀ s, Lts.exec (fun s a => s.step sampleConfig a) .init crashAndReplay = some s →
      ((tickLts sampleConfig).guard (Alone sampleConfig)).Reachable s := fun s hs =>
    Lts.reachable_guard_exec (.init rfl) halone hs
  exact ⟨_, rfl, rfl, (exactly_once sampleConfig (hr _ rfl)).2.2 (by decide)⟩

end FxTracker.Worker.Ticks
