import FxTracker.Worker.Roles

/-!
# Handing the lease over

The watermark makes a merge depend on order, and neither `lost` nor the lease itself stops a worker
between two tests of the event. The invariant of `Roles` is kept as long as

* the lease is not lost between a fold and its commit, nor between a commit and its `XACK` while other
  pending entries await theirs,
* no entry is handed to a worker that has lost the lease, and it comes to no flush with entries in
  memory,
* the sweep finds no entry idle that is in memory, and
* with more than one worker, no run ends with an exception.

* `inv_step` — these conditions, `Disciplined`, keep the invariant
* `inv_of_reachable` — so it holds in every state a disciplined run reaches
-/

namespace FxTracker.Worker.Ticks

open Redis

variable {K κ : Type} [LinearOrder K] [FloatOps K] [DecidableEq κ]

/-! ## The conditions on a step -/

/-- What a command hands its worker. -/
def System.handed (s : System K κ) (c : κ) (cfg : PersisterConfig K) : Act → List Entry
  | .readPending => s.group.xreadPending c cfg.flushMaxRows
  | .claim idle =>
    match (s.worker c).phase with
    | .claim start sweep =>
      (s.group.claimable (fun id => !sweep || idle id) start cfg.flushMaxRows).1
    | _ => []
  | .read count => s.group.fresh count
  | _ => []

/-- The step ends a run with an exception. -/
def System.raises (s : System K κ) (c : κ) (cfg : PersisterConfig K) : Act → Bool
  | .commitLost _ | .ackLost | .fail _ | .crash => true
  | .commit => (upsertBars cfg.instruments s.table (s.worker c).memory.batch).isNone
  | what => ((s.worker c).memory.ingestAll cfg (s.handed c cfg what)).isNone

/-- The step comes to a flush. -/
def Act.flushes : Act → Bool
  | .stop => true
  | .check due => due
  | _ => false

/-- What a worker that has lost the lease may still do. -/
def System.QuietOk (s : System K κ) (c : κ) (cfg : PersisterConfig K) (what : Act) : Prop :=
  s.handed c cfg what = [] ∧ (what.flushes = true → (s.worker c).memory.accs.isEmpty = true)

/-- No entry in memory looks abandoned to the sweep. -/
def System.SweepOk (s : System K κ) (c : κ) (idle : StreamId → Bool) : Prop :=
  (s.worker c).phase.isSweep = true → ∀ id ∈ (s.worker c).memory.unacked, idle id = false

/-- When the lease may be lost, and when a sweep may come. -/
def System.TimingOk (s : System K κ) (c : κ) (cfg : PersisterConfig K) : Act → Prop
  | .lose => (s.worker c).phase.isFlushing = false ∧
      ((s.worker c).phase.isAcking = true → ∀ p ∈ s.group.pel, Settled cfg s.table p.1)
  | .claim idle => s.SweepOk c idle
  | _ => True

def Disciplined (cfg : PersisterConfig K) (s : System K κ) : Action κ → Prop
  | .append _ fields => (parseTick cfg.codec fields).isSome
  | .act c what =>
    (s.raises c cfg what = true → Subsingleton κ) ∧
      ((s.worker c).lost = true → s.QuietOk c cfg what) ∧ s.TimingOk c cfg what

instance (cfg : PersisterConfig K) (table : BarTable K) (e : Entry) :
    Decidable (Settled cfg table e) :=
  inferInstanceAs (Decidable (∃ x ∈ entryPrice cfg e.2, ∃ r ∈ table.get? x.1, e.1 ≤ r.lastStreamId))

instance (s : System K κ) (c : κ) (cfg : PersisterConfig K) (what : Act) :
    Decidable (s.TimingOk c cfg what) :=
  match what with
  | .lose => inferInstanceAs (Decidable (_ ∧ (_ → ∀ p ∈ s.group.pel, Settled cfg s.table p.1)))
  | .claim _ => inferInstanceAs (Decidable (_ → ∀ id ∈ (s.worker c).memory.unacked, _))
  | .acquire | .readPending | .top | .stop | .read _ | .check _ | .sweepCheck _ | .commit
  | .commitLost _ | .ack | .ackLost | .fail _ | .crash => isTrue trivial

instance [Decidable (Subsingleton κ)] (cfg : PersisterConfig K) (s : System K κ) (a : Action κ) :
    Decidable (Disciplined cfg s a) :=
  match a with
  | .append _ _ => inferInstanceAs (Decidable (_ = true))
  | .act c what => inferInstanceAs (Decidable ((_ → _) ∧
      (_ → s.handed c cfg what = [] ∧ (_ → _)) ∧ s.TimingOk c cfg what))

variable {cfg : PersisterConfig K} {s t s' : System K κ} {c : κ} {w : WorkerState K}
  {C P F R H : List Entry} {m : Persister K} {table' : BarTable K}

omit [DecidableEq κ] in
theorem Inv.frame_of_lease (hi : Inv cfg s) (hc : s.lease = some c) :
    ∃ C P F R, Frame cfg s c C P F R ∧ (s.worker c).lost = false ∧
      LeaderOk cfg s.group.pel C P F R c (s.worker c) := by
  obtain ⟨hparse, C, P, F, R, hq, hr⟩ := hi
  refine ⟨C, P, F, R, ⟨hparse, hq, fun d hd => hr.aside d ?_⟩, hr.leader c hc⟩
  rw [hc]
  exact fun h => hd (Option.some.inj h).symm

/-! ## The steps of a worker without the lease -/

omit [DecidableEq κ] in
/-- The `XACK` of a worker that lost the lease after its commit. -/
theorem Inv.xack_aside (hi : Inv cfg s) (hc : s.lease ≠ some c) {resume : Resume} {sweep : Bool}
    (hphase : (s.worker c).phase = .acking resume sweep) :
    Inv cfg { s with group := s.group.xack (s.worker c).memory.unacked } := by
  obtain ⟨hparse, C, P, F, R, hq, hr⟩ := hi
  obtain ⟨H, hun, hH, hsafe⟩ : Ackable C P (F ++ R) (s.worker c).memory := by
    rcases hr.aside c hc with h | ⟨-, h⟩
    · rw [hphase] at h
      cases h
    · unfold LostOk at h
      rw [hphase] at h
      exact h
  have hpel : ∀ p ∈ (s.group.xack (s.worker c).memory.unacked).pel, p ∈ s.group.pel :=
    fun p hp => List.mem_of_mem_filter hp
  have hP : ∀ e ∈ P.filter (·.1 ∉ H.map Prod.fst), e ∈ P := fun e he => List.mem_of_mem_filter he
  refine ⟨hparse, C, P.filter (·.1 ∉ H.map Prod.fst), F, R, ?_, fun d hd => ?_, fun d hd => ?_, fun h => ?_⟩
  · show Queue cfg (s.group.xack (s.worker c).memory.unacked) s.table _ _ _ _
    rw [hun]
    exact hq.xack hH hsafe
  · exact (hr.aside d hd).mono (spares_of_subset hP)
  · obtain ⟨hlost, hok⟩ := hr.leader d hd
    exact ⟨hlost, hok.anti hpel hP⟩
  · obtain ⟨hF, hrest⟩ := hr.vacant h
    exact ⟨hF, hrest.anti hP⟩

omit [DecidableEq κ] in
/-- A worker that has lost the lease has no commit to make. -/
theorem Inv.not_flushing (hi : Inv cfg s) (hlost : (s.worker c).lost = true) (resume : Resume)
    (sweep : Bool) : (s.worker c).phase ≠ .flushing resume sweep := by
  intro hphase
  obtain ⟨C, P, F, R, -, hr⟩ := hi.cut
  by_cases hc : s.lease = some c
  · rw [(hr.leader c hc).1] at hlost
    cases hlost
  · rcases hr.aside c hc with hstop | ⟨-, hok⟩
    · rw [hphase] at hstop
      cases hstop
    · unfold LostOk at hok
      rw [hphase] at hok
      exact hok

/-- **A step of a worker that has lost the lease.** -/
theorem inv_act_lost (hi : Inv cfg s) (hc : s.lease ≠ some c) (hlost : (s.worker c).lost = true)
    (hphase : (s.worker c).phase ≠ .stopped) {what : Act} (hquiet : s.QuietOk c cfg what)
    (h : s.act c cfg what = some s') : Inv cfg s' := by
  obtain ⟨hhanded, hflush⟩ := hquiet
  have hflushing := hi.not_flushing hlost
  have hput : ∀ phase, Phase.Harmless phase → Inv cfg (s.put c { s.worker c with phase }) :=
    fun phase hp => hi.put_aside hc (.inr ⟨hlost, hp⟩)
  have hpage : s.handed c cfg what = [] → ∀ {start sweep}, (s.worker c).phase = .claim start sweep →
      ∀ {idle page next}, what = .claim idle →
      s.group.claimable (fun id => !sweep || idle id) start cfg.flushMaxRows = (page, next) →
      page = [] := by
    rintro hnil start sweep hp idle page next rfl hclaim
    rw [System.handed, hp] at hnil
    dsimp only at hnil
    rw [hclaim] at hnil
    exact hnil
  cases takes_of_act h with
  | acquire hp => exact absurd hp hphase
  | lose hheld => exact absurd hheld hc
  | drained => exact hput _ trivial
  | readPending hp hne => exact absurd hhanded hne
  | claimed =>
    rw [Group.xautoclaim_nil]
    exact hput _ trivial
  | claim hp hclaim hne => exact absurd (hpage hhanded hp rfl hclaim) hne
  | lost | crash => exact hi.leave_aside hc _
  | top hp hheld =>
    rw [hlost] at hheld
    cases hheld
  | stop | due =>
    unfold System.beginFlush
    rw [if_pos (hflush rfl)]
    exact hi.goOn_aside hc hlost _
  | read hp hcount hfold =>
    rw [System.handed] at hhanded
    rw [hhanded] at hfold
    cases hfold
    rw [Group.xreadNew_of_fresh_eq_nil hhanded]
    exact hput _ trivial
  | readRaises hp hcount hfold =>
    rw [System.handed] at hhanded
    rw [hhanded] at hfold
    cases hfold
  | notDue => exact hput _ trivial
  | @sweepCheck due =>
    refine hput _ ?_
    cases due <;> trivial
  | commit hp | commitRaises hp | commitLost hp => exact absurd hp (hflushing _ _)
  | @ack resume sweep hp =>
    exact (hi.xack_aside hc hp).goOn_aside
      (w := { s.worker c with memory := (s.worker c).memory.clearBatch }) hc hlost resume
  | ackLost hp => exact (hi.xack_aside hc hp).failed_aside hc hlost _ _
  | fail => exact hi.failed_aside hc hlost _ _

/-! ## The steps of the leader -/

omit [DecidableEq κ] in
/-- What the leader takes in hand with a page. -/
theorem Frame.take_page (hf : Frame cfg t c C P [] R) (hr : Rested κ P R) (hp : Page cfg C P R H) :
    ∃ F R', Frame cfg t c C P F R' ∧ Committable κ cfg C P F R' H ∧ ∀ e ∈ H, e ∉ R' := by
  have hq := hf.queue
  rcases hp with ⟨hH, hsafe⟩ | ⟨rfl, R', rfl, hlen⟩
  · refine ⟨[], R, hf, .inl ⟨rfl, hH, hr, hsafe⟩, fun e he heR => ?_⟩
    exact absurd (hq.lt_of_mem (hH e he) heR) (lt_irrefl _)
  · refine ⟨H, R', ⟨hf.parses, hq.take_page, hf.others⟩, .inr ⟨rfl, rfl, hlen⟩, fun e he heR => ?_⟩
    have hasc : (H ++ R').Pairwise fun x y => x.1 < y.1 :=
      (List.pairwise_append.mp hq.ascending).2.1
    exact absurd ((List.pairwise_append.mp hasc).2.2 e he e heR) (lt_irrefl _)

/-- A page is folded in and about to be committed. -/
theorem Frame.receive (hf : Frame cfg t c C P F R) (hlease : t.lease = some c)
    (hlost : w.lost = false) (hm : w.memory.Holds cfg []) (hH : Committable κ cfg C P F R H)
    (hsub : H.Sublist (P ++ (F ++ R))) (hne : H ≠ []) {resume : Resume}
    (hres : ResumeOk t.group.pel (H.map Prod.fst) resume)
    (hraise : w.memory.ingestAll cfg H = none → Subsingleton κ) :
    Inv cfg (t.receive c w cfg H resume false) := by
  unfold System.receive
  cases hfold : w.memory.ingestAll cfg H with
  | none =>
    have := hraise hfold
    exact hf.abandon hlease _
  | some memory =>
    have hholds : memory.Holds cfg H :=
      Persister.holds_ingestAll hm (hf.queue.ascending_pel.sublist hsub) hfold
    have hparse : ∀ e ∈ H, (parseTick cfg.codec e.2).isSome := fun e he => by
      have hmem := hsub.subset he
      rw [← hf.queue.pel] at hmem
      obtain ⟨p, hp, rfl⟩ := List.mem_map.mp hmem
      exact hf.parses _ (Group.mem_log_of_mem_pel hp)
    refine hf.beginFlush (w := { w with memory }) hlease hlost (fun hempty => ?_) fun _ => ?_
    · exact absurd ((hholds.accs_isEmpty hparse).mp hempty) hne
    · refine ⟨rfl, ?_, H, hholds, hH⟩
      show ResumeOk t.group.pel memory.unacked resume
      rw [hholds.unacked]
      exact hres

omit [DecidableEq κ] in
/-- **The commit of the leader.** -/
theorem Frame.commit (hf : Frame cfg t c C P F R) (hm : m.Holds cfg H)
    (hH : Committable κ cfg C P F R H)
    (hu : upsertBars cfg.instruments t.table m.batch = some table') :
    ∃ C' P', Frame cfg { t with table := table' } c C' P' [] R ∧ (∀ e ∈ H, e ∈ C') ∧
      AckSafe P' R H ∧ Rested κ (P'.filter (·.1 ∉ m.unacked)) R := by
  have hq := hf.queue
  rcases hH with ⟨rfl, hsub, hr, hsafe⟩ | ⟨rfl, rfl, hlen⟩
  · refine ⟨C, P, ⟨hf.parses, hq.commit_replay hm hsub hu, hf.others⟩, hsub, hsafe, ?_⟩
    exact hr.anti fun e he => List.mem_of_mem_filter he
  · refine ⟨C ++ H, H, ⟨hf.parses, hq.commit_next hm hlen hu, fun d hd => ?_⟩,
      fun e he => List.mem_append_right _ he, .inr (.inl fun _ he => he), .inr (.inr ?_)⟩
    · exact (hf.others d hd).mono
        (spares_commit fun x hx y hy => hq.lt_of_mem hx (List.mem_append_left _ hy))
    · refine List.filter_eq_nil_iff.mpr fun e he => ?_
      rw [hm.unacked]
      simpa using ⟨e.2, he⟩

omit [DecidableEq κ] in
theorem Frame.xack (hf : Frame cfg t c C P [] R) (hm : Ackable C P R m) :
    Frame cfg { t with group := t.group.xack m.unacked } c C (P.filter (·.1 ∉ m.unacked)) [] R := by
  obtain ⟨H, hun, hH, hsafe⟩ := hm
  refine ⟨hf.parses, ?_, fun d hd => ?_⟩
  · rw [hun]
    exact hf.queue.xack hH hsafe
  · exact (hf.others d hd).mono (spares_of_subset fun e he => List.mem_of_mem_filter he)

/-- After an `XACK` the leader finds what the place it goes on at relies on. -/
theorem Frame.goOn_acked (hf : Frame cfg t c C P [] R) (hlease : t.lease = some c)
    (hlost : w.lost = false) (hr : Rested κ P R) (hm : w.memory.Holds cfg []) {resume : Resume}
    (hres : ResumeOk t.group.pel [] resume) : Inv cfg (t.goOn c w resume) := by
  have hsteady : (∀ p ∈ t.group.pel, p.1.1 ∈ ([] : List StreamId)) →
      Steady cfg t.group.pel P [] R c w.memory := by
    intro h
    have hnil : t.group.pel = [] :=
      List.eq_nil_iff_forall_not_mem.mpr fun p hp => by cases h p hp
    have hpel := hf.queue.pel
    rw [hnil] at hpel
    obtain ⟨hP, hR⟩ := List.append_eq_nil_iff.mp hpel.symm
    exact ⟨hP, hR, hm, fun p hp => by rw [hnil] at hp; cases hp⟩
  refine hf.goOn hlease hlost ?_
  cases resume with
  | drain => exact ⟨rfl, hr, hm⟩
  | claim next sweep =>
    obtain ⟨rfl, hnext⟩ := hres
    refine ⟨⟨rfl, hr, hm⟩, fun id hid p hp => ?_⟩
    cases hid
    exact (hnext p hp).resolve_left List.not_mem_nil
  | loop => exact hsteady hres
  | sweepCheck => exact hsteady hres
  | exit => exact ⟨rfl, hr⟩

omit [DecidableEq κ] in
theorem ResumeOk.xack {g : Group StreamId Fields κ} {unacked : List StreamId} {resume : Resume}
    (h : ResumeOk g.pel unacked resume) : ResumeOk (g.xack unacked).pel [] resume := by
  have hleft : ∀ p ∈ (g.xack unacked).pel, p ∈ g.pel ∧ p.1.1 ∉ unacked := fun p hp =>
    Group.mem_pel_xack.mp hp
  cases resume with
  | drain | exit => trivial
  | claim next sweep =>
    exact ⟨h.1, fun p hp => .inr ((h.2 p (hleft p hp).1).resolve_left (hleft p hp).2)⟩
  | loop | sweepCheck => exact fun p hp => absurd (h p (hleft p hp).1) (hleft p hp).2

omit [DecidableEq κ] in
theorem Frame.set_group {g : Group StreamId Fields κ} (hf : Frame cfg s c C P F R)
    (hlog : g.log = s.group.log) (hq : Queue cfg g s.table C P F R) :
    Frame cfg { s with group := g } c C P F R :=
  ⟨fun e he => hf.parses e (hlog ▸ he), hq, hf.others⟩

theorem inv_readPending (hf : Frame cfg s c C P F R) (hc : s.lease = some c)
    (hlost : (s.worker c).lost = false) (hb : Between κ cfg P F R (s.worker c).memory)
    (hraise : s.raises c cfg .readPending = true → Subsingleton κ)
    (h : s.act c cfg .readPending = some s') : Inv cfg s' := by
  obtain ⟨rfl, hr, hm⟩ := hb
  cases takes_of_act h with
  | drained => exact hf.put hc hlost ⟨⟨rfl, hr, hm⟩, fun _ hid => by cases hid⟩
  | readPending _ hne =>
    obtain ⟨F, R', hf', hH, -⟩ := hf.take_page hr (hf.queue.page_own hr hne)
    refine hf'.receive hc hlost hm hH ?_ hne trivial fun hnone => hraise ?_
    · rw [← hf'.queue.pel]
      exact (List.take_sublist ..).trans (List.filter_sublist.map _)
    · exact Option.isNone_iff_eq_none.mpr hnone

/-- A claim while the leader replays pages. -/
theorem inv_claim_page (hf : Frame cfg s c C P F R) (hc : s.lease = some c)
    (hlost : (s.worker c).lost = false) {start : Option StreamId} {idle : StreamId → Bool}
    (hphase : (s.worker c).phase = .claim start false)
    (hb : Between κ cfg P F R (s.worker c).memory)
    (hstart : ∀ id ∈ start, ∀ p ∈ s.group.pel, id ≤ p.1.1)
    (hraise : s.raises c cfg (.claim idle) = true → Subsingleton κ)
    (h : s.act c cfg (.claim idle) = some s') : Inv cfg s' := by
  obtain ⟨rfl, hr, hm⟩ := hb
  have hq := hf.queue
  have hpage := hq.page
  -- every pending entry is past the start of the scan, so the page is the first of them
  have hall : s.group.claimable (fun id => !false || idle id) start cfg.flushMaxRows =
      ((P ++ R).take cfg.flushMaxRows, (s.group.pel.drop cfg.flushMaxRows).head?.map (·.1.1)) := by
    have hpel := hq.pel
    rw [List.nil_append] at hpel
    rw [← hpel]
    exact Group.claimable_all hstart _
  have hlog : ∀ e ∈ (P ++ R).take cfg.flushMaxRows, e ∈ s.group.log := fun e he => by
    have hmem := List.mem_of_mem_take he
    rw [show P ++ R = P ++ ([] ++ R) from rfl, ← hq.pel] at hmem
    obtain ⟨p, hp, rfl⟩ := List.mem_map.mp hmem
    exact Group.mem_log_of_mem_pel hp
  rw [System.act, hphase] at h
  dsimp only at h
  rw [hall] at h
  dsimp only at h
  split at h
  · next hnil =>
    cases h
    have hempty : P ++ R = [] := by
      have hpos := cfg.flushMaxRows_pos
      rcases List.take_eq_nil_iff.mp hnil with h0 | h0
      · omega
      · exact h0
    obtain ⟨rfl, rfl⟩ := List.append_eq_nil_iff.mp hempty
    rw [hnil, Group.xautoclaim_nil]
    refine hf.put hc hlost ⟨rfl, rfl, hm, fun p hp => ?_⟩
    have hmem : p.1 ∈ s.group.pel.map Prod.fst := List.mem_map_of_mem hp
    rw [hq.pel] at hmem
    cases hmem
  · next hne =>
    cases h
    obtain ⟨F, R', hf', hH, hdisj⟩ := hf.take_page hr hpage
    have hq' := hf'.queue.xautoclaim c hlog hdisj
    -- what is pending afterwards is in the page, or from the next start on
    have hleft : ∀ p ∈ (s.group.xautoclaim c ((P ++ R).take cfg.flushMaxRows)).pel,
        p.1.1 ∈ ((P ++ R).take cfg.flushMaxRows).map Prod.fst ∨
          ∃ next, (s.group.pel.drop cfg.flushMaxRows).head?.map (·.1.1) = some next ∧
            next ≤ p.1.1 := fun p hp => by
      have hmem : p.1 ∈ s.group.pel.map Prod.fst := by
        rw [← Group.map_fst_pel_xautoclaim]
        exact List.mem_map_of_mem hp
      obtain ⟨q, hq₀, hqp⟩ := List.mem_map.mp hmem
      rw [← hqp]
      refine (Group.mem_take_or_next_le hq₀ cfg.flushMaxRows).imp_left fun htake => ?_
      rw [hq.pel] at htake
      exact List.mem_map_of_mem htake
    refine (hf'.set_group (g := s.group.xautoclaim c _) rfl hq').receive hc hlost hm hH ?_ hne ?_ ?_
    · rw [← hf'.queue.pel, hq.pel]
      exact List.take_sublist ..
    · cases hnext : (s.group.pel.drop cfg.flushMaxRows).head?.map (·.1.1) with
      | none =>
        refine fun p hp => (hleft p hp).resolve_right ?_
        rintro ⟨next, hsome, -⟩
        rw [hnext] at hsome
        cases hsome
      | some next =>
        refine ⟨rfl, fun p hp => (hleft p hp).imp_right ?_⟩
        rintro ⟨id, hsome, hle⟩
        rw [hnext] at hsome
        cases hsome
        exact hle
    · refine fun hnone => hraise ?_
      have hhanded : s.handed c cfg (.claim idle) = (P ++ R).take cfg.flushMaxRows := by
        rw [System.handed, hphase]
        dsimp only
        rw [hall]
      show ((s.worker c).memory.ingestAll cfg (s.handed c cfg (.claim idle))).isNone = true
      rw [hhanded, hnone]
      rfl

/-! ### In the loop -/

omit [DecidableEq κ] in
theorem Frame.parses_hand (hf : Frame cfg s c C P F R) :
    ∀ e ∈ F, (parseTick cfg.codec e.2).isSome := fun e he =>
  hf.parses e (hf.queue.mem_log (List.mem_append_right _ (List.mem_append_left _ he)))

omit [DecidableEq κ] in
/-- In the loop the pending entries are those in memory. -/
theorem Steady.mem_unacked (hs : Steady cfg s.group.pel P F R c m) (hf : Frame cfg s c C P F R) :
    ∀ p ∈ s.group.pel, p.1.1 ∈ m.unacked := by
  intro p hp
  have hmem : p.1 ∈ s.group.pel.map Prod.fst := List.mem_map_of_mem hp
  rw [hf.queue.pel, hs.leftover, hs.rest, List.nil_append, List.append_nil] at hmem
  rw [hs.holds.unacked]
  exact List.mem_map_of_mem hmem

/-- The sweep finds nothing to claim. -/
theorem inv_claim_sweep (hf : Frame cfg s c C P F R) (hc : s.lease = some c)
    (hlost : (s.worker c).lost = false) {start : Option StreamId} {idle : StreamId → Bool}
    (hphase : (s.worker c).phase = .claim start true)
    (hs : Steady cfg s.group.pel P F R c (s.worker c).memory) (hsweep : s.SweepOk c idle)
    (h : s.act c cfg (.claim idle) = some s') : Inv cfg s' := by
  have hnone : (s.group.claimable (fun id => !true || idle id) start cfg.flushMaxRows).1 = [] :=
    Group.claimable_of_busy (fun p hp => hsweep (by rw [hphase]; rfl) _ (hs.mem_unacked hf p hp)) _ _
  rw [System.act, hphase] at h
  dsimp only at h
  rw [hnone, Group.xautoclaim_nil] at h
  cases h
  exact hf.put hc hlost hs

theorem inv_claim (hf : Frame cfg s c C P F R) (hc : s.lease = some c)
    (hlost : (s.worker c).lost = false) {start : Option StreamId} {sweep : Bool}
    {idle : StreamId → Bool} (hphase : (s.worker c).phase = .claim start sweep)
    (hok : LeaderOk cfg s.group.pel C P F R c (s.worker c))
    (hraise : s.raises c cfg (.claim idle) = true → Subsingleton κ) (hsweep : s.SweepOk c idle)
    (h : s.act c cfg (.claim idle) = some s') : Inv cfg s' := by
  unfold LeaderOk at hok
  rw [hphase] at hok
  cases sweep with
  | false => exact inv_claim_page hf hc hlost hphase hok.1 hok.2 hraise h
  | true => exact inv_claim_sweep hf hc hlost hphase hok hsweep h

/-- In the loop a flush commits all there is in hand. -/
theorem Frame.beginFlush_steady (hf : Frame cfg s c C P F R) (hc : s.lease = some c)
    (hlost : w.lost = false) (hs : Steady cfg s.group.pel P F R c w.memory) {resume : Resume}
    (hgo : F = [] → GoOnOk cfg s.group.pel C P F R c w resume)
    (hres : ResumeOk s.group.pel w.memory.unacked resume) :
    Inv cfg (s.beginFlush c w resume false) :=
  hf.beginFlush hc hlost (fun hempty => hgo ((hs.holds.accs_isEmpty hf.parses_hand).mp hempty))
    fun _ => ⟨rfl, hres, F, hs.holds, .inr ⟨rfl, hs.leftover, .inl hs.rest⟩⟩

theorem inv_read (hf : Frame cfg s c C P F R) (hc : s.lease = some c)
    (hlost : (s.worker c).lost = false) {count : Nat}
    (hs : Steady cfg s.group.pel P F R c (s.worker c).memory)
    (hraise : s.raises c cfg (.read count) = true → Subsingleton κ)
    (h : s.act c cfg (.read count) = some s') : Inv cfg s' := by
  obtain ⟨rfl, rfl, hm, hmine⟩ := hs
  have hq := hf.queue.xreadNew c count
  have hf' : Frame cfg { s with group := s.group.xreadNew c count } c C [] (F ++ s.group.fresh count) [] :=
    ⟨hf.parses, hq, fun d hd => (hf.others d hd).mono spares_of_nil⟩
  cases takes_of_act h with
  | readRaises _ _ hfold =>
    have := hraise (Option.isNone_iff_eq_none.mpr hfold)
    exact hf'.abandon hc _
  | read _ _ hfold =>
    have hasc := (List.pairwise_append.mp hq.ascending).2.1
    rw [List.append_nil] at hasc
    refine hf'.put hc hlost ⟨rfl, rfl, Persister.holds_ingestAll hm hasc hfold, fun p hp => ?_⟩
    rcases List.mem_append.mp hp with hp | hp
    · exact hmine p hp
    · obtain ⟨e, -, rfl⟩ := List.mem_map.mp hp
      rfl

/-! ### Commit and acknowledgement -/

theorem inv_commit (hf : Frame cfg s c C P F R) (hc : s.lease = some c)
    (hlost : (s.worker c).lost = false) {resume : Resume} {sweep : Bool}
    (hphase : (s.worker c).phase = .flushing resume sweep)
    (hok : LeaderOk cfg s.group.pel C P F R c (s.worker c))
    (hraise : s.raises c cfg .commit = true → Subsingleton κ)
    (h : s.act c cfg .commit = some s') : Inv cfg s' := by
  unfold LeaderOk at hok
  rw [hphase] at hok
  obtain ⟨rfl, hres, H, hm, hH⟩ := hok
  cases takes_of_act h with
  | commit hphase' hu =>
    rw [hphase] at hphase'
    cases hphase'
    obtain ⟨C', P', hf', hsub, hsafe, hr⟩ := hf.commit hm hH hu
    exact hf'.put hc hlost ⟨rfl, hres, rfl, ⟨H, hm.unacked, hsub, hsafe⟩, hr⟩
  | commitRaises _ hu =>
    have := hraise (Option.isNone_iff_eq_none.mpr hu)
    exact hf.abandon hc _

theorem inv_commitLost [Subsingleton κ] (hf : Frame cfg s c C P F R) (hc : s.lease = some c)
    (hlost : (s.worker c).lost = false) {failure : Failure}
    (hok : LeaderOk cfg s.group.pel C P F R c (s.worker c))
    (h : s.act c cfg (.commitLost failure) = some s') : Inv cfg s' := by
  cases takes_of_act h with
  | commitLost hphase hu =>
    unfold LeaderOk at hok
    rw [hphase] at hok
    obtain ⟨rfl, hres, H, hm, hH⟩ := hok
    obtain ⟨C', P', hf', -⟩ := hf.commit hm hH hu
    exact hf'.failed hc hlost (fun h => by cases h) failure

theorem inv_ack (hf : Frame cfg s c C P F R) (hc : s.lease = some c)
    (hlost : (s.worker c).lost = false)
    (hok : LeaderOk cfg s.group.pel C P F R c (s.worker c))
    (h : s.act c cfg .ack = some s') : Inv cfg s' := by
  cases takes_of_act h with
  | ack hphase =>
    unfold LeaderOk at hok
    rw [hphase] at hok
    obtain ⟨rfl, hres, rfl, hack, hr⟩ := hok
    exact (hf.xack hack).goOn_acked (w := { s.worker c with memory := (s.worker c).memory.clearBatch })
      hc hlost hr (Persister.holds_clearBatch ..) hres.xack

theorem inv_ackLost [Subsingleton κ] (hf : Frame cfg s c C P F R) (hc : s.lease = some c)
    (hlost : (s.worker c).lost = false)
    (hok : LeaderOk cfg s.group.pel C P F R c (s.worker c))
    (h : s.act c cfg .ackLost = some s') : Inv cfg s' := by
  cases takes_of_act h with
  | ackLost hphase =>
    unfold LeaderOk at hok
    rw [hphase] at hok
    obtain ⟨rfl, -, rfl, hack, -⟩ := hok
    exact (hf.xack hack).failed hc hlost (fun h => by cases h) _

omit [DecidableEq κ] in
/-- What a failure finds of a leader: only a sweep's failure is swallowed. -/
theorem LeaderOk.sweep (hok : LeaderOk cfg s.group.pel C P F R c w) (hsweep : w.phase.swallows = true) :
    Steady cfg s.group.pel P F R c w.memory := by
  unfold LeaderOk at hok
  cases hp : w.phase with
  | claim start sweep =>
    rw [hp] at hok hsweep
    change sweep = true at hsweep
    subst hsweep
    exact hok
  | flushing resume sweep | acking resume sweep =>
    rw [hp] at hok hsweep
    change sweep = true at hsweep
    rw [hok.1] at hsweep
    cases hsweep
  | _ =>
    rw [hp] at hsweep
    cases hsweep

theorem inv_fail [Subsingleton κ] (hf : Frame cfg s c C P F R) (hc : s.lease = some c)
    (hlost : (s.worker c).lost = false) {failure : Failure}
    (hok : LeaderOk cfg s.group.pel C P F R c (s.worker c))
    (h : s.act c cfg (.fail failure) = some s') : Inv cfg s' := by
  cases takes_of_act h with
  | fail => exact hf.failed hc hlost hok.sweep failure

/-! ### The lease -/

theorem inv_acquire (hi : Inv cfg s) (h : s.act c cfg .acquire = some s') : Inv cfg s' := by
  obtain ⟨hparse, C, P, F, R, hq, hr⟩ := hi
  cases takes_of_act h with
  | acquire _ hfree =>
    obtain ⟨rfl, hrest⟩ := hr.vacant hfree
    have hf : Frame cfg { s with lease := some c } c C P [] R :=
      ⟨hparse, hq, fun d _ => hr.aside d (by rw [hfree]; exact (Option.some_ne_none d).symm)⟩
    exact hf.put rfl rfl ⟨rfl, hrest, Persister.holds_clear ..⟩

theorem inv_lose (hf : Frame cfg s c C P F R) (hc : s.lease = some c)
    (hok : LeaderOk cfg s.group.pel C P F R c (s.worker c)) (hloss : s.TimingOk c cfg .lose)
    (h : s.act c cfg .lose = some s') : Inv cfg s' := by
  rw [System.act, if_pos hc] at h
  cases h
  have hbetween : F = [] → Rested κ P R →
      Aside C P R { s.worker c with lost := true } →
      Inv cfg ({ s with lease := none }.put c { s.worker c with lost := true }) := by
    rintro rfl hr hw
    exact hf.vacate hr hw
  have hsteady : Steady cfg s.group.pel P F R c (s.worker c).memory → (s.worker c).phase.Harmless →
      Inv cfg ({ s with lease := none }.put c { s.worker c with lost := true }) := by
    rintro ⟨rfl, rfl, -, hmine⟩ hharm
    have hq := hf.queue.drop_hand fun p hp q hq' _ _ => (hmine p hp).trans (hmine q hq').symm
    exact Frame.vacate ⟨hf.parses, hq, hf.others⟩ (.inr (.inr rfl))
      (aside_of_harmless (.inr ⟨rfl, hharm⟩))
  unfold LeaderOk at hok
  obtain ⟨hflushing, hsettled⟩ := hloss
  cases hphase : (s.worker c).phase with
  | stopped =>
    rw [hphase] at hok
    exact hok.elim
  | drain =>
    rw [hphase] at hok
    exact hbetween hok.hand hok.rested (.inr ⟨rfl, by unfold LostOk; rw [hphase]; trivial⟩)
  | claim start sweep =>
    rw [hphase] at hok
    cases sweep with
    | false =>
      obtain ⟨hb, -⟩ := hok
      exact hbetween hb.hand hb.rested (.inr ⟨rfl, by unfold LostOk; rw [hphase]; trivial⟩)
    | true => exact hsteady hok (by rw [hphase]; trivial)
  | loopTop | reading | check | sweepCheck =>
    rw [hphase] at hok
    exact hsteady hok (by rw [hphase]; trivial)
  | flushing resume sweep =>
    rw [hphase] at hflushing
    cases hflushing
  | acking resume sweep =>
    rw [hphase] at hok hsettled
    obtain ⟨-, -, rfl, hack, -⟩ := hok
    have hrest : R = [] := hf.queue.rest_eq_nil (hsettled rfl)
    exact hbetween rfl (.inr (.inl hrest)) (.inr ⟨rfl, by unfold LostOk; rw [hphase]; exact hack⟩)

/-- **A step of the leader.** -/
theorem inv_act_lead (hi : Inv cfg s) (hc : s.lease = some c) {what : Act}
    (hd : Disciplined cfg s (.act c what)) (h : s.act c cfg what = some s') : Inv cfg s' := by
  obtain ⟨C, P, F, R, hf, hlost, hok⟩ := hi.frame_of_lease hc
  obtain ⟨hraise, -, hwhat⟩ := hd
  unfold LeaderOk at hok
  cases takes_of_act h with
  | acquire => exact inv_acquire hi h
  | lose => exact inv_lose hf hc hok hwhat h
  | drained hphase | readPending hphase =>
    rw [hphase] at hok
    exact inv_readPending hf hc hlost hok hraise h
  | claimed hphase | claim hphase => exact inv_claim hf hc hlost hphase hok hraise hwhat h
  | lost hphase hgone =>
    rw [hlost] at hgone
    cases hgone
  | top hphase =>
    rw [hphase] at hok
    exact hf.put hc hlost hok
  | stop hphase =>
    rw [hphase] at hok
    exact hf.beginFlush_steady hc hlost hok (fun hF => ⟨hF, .inr (.inr hok.leftover)⟩) trivial
  | read hphase | readRaises hphase =>
    rw [hphase] at hok
    exact inv_read hf hc hlost hok hraise h
  | due hphase =>
    rw [hphase] at hok
    exact hf.beginFlush_steady hc hlost hok (fun _ => hok) (hok.mem_unacked hf)
  | notDue hphase =>
    rw [hphase] at hok
    exact hf.put hc hlost hok
  | @sweepCheck due hphase =>
    rw [hphase] at hok
    cases due <;> exact hf.put hc hlost hok
  | commit hphase | commitRaises hphase => exact inv_commit hf hc hlost hphase hok hraise h
  | commitLost =>
    have := hraise rfl
    exact inv_commitLost hf hc hlost hok h
  | ack => exact inv_ack hf hc hlost hok h
  | ackLost =>
    have := hraise rfl
    exact inv_ackLost hf hc hlost hok h
  | fail =>
    have := hraise rfl
    exact inv_fail hf hc hlost hok h
  | crash =>
    have := hraise rfl
    exact hf.abandon hc _

/-! ## Every step -/

/-- A worker that is not in `run` takes the lease or does nothing. -/
theorem inv_act_stopped (hi : Inv cfg s) (hc : s.lease ≠ some c)
    (hphase : (s.worker c).phase = .stopped) {what : Act} (h : s.act c cfg what = some s') :
    Inv cfg s' := by
  cases what with
  | acquire => exact inv_acquire hi h
  | crash =>
    cases h
    exact hi.leave_aside hc _
  | lose =>
    rw [System.act, if_neg hc] at h
    cases h
  | _ =>
    rw [System.act, hphase] at h
    cases h

/-- **Every disciplined step keeps the invariant.** -/
theorem inv_step (hi : Inv cfg s) {a : Action κ} (hd : Disciplined cfg s a)
    (h : s.step cfg a = some s') : Inv cfg s' := by
  cases a with
  | append id fields =>
    obtain ⟨g, hg, rfl⟩ := Option.map_eq_some_iff.mp h
    obtain ⟨hlog, -, hpel⟩ := Group.xadd_eq_some hg
    obtain ⟨hparse, C, P, F, R, hq, hr⟩ := hi
    refine ⟨fun e he => ?_, C, P, F, R, hq.xadd hg, hr.aside, fun c hc => ?_, hr.vacant⟩
    · rw [hlog] at he
      rcases List.mem_append.mp he with he | he
      · exact hparse e he
      · rw [List.mem_singleton.mp he]
        exact hd
    · show _ ∧ LeaderOk cfg g.pel C P F R c (s.worker c)
      rw [hpel]
      exact hr.leader c hc
  | act c what =>
    by_cases hc : s.lease = some c
    · exact inv_act_lead hi hc hd h
    · by_cases hphase : (s.worker c).phase = .stopped
      · exact inv_act_stopped hi hc hphase h
      · obtain ⟨C, P, F, R, -, hr⟩ := hi.cut
        have hlost : (s.worker c).lost = true := ((hr.aside c hc).resolve_left hphase).1
        exact inv_act_lost hi hc hlost hphase (hd.2.1 hlost) h

theorem inv_of_reachable (hr : ((tickLts cfg).guard (Disciplined cfg)).Reachable s) : Inv cfg s := by
  refine hr.invariant (fun s hs => ?_) fun s a t hi ht => ?_
  · rw [hs]
    exact inv_init cfg
  · exact inv_step hi ht.2 ht.1

end FxTracker.Worker.Ticks
