import FxTracker.Worker.Fair

/-!
# A persister that gets on

Where every entry can be stored and no return raises, each step of the worker lowers a measure of
what is left to do, but for the steps of its loop while there is nothing to read and no flush is due.

* `tended_act` — what holds of the worker, wherever it stands
* `Tended.finishes` — it finishes, on any fair run
-/

namespace FxTracker.Worker.Ticks

open Redis Persister

variable {K : Type} [FloatOps K] [LT K] [DecidableLT K] {cfg : PersisterConfig K}
  {stream : TickStream} {s t u : System K Unit} {g : Group StreamId Fields Unit} {table : BarTable K}
  {m : Persister K} {what : Act} {es : List Entry}

/-! ## What holds of the worker -/

/-- The memory has folded in `es`, pending entries that can be stored. -/
structure Loaded (cfg : PersisterConfig K) (g : Group StreamId Fields Unit) (m : Persister K)
    (es : List Entry) : Prop where
  carries : Carries cfg m es
  listed : Listed cfg m
  pending : ∀ e ∈ es, e ∈ g.pel.map Prod.fst
  provider : es ≠ [] → m.provider.isEmpty = false

/-- What a flush is about to acknowledge: the first page, or everything. -/
def Acks (cfg : PersisterConfig K) (g : Group StreamId Fields Unit) (es : List Entry) : Resume → Prop
  | .drain => es = (g.pel.map Prod.fst).take cfg.flushMaxRows
  | .claim _ sweep => sweep = true ∧ ∀ p ∈ g.pel, p.1 ∈ es
  | .loop | .sweepCheck | .exit => ∀ p ∈ g.pel, p.1 ∈ es

/-- What holds of the worker, by where it stands. -/
def Place (cfg : PersisterConfig K) (g : Group StreamId Fields Unit) (table : BarTable K)
    (m : Persister K) : Phase → Prop
  | .stopped => m = fresh
  | .drain => Carries cfg m [] ∧ (m = fresh ∨ m.provider.isEmpty = false)
  | .claim _ false => Carries cfg m [] ∧ g.pel = []
  | .claim _ true | .loopTop | .reading | .check | .sweepCheck =>
    ∃ es, Loaded cfg g m es ∧ ∀ p ∈ g.pel, p.1 ∈ es
  | .flushing resume _ => ∃ es, es ≠ [] ∧ Loaded cfg g m es ∧ Acks cfg g es resume
  | .acking resume _ =>
    ∃ es, es ≠ [] ∧ Loaded cfg g m es ∧ Acks cfg g es resume ∧ ∀ e ∈ es, Settled cfg table e

/-- The stream as the worker leaves it, between any two steps. -/
structure Kept (cfg : PersisterConfig K) (stream : TickStream) (g : Group StreamId Fields Unit)
    (table : BarTable K) : Prop where
  log : g.log = stream.log
  suffix : g.pel.map Prod.fst <:+ g.log.take g.delivered
  settled : ∀ e ∈ g.acked, Settled cfg table e
  stored : ∃ taken, TakenIn cfg g.log table taken ∧ NoneBehind cfg g.log table taken

structure Tended (cfg : PersisterConfig K) (stream : TickStream) (s : System K Unit) : Prop where
  leased : Leased s
  kept : Kept cfg stream s.group s.table
  place : Place cfg s.group s.table (s.worker ()).memory (s.worker ()).phase

/-! ## What is left to do -/

/-- What is left of the run the worker is in. With something pending, to start again is progress
unless the worker has just started. -/
def rank (g : Group StreamId Fields Unit) (m : Persister K) : Phase → Nat
  | .stopped => 4
  | .drain => if g.pel = [] ∨ m.provider.isEmpty then 3 else 5
  | .claim _ false | .flushing .. => 2
  | .acking .. => 1
  | .claim _ true | .loopTop | .reading | .check | .sweepCheck => if g.pel = [] then 1 else 5

/-- What is left to read, to acknowledge and of the run. -/
def measureOf (g : Group StreamId Fields Unit) (m : Persister K) (phase : Phase) : Nat :=
  12 * (g.log.length - g.delivered) + 6 * g.pel.length + rank g m phase

def measure (s : System K Unit) : Nat :=
  measureOf s.group (s.worker ()).memory (s.worker ()).phase

/-- How far the worker is from its next read. -/
def turnsLeft : Phase → Nat
  | .reading => 0
  | .loopTop => 1
  | .claim .. => 2
  | .sweepCheck => 3
  | _ => 4

/-- A step of the loop that does nothing. -/
structure Idles (s t : System K Unit) (what : Act) : Prop where
  group : t.group = s.group
  measure : measure t = measure s
  turns : (∃ count, what = .read count ∧ (t.worker ()).phase = .check) ∨
    turnsLeft (t.worker ()).phase < turnsLeft (s.worker ()).phase
  read : ∀ count, what = .read count → s.group.fresh count = []
  check : what = .check true → s.group.pel = []

/-- What a step comes to. -/
structure Gets (cfg : PersisterConfig K) (stream : TickStream) (s t : System K Unit) (what : Act) :
    Prop where
  kept : Kept cfg stream t.group t.table
  place : Place cfg t.group t.table (t.worker ()).memory (t.worker ()).phase
  on : what.Calm → Ticks.measure t < Ticks.measure s ∨ Idles s t what

/-! ## The stream -/

section Stream

theorem Kept.isInfix (h : Kept cfg stream g table) {page : List Entry}
    (hp : page <+: g.pel.map Prod.fst) : page <:+: stream.log := by
  rw [← h.log]
  exact hp.isInfix.trans (h.suffix.isInfix.trans (List.take_prefix ..).isInfix)

theorem Kept.mem_log (h : Kept cfg stream g table) {e : Entry} (he : e ∈ g.pel.map Prod.fst) :
    e ∈ stream.log :=
  (h.isInfix (List.prefix_refl _)).subset he

theorem map_fst_pel_xreadNew (g : Group StreamId Fields Unit) (count : Nat) :
    (g.xreadNew () count).pel.map Prod.fst = g.pel.map Prod.fst ++ g.fresh count := by
  show (g.pel ++ (g.fresh count).map (·, ())).map Prod.fst = _
  rw [List.map_append, List.map_map]
  exact congrArg _ (List.map_id _)

theorem Kept.xreadNew (h : Kept cfg stream g table) (count : Nat) :
    Kept cfg stream (g.xreadNew () count) table where
  log := h.log
  suffix := by
    show _ <:+ g.log.take (g.delivered + (g.fresh count).length)
    rw [Group.take_delivered_append_fresh, map_fst_pel_xreadNew]
    obtain ⟨pre, hpre⟩ := h.suffix
    refine ⟨pre, ?_⟩
    rw [← List.append_assoc, hpre]
  settled := fun e he => h.settled e (g.acked_xreadNew () count e he)
  stored := h.stored

/-- The stream once settled entries are acknowledged: the oldest pending ones, or all of them. -/
theorem Kept.xack (h : Kept cfg stream g table) (hpage : ∀ e ∈ es, e ∈ g.pel.map Prod.fst)
    (hes : ∀ e ∈ es, Settled cfg table e)
    (hrest : (g.xack (es.map Prod.fst)).pel.map Prod.fst <:+ g.pel.map Prod.fst) :
    Kept cfg stream (g.xack (es.map Prod.fst)) table where
  log := h.log
  suffix := hrest.trans h.suffix
  settled := fun e he => by
    rcases Group.acked_xack he with he' | hid
    · exact h.settled e he'
    · obtain ⟨f, hf, hfe⟩ := List.mem_map.mp hid
      obtain ⟨p, hp, rfl⟩ := List.mem_map.mp (hpage f hf)
      have hlog : e ∈ g.log := Group.mem_log_of_mem_acked (g := g.xack _) he
      rw [← Group.eq_of_id_eq (Group.mem_log_of_mem_pel hp) hlog hfe]
      exact hes p.1 hf
  stored := h.stored

end Stream

/-! ## The memory -/

theorem loaded_nil (h : Carries cfg m []) : Loaded cfg g m [] where
  carries := h
  listed := fun k acc hacc => by
    have hne := Dict.isEmpty_eq_false_of_get? hacc
    rw [h.empty rfl] at hne
    cases hne
  pending := fun _ he => (nomatch he)
  provider := fun hne => absurd rfl hne

theorem Loaded.storable (h : Loaded cfg g m es) (hk : Kept cfg stream g table)
    (hst : ∀ e ∈ stream.log, Storable cfg e) : ∀ e ∈ es, Storable cfg e :=
  fun e he => hst e (hk.mem_log (h.pending e he))

theorem Loaded.isEmpty_iff (h : Loaded cfg g m es) (hst : ∀ e ∈ es, Storable cfg e) :
    m.accs.isEmpty = true ↔ es = [] := by
  refine ⟨fun hempty => ?_, h.carries.empty⟩
  rw [List.eq_nil_iff_forall_not_mem]
  intro e he
  rw [h.carries.accs_isEmpty_eq_false he (hst e he)] at hempty
  cases hempty

/-- A page of pending entries folded in. -/
theorem Loaded.ingestAll {g' : Group StreamId Fields Unit} {page : List Entry}
    {m' : Persister K} (h : Loaded cfg g m es) (hm : m.ingestAll cfg page = some m')
    (hpage : ∀ e ∈ page, Storable cfg e) (hpel : ∀ e ∈ es ++ page, e ∈ g'.pel.map Prod.fst) :
    Loaded cfg g' m' (es ++ page) := by
  obtain ⟨hc, hl⟩ := h.carries.ingestAll hm
  refine ⟨hc, hl (fun e he => .inl (hpage e he)) h.listed, hpel, fun hne => ?_⟩
  by_cases hnil : page = []
  · subst hnil
    cases hm
    rw [List.append_nil] at hne
    exact h.provider hne
  · exact provider_ingestAll hm hnil hpage

omit [FloatOps K] [LT K] [DecidableLT K] in
/-- What is pending once a flush has acknowledged its entries. -/
theorem Acks.pel_xack {resume : Resume} (h : Acks cfg g es resume) :
    (g.xack (es.map Prod.fst)).pel <:+ g.pel := by
  have hall : (∀ p ∈ g.pel, p.1 ∈ es) → (g.xack (es.map Prod.fst)).pel <:+ g.pel := fun hall => by
    rw [Group.pel_xack_eq_nil fun p hp => List.mem_map_of_mem (hall p hp)]
    exact List.nil_suffix
  cases resume with
  | drain =>
    change es = _ at h
    rw [h, Group.pel_xack_take]
    exact List.drop_suffix ..
  | claim next sweep => exact hall h.2
  | loop | sweepCheck | exit => exact hall h

/-- A batch that a flush commits leaves no entry behind: what was delivered up to one of its ids is in the batch,
or is acknowledged. -/
theorem Kept.takenIn_upsert {resume : Resume} {table' : BarTable K} (hk : Kept cfg stream g table)
    (hl : Loaded cfg g m es) (ha : Acks cfg g es resume)
    (hu : upsertBars cfg.instruments table m.batch = some table') :
    ∃ taken, TakenIn cfg g.log table' taken ∧ NoneBehind cfg g.log table' taken := by
  obtain ⟨taken, hstored, hbehind⟩ := hk.stored
  have hmem : ∀ e ∈ es, e ∈ g.log := fun e he => by
    rw [hk.log]
    exact hk.mem_log (hl.pending e he)
  refine Ticks.takenIn_upsert hstored hbehind hl.carries hmem ?_ hu
  intro f hf e he hle
  have hdelivered : e ∈ g.log.take g.delivered := g.mem_delivered_of_le (hk.suffix.subset (hl.pending f hf)) he hle
  by_cases hpel : e ∈ g.pel.map Prod.fst
  · refine .inl ?_
    have hall : (∀ p ∈ g.pel, p.1 ∈ es) → e ∈ es := by
      intro hall
      obtain ⟨p, hp, rfl⟩ := List.mem_map.mp hpel
      exact hall p hp
    cases resume with
    | drain =>
      -- the page holds the oldest pending entries
      change es = _ at ha
      rw [← List.take_append_drop cfg.flushMaxRows (g.pel.map Prod.fst), ← ha, List.mem_append] at hpel
      refine hpel.resolve_right fun hlater => ?_
      have hasc := (g.ascending.sublist (List.take_sublist ..)).sublist hk.suffix.sublist
      rw [← List.take_append_drop cfg.flushMaxRows (g.pel.map Prod.fst), ← ha] at hasc
      exact absurd hle (not_le.mpr ((List.pairwise_append.mp hasc).2.2 f hf e hlater))
    | claim next sweep => exact hall ha.2
    | loop | sweepCheck | exit => exact hall ha
  · refine .inr (hbehind.of_settled he (hk.settled e (Group.mem_acked_iff.mpr ⟨hdelivered, fun hid => hpel ?_⟩)))
    obtain ⟨p, hp, hpe⟩ := List.mem_map.mp hid
    rw [← Group.eq_of_id_eq (Group.mem_log_of_mem_pel hp) he hpe]
    exact List.mem_map_of_mem hp

/-! ## One step -/

omit [FloatOps K] [LT K] [DecidableLT K] in
theorem rank_le (g : Group StreamId Fields Unit) (m : Persister K) (phase : Phase) :
    rank g m phase ≤ 5 := by
  unfold rank
  split <;> first | omega | (split <;> omega)

omit [FloatOps K] [LT K] [DecidableLT K] in
/-- Twelve for an entry read, against six for one more that is pending and five for the rank. -/
theorem measureOf_xreadNew_lt {count : Nat} (hne : g.fresh count ≠ []) (m m' : Persister K)
    (phase phase' : Phase) : measureOf (g.xreadNew () count) m phase < measureOf g m' phase' := by
  have hlen : (g.xreadNew () count).pel.length = g.pel.length + (g.fresh count).length := by
    have hmap := congrArg List.length (map_fst_pel_xreadNew g count)
    rwa [List.length_map, List.length_append, List.length_map] at hmap
  have hle : g.delivered + (g.fresh count).length ≤ g.log.length :=
    (g.xreadNew () count).delivered_le
  have hpos := List.length_pos_iff.mpr hne
  have hrank := rank_le (g.xreadNew () count) m phase
  unfold measureOf
  rw [hlen]
  show 12 * (g.log.length - (g.delivered + (g.fresh count).length)) + _ + _ < _
  omega

omit [FloatOps K] [LT K] [DecidableLT K] in
theorem measureOf_xack_lt (hne : es ≠ []) (hes : ∀ e ∈ es, e ∈ g.pel.map Prod.fst)
    (m m' : Persister K) (phase phase' : Phase) :
    measureOf (g.xack (es.map Prod.fst)) m phase < measureOf g m' phase' := by
  obtain ⟨e, he⟩ := List.exists_mem_of_ne_nil _ hne
  obtain ⟨p, hp, hpe⟩ := List.mem_map.mp (hes e he)
  have hfewer : (g.xack (es.map Prod.fst)).pel.length < g.pel.length :=
    Group.length_pel_xack_lt hp (hpe ▸ List.mem_map_of_mem he)
  have hrank := rank_le (g.xack (es.map Prod.fst)) m phase
  unfold measureOf
  show 12 * (g.log.length - g.delivered) + _ + _ < _
  omega

section Step

variable {s' : System K Unit} {w : WorkerState K}

theorem gets_put (hk : Kept cfg stream s'.group s'.table)
    (hp : Place cfg s'.group s'.table w.memory w.phase)
    (hon : what.Calm → measureOf s'.group w.memory w.phase < Ticks.measure s ∨
      Idles s (s'.put () w) what) : Gets cfg stream s (s'.put () w) what :=
  ⟨hk, hp, hon⟩

/-- The process ends. -/
theorem gets_leave (hk : Kept cfg stream s'.group s'.table)
    (hon : what.Calm → measureOf s'.group (fresh : Persister K) .stopped < Ticks.measure s) :
    Gets cfg stream s (s'.leave () w .fresh) what :=
  ⟨hk, rfl, fun hc => .inl (hon hc)⟩

/-- A flush begins with something to commit. -/
theorem gets_flush (hk : Kept cfg stream s'.group s'.table) (hl : Loaded cfg s'.group w.memory es)
    (hst : ∀ e ∈ es, Storable cfg e) (hne : es ≠ []) {resume : Resume} {sweep : Bool}
    (ha : Acks cfg s'.group es resume)
    (hlt : what.Calm → measureOf s'.group w.memory (.flushing resume sweep) < Ticks.measure s) :
    Gets cfg stream s (s'.beginFlush () w resume sweep) what := by
  have hempty : ¬ w.memory.accs.isEmpty = true := fun h => hne ((hl.isEmpty_iff hst).mp h)
  unfold System.beginFlush
  rw [if_neg hempty]
  exact gets_put hk ⟨es, hne, hl, ha⟩ fun hc => .inl (hlt hc)

variable (h : Tended cfg stream s) (hst : ∀ e ∈ stream.log, Storable cfg e)

include h

theorem gets_acquire (hs : s.act () cfg .acquire = some t) : Gets cfg stream s t .acquire := by
  obtain ⟨-, hk, hp⟩ := h
  cases takes_of_act hs with
  | acquire hphase =>
    rw [hphase] at hp
    change (s.worker ()).memory = fresh at hp
    refine gets_put hk ⟨carries_clear cfg _, .inl ?_⟩ fun _ => .inl ?_
    · rw [hp]
      rfl
    · rw [Ticks.measure, hphase, hp]
      simp [measureOf, rank, fresh, clear, clearBatch, Dict.isEmpty_empty]

include hst in
theorem gets_readPending (hret : ReturnsOk cfg stream.log)
    (hs : s.act () cfg .readPending = some t) : Gets cfg stream s t .readPending := by
  obtain ⟨-, hk, hp⟩ := h
  have hpage : s.group.xreadPending () cfg.flushMaxRows =
      (s.group.pel.map Prod.fst).take cfg.flushMaxRows := by
    rw [Group.xreadPending, Group.pendingOf_eq]
  cases takes_of_act hs with
  | drained hphase hnil =>
    rw [hphase] at hp
    rw [hpage] at hnil
    have hpel : s.group.pel = [] := by
      rcases List.take_eq_nil_iff.mp hnil with h0 | hnil
      · exact absurd h0 (Nat.ne_of_gt cfg.flushMaxRows_pos)
      · exact List.map_eq_nil_iff.mp hnil
    refine gets_put hk ⟨hp.1, hpel⟩ fun _ => .inl ?_
    rw [Ticks.measure, hphase]
    simp [measureOf, rank, hpel]
  | readPending hphase hne =>
    rw [hphase] at hp
    obtain ⟨hc, hm⟩ := hp
    rw [hpage] at hne ⊢
    have hpel : ¬ s.group.pel = [] := fun hpel => hne (by rw [hpel]; exact List.take_nil)
    have hsub : ∀ e ∈ (s.group.pel.map Prod.fst).take cfg.flushMaxRows,
        e ∈ s.group.pel.map Prod.fst := fun e he => List.mem_of_mem_take he
    have hpst := fun e he => hst e (hk.mem_log (hsub e he))
    unfold System.receive
    split
    · next memory hfold =>
      have hl := (loaded_nil (g := s.group) hc).ingestAll hfold hpst hsub
      refine gets_flush hk hl hpst hne rfl fun _ => ?_
      rw [Ticks.measure, hphase]
      simp only [measureOf, rank]
      split <;> omega
    · next hfold =>
      refine gets_leave hk fun _ => ?_
      have hprov : ¬ (s.worker ()).memory.provider.isEmpty = true := by
        rcases hm with hm | hm
        · rw [hm] at hfold
          obtain ⟨m', hm'⟩ := exists_ingestAll hst hret (hk.isInfix (List.take_prefix ..))
            (List.length_take_le ..)
          rw [hfold] at hm'
          cases hm'
        · rw [hm]
          exact Bool.false_ne_true
      rw [Ticks.measure, hphase]
      simp [measureOf, rank, hpel, hprov]

/-- What a claim finds in memory: all that is pending. -/
theorem Tended.loaded_of_claim {start : Option StreamId} {sweep : Bool}
    (hphase : (s.worker ()).phase = .claim start sweep) :
    (∃ es, Loaded cfg s.group (s.worker ()).memory es ∧ ∀ p ∈ s.group.pel, p.1 ∈ es) ∧
      (sweep = false → s.group.pel = []) := by
  obtain ⟨-, -, hp⟩ := h
  rw [hphase] at hp
  cases sweep with
  | false => exact ⟨⟨[], loaded_nil hp.1, fun p hmem => by rw [hp.2] at hmem; cases hmem⟩, fun _ => hp.2⟩
  | true => exact ⟨hp, nofun⟩

include hst in
theorem gets_claim {idle : StreamId → Bool} (hs : s.act () cfg (.claim idle) = some t) :
    Gets cfg stream s t (.claim idle) := by
  have hk := h.kept
  cases takes_of_act hs with
  | @claimed idle start next sweep hphase =>
    obtain ⟨⟨es, hl, hall⟩, hdone⟩ := h.loaded_of_claim hphase
    rw [Group.xautoclaim_nil]
    refine gets_put hk ⟨es, hl, hall⟩ fun _ => ?_
    cases sweep with
    | false =>
      left
      rw [Ticks.measure, hphase]
      simp [measureOf, rank, hdone rfl]
    | true =>
      right
      refine ⟨rfl, ?_, .inr ?_, fun _ hr => (nomatch hr), fun hr => (nomatch hr)⟩
      · rw [Ticks.measure, Ticks.measure, hphase, System.worker_put_self]
        rfl
      · rw [hphase, System.worker_put_self]
        exact Nat.lt_succ_self 1
  | @claim idle start next sweep page hphase hpage hne =>
    obtain ⟨⟨es, hl, hall⟩, hdone⟩ := h.loaded_of_claim hphase
    have hclaim : ∀ e ∈ page, e ∈ s.group.pel.map Prod.fst := fun e he => by
      have hin : e ∈ (s.group.claimable (fun id => !sweep || idle id) start cfg.flushMaxRows).1 := by
        rw [hpage]
        exact he
      obtain ⟨p, hmem, rfl⟩ := List.mem_map.mp (Group.mem_of_mem_claimScan hin)
      exact List.mem_map_of_mem (List.mem_of_mem_filter hmem)
    -- something was claimed, so something is pending, and this is the periodic sweep
    have hpel : ¬ s.group.pel = [] := fun hpel => hne (List.eq_nil_iff_forall_not_mem.mpr fun e he => by
      have hmem := hclaim e he
      rw [hpel] at hmem
      cases hmem)
    have hsweep : sweep = true := by
      cases sweep with
      | false => exact absurd (hdone rfl) hpel
      | true => rfl
    subst hsweep
    have hpst := fun e he => hst e (hk.mem_log (hclaim e he))
    have hbefore : Ticks.measure s =
        12 * (s.group.log.length - s.group.delivered) + 6 * s.group.pel.length + 5 := by
      rw [Ticks.measure, hphase]
      simp [measureOf, rank, hpel]
    rw [Group.xautoclaim_eq]
    unfold System.receive
    split
    · next memory hfold =>
      have hsub : ∀ e ∈ es ++ page, e ∈ s.group.pel.map Prod.fst := fun e he =>
        (List.mem_append.mp he).elim (hl.pending e) (hclaim e)
      have hl' := hl.ingestAll hfold hpst hsub
      have hcover : ∀ p ∈ s.group.pel, p.1 ∈ es ++ page := fun p hmem =>
        List.mem_append_left _ (hall p hmem)
      refine gets_flush hk hl' (fun e he => hst e (hk.mem_log (hsub e he)))
        (fun hnil => hne (List.append_eq_nil_iff.mp hnil).2) ?_ fun _ => ?_
      · cases next with
        | some next => exact ⟨rfl, hcover⟩
        | none => exact hcover
      · rw [hbefore]
        simp only [measureOf, rank]
        omega
    · refine gets_leave hk fun _ => ?_
      rw [hbefore]
      simp only [measureOf, rank]
      omega

theorem gets_top (hs : s.act () cfg .top = some t) : Gets cfg stream s t .top := by
  obtain ⟨⟨hlost, -, -⟩, hk, hp⟩ := h
  cases takes_of_act hs with
  | lost _ hgone =>
    rw [hlost] at hgone
    cases hgone
  | top hphase =>
    rw [hphase] at hp
    refine gets_put hk hp fun _ =>
      .inr ⟨rfl, ?_, .inr ?_, fun _ hr => (nomatch hr), fun hr => (nomatch hr)⟩
    · rw [Ticks.measure, Ticks.measure, hphase, System.worker_put_self]
      rfl
    · rw [hphase, System.worker_put_self]
      exact Nat.zero_lt_one

include hst in
theorem gets_stop (hs : s.act () cfg .stop = some t) : Gets cfg stream s t .stop := by
  obtain ⟨-, hk, hp⟩ := h
  cases takes_of_act hs with
  | stop hphase =>
    rw [hphase] at hp
    obtain ⟨es, hl, hall⟩ := hp
    by_cases hne : es = []
    · unfold System.beginFlush
      rw [if_pos (hl.carries.empty hne)]
      exact gets_leave hk fun hc => hc.elim
    · exact gets_flush hk hl (hl.storable hk hst) hne hall fun hc => hc.elim

include hst in
theorem gets_read {count : Nat} (hs : s.act () cfg (.read count) = some t) :
    Gets cfg stream s t (.read count) := by
  obtain ⟨-, hk, hp⟩ := h
  have hlt : s.group.fresh count ≠ [] → ∀ (m : Persister K) phase,
      measureOf (s.group.xreadNew () count) m phase < Ticks.measure s :=
    fun hne m phase => measureOf_xreadNew_lt hne ..
  cases takes_of_act hs with
  | @read count m' hphase _ hfold =>
    rw [hphase] at hp
    obtain ⟨es, hl, hall⟩ := hp
    have hpel := map_fst_pel_xreadNew s.group count
    have hsub : ∀ e ∈ es ++ s.group.fresh count,
        e ∈ (s.group.xreadNew () count).pel.map Prod.fst := fun e he => by
      rw [hpel, List.mem_append]
      exact (List.mem_append.mp he).imp_left (hl.pending e)
    have hl' := hl.ingestAll hfold (fun e he =>
      hst e (hk.log ▸ Group.mem_log_of_mem_fresh he)) hsub
    refine gets_put (hk.xreadNew count) ⟨_, hl', fun p hmem => ?_⟩ fun _ => ?_
    · have hmem := List.mem_map_of_mem (f := Prod.fst) hmem
      rw [hpel, List.mem_append] at hmem
      refine List.mem_append.mpr (hmem.imp_left fun hold => ?_)
      obtain ⟨q, hq, hqp⟩ := List.mem_map.mp hold
      rw [← hqp]
      exact hall q hq
    · by_cases hnil : s.group.fresh count = []
      · right
        have hsame := Group.xreadNew_of_fresh_eq_nil hnil ()
        refine ⟨hsame, ?_, .inl ⟨count, rfl, by rw [System.worker_put_self]⟩,
          fun _ hr => by cases hr; exact hnil, fun hr => (nomatch hr)⟩
        rw [Ticks.measure, Ticks.measure, hphase, System.worker_put_self]
        show measureOf (s.group.xreadNew () count) _ _ = _
        rw [hsame]
        rfl
      · exact .inl (hlt hnil ..)
  | readRaises _ _ hfold =>
    refine gets_leave (hk.xreadNew count) fun _ => hlt (fun hnil => ?_) ..
    rw [hnil] at hfold
    cases hfold

include hst in
theorem gets_check {due : Bool} (hs : s.act () cfg (.check due) = some t) :
    Gets cfg stream s t (.check due) := by
  obtain ⟨-, hk, hp⟩ := h
  have hphase : (s.worker ()).phase = .check := by cases takes_of_act hs <;> assumption
  rw [hphase] at hp
  obtain ⟨es, hl, hall⟩ := hp
  -- the step to the sweep's test
  have hgo : (due = true → s.group.pel = []) →
      Gets cfg stream s (s.put () { s.worker () with phase := .sweepCheck }) (.check due) :=
    fun hdue => by
      refine gets_put hk ⟨es, hl, hall⟩ fun _ =>
        .inr ⟨rfl, ?_, .inr ?_, fun _ hr => (nomatch hr), fun hr => ?_⟩
      · rw [Ticks.measure, Ticks.measure, hphase, System.worker_put_self]
        rfl
      · rw [hphase, System.worker_put_self]
        exact Nat.lt_succ_self 3
      · cases hr
        exact hdue rfl
  cases takes_of_act hs with
  | notDue => exact hgo nofun
  | due =>
    by_cases hne : es = []
    · have hpel : s.group.pel = [] := List.eq_nil_iff_forall_not_mem.mpr fun p hmem => by
        have hmem := hall p hmem
        rw [hne] at hmem
        cases hmem
      unfold System.beginFlush
      rw [if_pos (hl.carries.empty hne)]
      exact hgo fun _ => hpel
    · obtain ⟨e, he⟩ := List.exists_mem_of_ne_nil _ hne
      have hpel : ¬ s.group.pel = [] := fun hpel => by
        have hmem := hl.pending e he
        rw [hpel] at hmem
        cases hmem
      refine gets_flush hk hl (hl.storable hk hst) hne hall fun _ => ?_
      rw [Ticks.measure, hphase]
      simp [measureOf, rank, hpel]

theorem gets_sweepCheck {due : Bool} (hs : s.act () cfg (.sweepCheck due) = some t) :
    Gets cfg stream s t (.sweepCheck due) := by
  obtain ⟨-, hk, hp⟩ := h
  cases takes_of_act hs with
  | sweepCheck hphase =>
    rw [hphase] at hp
    refine gets_put hk ?_ fun _ =>
      .inr ⟨rfl, ?_, .inr ?_, fun _ hr => (nomatch hr), fun hr => (nomatch hr)⟩
    · cases due <;> exact hp
    · rw [Ticks.measure, Ticks.measure, hphase, System.worker_put_self]
      cases due <;> rfl
    · rw [hphase, System.worker_put_self]
      cases due <;> simp [turnsLeft]

include hst in
theorem gets_commit (hs : s.act () cfg .commit = some t) : Gets cfg stream s t .commit := by
  obtain ⟨-, hk, hp⟩ := h
  cases takes_of_act hs with
  | @commit resume sweep table hphase hu =>
    rw [hphase] at hp
    obtain ⟨es, hne, hl, ha⟩ := hp
    have hk' : Kept cfg stream s.group table :=
      ⟨hk.log, hk.suffix, fun e he => hl.carries.settled_mono hu (hk.settled e he), hk.takenIn_upsert hl ha hu⟩
    have hset : ∀ e ∈ es, Settled cfg table e := fun e he =>
      hl.carries.settles hu he (hl.storable hk hst e he)
    refine gets_put hk' ⟨es, hne, hl, ha, hset⟩ fun _ => .inl ?_
    rw [Ticks.measure, hphase]
    exact Nat.lt_succ_self _
  | commitRaises hphase hu =>
    rw [hphase] at hp
    obtain ⟨es, -, hl, -⟩ := hp
    obtain ⟨table, hu'⟩ := hl.carries.exists_upsert hl.listed s.table
    rw [hu] at hu'
    cases hu'

theorem gets_ack (hs : s.act () cfg .ack = some t) : Gets cfg stream s t .ack := by
  obtain ⟨-, hk, hp⟩ := h
  cases takes_of_act hs with
  | @ack resume sweep hphase =>
    rw [hphase] at hp
    obtain ⟨es, hne, hl, ha, hset⟩ := hp
    rw [hl.carries.unacked]
    have hk' := hk.xack hl.pending hset (ha.pel_xack.map Prod.fst)
    have hlt : ∀ (m : Persister K) phase,
        measureOf (s.group.xack (es.map Prod.fst)) m phase < Ticks.measure s :=
      fun m phase => measureOf_xack_lt hne hl.pending ..
    have hnil : Loaded cfg (s.group.xack (es.map Prod.fst)) (s.worker ()).memory.clearBatch [] :=
      loaded_nil (carries_clearBatch cfg _)
    have hdone : (∀ p ∈ s.group.pel, p.1 ∈ es) →
        ∀ p ∈ (s.group.xack (es.map Prod.fst)).pel, p.1 ∈ ([] : List Entry) := fun hall p hmem => by
      rw [Group.pel_xack_eq_nil fun p hp => List.mem_map_of_mem (hall p hp)] at hmem
      cases hmem
    cases resume with
    | drain =>
      exact gets_put hk' ⟨hnil.carries, .inr (hl.provider hne)⟩ fun _ => .inl (hlt ..)
    | claim next sweep =>
      obtain ⟨rfl, ha⟩ := ha
      exact gets_put hk' ⟨[], hnil, hdone ha⟩ fun _ => .inl (hlt ..)
    | loop | sweepCheck => exact gets_put hk' ⟨[], hnil, hdone ha⟩ fun _ => .inl (hlt ..)
    | exit => exact gets_leave hk' fun _ => hlt ..

/-- **What any step comes to.** -/
theorem gets_act (hst : ∀ e ∈ stream.log, Storable cfg e) (hret : ReturnsOk cfg stream.log)
    (ha : what.Available) (hs : s.act () cfg what = some t) : Gets cfg stream s t what := by
  cases what with
  | lose | commitLost _ | ackLost | fail _ => exact ha.elim
  | acquire => exact gets_acquire h hs
  | readPending => exact gets_readPending h hst hret hs
  | claim idle => exact gets_claim h hst hs
  | top => exact gets_top h hs
  | stop => exact gets_stop h hst hs
  | read count => exact gets_read h hst hs
  | check due => exact gets_check h hst hs
  | sweepCheck due => exact gets_sweepCheck h hs
  | commit => exact gets_commit h hst hs
  | ack => exact gets_ack h hs
  | crash =>
    cases hs
    exact gets_leave h.kept fun hc => hc.elim

end Step

/-- **What holds of the worker** goes on holding. -/
theorem tended_act (h : Tended cfg stream s) (hst : ∀ e ∈ stream.log, Storable cfg e)
    (hret : ReturnsOk cfg stream.log) (ha : what.Available) (hs : s.act () cfg what = some t) :
    Tended cfg stream t :=
  let hg := gets_act h hst hret ha hs
  ⟨h.leased.act ha hs, hg.kept, hg.place⟩

theorem tended_of_reachable (hst : ∀ e ∈ stream.log, Storable cfg e)
    (hret : ReturnsOk cfg stream.log)
    (hr : ((workerLts cfg stream).guard fun _ what => what.Available).Reachable s) :
    Tended cfg stream s := by
  refine hr.invariant (fun s hs => ?_) fun s what t h ht => tended_act h hst hret ht.2 ht.1
  subst hs
  refine ⟨⟨rfl, fun _ => rfl, fun h => absurd rfl h⟩, ⟨rfl, List.nil_suffix, ?_, _, takenIn_empty ..⟩, rfl⟩
  intro e he
  exact (nomatch (Group.mem_acked_iff.mp he).1)

/-! ## A whole run -/

/-- By itself a worker at the test of a flush does that test. -/
theorem check_of_phase (hc : what.Calm) (hphase : (s.worker ()).phase = .check)
    (hs : s.act () cfg what = some t) : ∃ due, what = .check due := by
  cases what with
  | check due => exact ⟨due, rfl⟩
  | lose | commitLost _ | ackLost | fail _ | stop | crash => exact hc.elim
  | _ =>
    rw [System.act, hphase] at hs
    cases hs

/-- **The worker finishes**, on any fair run. -/
theorem Tended.finishes (h : Tended cfg stream s) (hst : ∀ e ∈ stream.log, Storable cfg e)
    (hret : ReturnsOk cfg stream.log) : Finishes cfg stream s := by
  refine ⟨⟨eagerRun cfg stream h.leased, rfl, fair_eagerRun h.leased⟩, fun r h0 hfair => ?_⟩
  have hall : ∀ n, Tended cfg stream (r.state n) := by
    intro n
    induction n with
    | zero => exact h0 ▸ h
    | succ n ih => exact tended_act ih hst hret (hfair.calm n).available (r.step n)
  have hgets : ∀ n, Ticks.measure (r.state (n + 1)) < Ticks.measure (r.state n) ∨
      Idles (r.state n) (r.state (n + 1)) (r.label n) := fun n =>
    (gets_act (hall n) hst hret (hfair.calm n).available (r.step n)).on (hfair.calm n)
  -- the measure cannot fall for ever, so from some state on the worker idles
  have hle : ∀ n, Ticks.measure (r.state (n + 1)) ≤ Ticks.measure (r.state n) := fun n =>
    (hgets n).elim Nat.le_of_lt fun hidle => Nat.le_of_eq hidle.measure
  obtain ⟨n, hconst⟩ := r.exists_constant hle
  have hidle : ∀ k, Idles (r.state (n + k)) (r.state (n + (k + 1))) (r.label (n + k)) := fun k =>
    (hgets (n + k)).resolve_left fun hlt => by
      have hk : Ticks.measure (r.state (n + k + 1)) = _ := hconst (k + 1)
      rw [hk, hconst k] at hlt
      exact lt_irrefl _ hlt
  have hgroup : ∀ k, (r.state (n + k)).group = (r.state n).group := by
    intro k
    induction k with
    | zero => rfl
    | succ k ih => exact (hidle k).group.trans ih
  -- it reads again and again, and finds nothing
  have hreads := Lts.Run.exists_ge
    (fun k => turnsLeft ((r.state (n + k)).worker ()).phase) fun k => (hidle k).turns
  have hdelivered : (r.state n).group.delivered = (r.state n).group.log.length := by
    obtain ⟨k, -, count, hread, -⟩ := hreads 0
    have hcalm := hfair.calm (n + k)
    rw [hread] at hcalm
    have hnil := (hidle k).read count hread
    rw [hgroup] at hnil
    exact Group.delivered_eq_length hnil hcalm
  -- it tests after each read whether a flush is due, so again and again one is
  have hpel : (r.state n).group.pel = [] := by
    have hchecks : ∀ n', ∃ m, n' ≤ m ∧ ∃ due, r.label m = .check due := fun n' => by
      obtain ⟨k, hk, count, -, hphase⟩ := hreads n'
      exact ⟨n + (k + 1), by omega, check_of_phase (hfair.calm _) hphase (r.step _)⟩
    obtain ⟨m, hm, hdue⟩ := hfair.due hchecks n
    obtain ⟨k, rfl⟩ := Nat.exists_eq_add_of_le hm
    have hnil := (hidle k).check hdue
    rwa [hgroup] at hnil
  have hacked : ∀ e ∈ (r.state n).group.log, e ∈ (r.state n).group.acked := by
    intro e he
    rw [Group.mem_acked_iff, hdelivered, List.take_length, hpel]
    exact ⟨he, List.not_mem_nil⟩
  have hsettled := fun e he => (hall n).kept.settled e (hacked e he)
  obtain ⟨taken, hstored, hbehind⟩ := (hall n).kept.stored
  exact ⟨n, hacked, fun e he _ => hsettled e he, taken, hstored, fun e he _ =>
    hbehind.of_settled he (hsettled e he)⟩

end FxTracker.Worker.Ticks
