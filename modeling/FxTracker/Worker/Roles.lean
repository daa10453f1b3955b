import FxTracker.Worker.Loop
import FxTracker.Worker.Queue

/-!
# The persisters against the stream

What holds of each worker, by where it stands. Of the entries that await their commit a leader in its
loop holds everything in memory; a leader that replays pages holds at most one page. A worker that has
lost the lease commits nothing more; it may still acknowledge what it has committed.

`Inv` says it of the system. A step of the leader leaves everything else in its `Frame`; the lemmas
about `Frame` say where the leader may go on from there. A step of a worker without the lease keeps
`Inv` by `Inv.put_aside`.
-/

namespace FxTracker.Worker.Ticks

open Redis

variable {K κ : Type} [LinearOrder K] [FloatOps K] {cfg : PersisterConfig K}
  {C P F R C' P' F' R' U U' : List Entry} {pel pel' : List (Entry × κ)} {c : κ} {w : WorkerState K}

/-! ## The workers -/

/-- A flush acknowledges what the place it goes on at relies on. -/
def ResumeOk (pel : List (Entry × κ)) (unacked : List StreamId) : Resume → Prop
  | .drain | .exit => True
  | .claim next sweep => sweep = false ∧ ∀ p ∈ pel, p.1.1 ∈ unacked ∨ next ≤ p.1.1
  | .loop | .sweepCheck => ∀ p ∈ pel, p.1.1 ∈ unacked

/-- A leader in its loop holds every pending entry in memory. -/
structure Steady (cfg : PersisterConfig K) (pel : List (Entry × κ)) (P F R : List Entry) (c : κ)
    (m : Persister K) : Prop where
  leftover : P = []
  rest : R = []
  holds : m.Holds cfg F
  mine : ∀ p ∈ pel, p.2 = c

/-- A leader between two pages has nothing in hand. -/
structure Between (κ : Type) (cfg : PersisterConfig K) (P F R : List Entry) (m : Persister K) :
    Prop where
  hand : F = []
  rested : Rested κ P R
  holds : m.Holds cfg []

/-- What a leader may commit: a page of committed entries, or all it has in hand. -/
def Committable (κ : Type) (cfg : PersisterConfig K) (C P F R H : List Entry) : Prop :=
  (F = [] ∧ (∀ e ∈ H, e ∈ C) ∧ Rested κ P R ∧ AckSafe P R H) ∨
    (H = F ∧ P = [] ∧ (R = [] ∨ F.length = cfg.flushMaxRows))

/-- What a worker acknowledges after its commit is committed. -/
def Ackable (C P U : List Entry) (m : Persister K) : Prop :=
  ∃ H, m.unacked = H.map Prod.fst ∧ (∀ e ∈ H, e ∈ C) ∧ AckSafe P U H

/-- What holds of the leader, by where it stands. -/
def LeaderOk (cfg : PersisterConfig K) (pel : List (Entry × κ)) (C P F R : List Entry) (c : κ)
    (w : WorkerState K) : Prop :=
  match w.phase with
  | .stopped => False
  | .drain => Between κ cfg P F R w.memory
  | .claim start false => Between κ cfg P F R w.memory ∧ ∀ id ∈ start, ∀ p ∈ pel, id ≤ p.1.1
  | .claim _ true | .loopTop | .reading | .check | .sweepCheck => Steady cfg pel P F R c w.memory
  | .flushing resume sweep =>
    sweep = false ∧ ResumeOk pel w.memory.unacked resume ∧
      ∃ H, w.memory.Holds cfg H ∧ Committable κ cfg C P F R H
  | .acking resume sweep =>
    sweep = false ∧ ResumeOk pel w.memory.unacked resume ∧ F = [] ∧ Ackable C P R w.memory ∧
      Rested κ (P.filter (·.1 ∉ w.memory.unacked)) R

/-- What holds of a worker that has lost the lease. -/
def LostOk (C P U : List Entry) (w : WorkerState K) : Prop :=
  match w.phase with
  | .flushing .. => False
  | .acking .. => Ackable C P U w.memory
  | _ => True

/-- What holds of a worker without the lease: it is not in `run`, or it has lost the lease there. -/
def Aside (C P U : List Entry) (w : WorkerState K) : Prop :=
  w.phase = .stopped ∨ w.lost = true ∧ LostOk C P U w

structure Roles (cfg : PersisterConfig K) (s : System K κ) (C P F R : List Entry) : Prop where
  aside : ∀ c, s.lease ≠ some c → Aside C P (F ++ R) (s.worker c)
  leader : ∀ c, s.lease = some c →
    (s.worker c).lost = false ∧ LeaderOk cfg s.group.pel C P F R c (s.worker c)
  vacant : s.lease = none → F = [] ∧ Rested κ P R

/-- **The invariant.** -/
structure Inv (cfg : PersisterConfig K) (s : System K κ) : Prop where
  parses : ∀ e ∈ s.group.log, (parseTick cfg.codec e.2).isSome
  cut : ∃ C P F R, Queue cfg s.group s.table C P F R ∧ Roles cfg s C P F R

theorem inv_init (cfg : PersisterConfig K) : Inv cfg (.init : System K κ) where
  parses := fun _ h => by cases h
  cut := ⟨[], [], [], [], queue_empty cfg, fun _ _ => .inl rfl, fun _ h => (nomatch h),
    fun _ => ⟨rfl, .inr (.inl rfl)⟩⟩

/-! ## What the others tolerate -/

/-- A change of the cut under which the workers without the lease stay safe. -/
def Spares (C P U C' P' U' : List Entry) : Prop :=
  (∀ e ∈ C, e ∈ C') ∧ ∀ H, (∀ e ∈ H, e ∈ C) → AckSafe P U H → AckSafe P' U' H

omit [LinearOrder K] [FloatOps K] in
theorem Aside.mono (h : Aside C P U w) (hs : Spares C P U C' P' U') : Aside C' P' U' w := by
  rcases h with h | ⟨hlost, h⟩
  · exact .inl h
  · refine .inr ⟨hlost, ?_⟩
    unfold LostOk at h ⊢
    split at h
    · exact h
    · obtain ⟨H, hun, hH, hsafe⟩ := h
      exact ⟨H, hun, fun e he => hs.1 e (hH e he), hs.2 H hH hsafe⟩
    · trivial

theorem AckSafe.anti {H : List Entry} (h : AckSafe P U H) (hP : ∀ e ∈ P', e ∈ P) : AckSafe P' U H := by
  rcases h with h | h | h
  · exact .inl h
  · exact .inr (.inl fun e he => h e (hP e he))
  · exact .inr (.inr fun e he => h e (hP e he))

/-- Fewer committed entries are pending. -/
theorem spares_of_subset (hP : ∀ e ∈ P', e ∈ P) : Spares C P U C P' U :=
  ⟨fun _ h => h, fun _ _ h => h.anti hP⟩

/-- No committed entry is pending. -/
theorem spares_of_nil : Spares C P U C [] U' :=
  ⟨fun _ h => h, fun _ _ _ => .inr (.inl fun _ h => by cases h)⟩

/-- What the leader has in hand is committed. -/
theorem spares_commit (h : ∀ x ∈ C, ∀ y ∈ F, x.1 < y.1) : Spares C P U (C ++ F) F U' :=
  ⟨fun _ he => List.mem_append_left _ he, fun _ hH _ => .inr (.inr fun e he heH =>
    absurd (h e (hH e heH) e he) (lt_irrefl _))⟩

theorem Rested.anti (h : Rested κ P R) (hP : ∀ e ∈ P', e ∈ P) : Rested κ P' R := by
  rcases h with h | h | rfl
  · exact .inl h
  · exact .inr (.inl h)
  · exact .inr (.inr (List.eq_nil_iff_forall_not_mem.mpr fun e he => by cases hP e he))

theorem ResumeOk.anti {unacked : List StreamId} {resume : Resume} (h : ResumeOk pel unacked resume)
    (hpel : ∀ p ∈ pel', p ∈ pel) : ResumeOk pel' unacked resume := by
  cases resume with
  | drain | exit => trivial
  | claim next sweep => exact ⟨h.1, fun p hp => h.2 p (hpel p hp)⟩
  | loop | sweepCheck => exact fun p hp => h p (hpel p hp)

/-- The leader's part does not depend on which committed entries are pending. -/
theorem LeaderOk.anti (h : LeaderOk cfg pel C P F R c w) (hpel : ∀ p ∈ pel', p ∈ pel)
    (hP : ∀ e ∈ P', e ∈ P) : LeaderOk cfg pel' C P' F R c w := by
  have hnil : P = [] → P' = [] := by
    rintro rfl
    exact List.eq_nil_iff_forall_not_mem.mpr fun e he => by cases hP e he
  have hsteady : Steady cfg pel P F R c w.memory → Steady cfg pel' P' F R c w.memory := fun h =>
    ⟨hnil h.leftover, h.rest, h.holds, fun p hp => h.mine p (hpel p hp)⟩
  unfold LeaderOk at h ⊢
  split at h
  · exact h
  · exact ⟨h.hand, h.rested.anti hP, h.holds⟩
  · obtain ⟨hb, hstart⟩ := h
    exact ⟨⟨hb.hand, hb.rested.anti hP, hb.holds⟩, fun id hid p hp => hstart id hid p (hpel p hp)⟩
  · exact hsteady h
  · exact hsteady h
  · exact hsteady h
  · exact hsteady h
  · exact hsteady h
  · obtain ⟨hsweep, hres, H, hH, hcase⟩ := h
    refine ⟨hsweep, hres.anti hpel, H, hH, ?_⟩
    rcases hcase with ⟨hF, hsub, hr, hsafe⟩ | ⟨hF, hPn, hlen⟩
    · exact .inl ⟨hF, hsub, hr.anti hP, hsafe.anti hP⟩
    · exact .inr ⟨hF, hnil hPn, hlen⟩
  · obtain ⟨hsweep, hres, hF, ⟨H, hun, hsub, hsafe⟩, hr⟩ := h
    refine ⟨hsweep, hres.anti hpel, hF, ⟨H, hun, hsub, hsafe.anti hP⟩, hr.anti fun e he => ?_⟩
    obtain ⟨he, hne⟩ := List.mem_filter.mp he
    exact List.mem_filter.mpr ⟨hP e he, hne⟩

/-! ## Where the leader goes on -/

variable [DecidableEq κ] {s t : System K κ}

/-- Everything but one worker. -/
structure Frame (cfg : PersisterConfig K) (t : System K κ) (c : κ) (C P F R : List Entry) : Prop where
  parses : ∀ e ∈ t.group.log, (parseTick cfg.codec e.2).isSome
  queue : Queue cfg t.group t.table C P F R
  others : ∀ d, d ≠ c → Aside C P (F ++ R) (t.worker d)

theorem Frame.put (hf : Frame cfg t c C P F R) (hlease : t.lease = some c) (hlost : w.lost = false)
    (hw : LeaderOk cfg t.group.pel C P F R c w) : Inv cfg (t.put c w) := by
  refine ⟨hf.parses, C, P, F, R, hf.queue, fun d hd => ?_, fun d hd => ?_, fun h => ?_⟩
  · have hdc : d ≠ c := by
      rintro rfl
      exact hd hlease
    rw [System.worker_put_of_ne hdc]
    exact hf.others d hdc
  · have hdc : d = c := Option.some.inj (hd.symm.trans hlease)
    subst hdc
    rw [System.worker_put_self]
    exact ⟨hlost, hw⟩
  · exact absurd (h.symm.trans hlease) (Option.some_ne_none c).symm

/-- The lease is free, and the worker keeps out. -/
theorem Frame.vacate (hf : Frame cfg t c C P [] R) (hr : Rested κ P R) (hw : Aside C P R w) :
    Inv cfg { t.put c w with lease := none } := by
  refine ⟨hf.parses, C, P, [], R, hf.queue, fun d _ => ?_, fun d hd => (nomatch hd),
    fun _ => ⟨rfl, hr⟩⟩
  by_cases hdc : d = c
  · subst hdc
    show Aside C P ([] ++ R) ((t.put d w).worker d)
    rw [System.worker_put_self]
    exact hw
  · show Aside C P ([] ++ R) ((t.put c w).worker d)
    rw [System.worker_put_of_ne hdc]
    exact hf.others d hdc

theorem Frame.leave (hf : Frame cfg t c C P [] R) (hlease : t.lease = some c) (hr : Rested κ P R)
    (memory : Persister K) : Inv cfg (t.leave c w memory) := by
  unfold System.leave
  rw [if_pos hlease]
  exact hf.vacate hr (.inl rfl)

/-- With one consumer name, a run may end anywhere. -/
theorem Frame.abandon [Subsingleton κ] (hf : Frame cfg t c C P F R) (hlease : t.lease = some c)
    (memory : Persister K) : Inv cfg (t.leave c w memory) := by
  have hq := hf.queue.drop_hand fun p _ q _ _ _ => Subsingleton.elim p.2 q.2
  exact Frame.leave ⟨hf.parses, hq, hf.others⟩ hlease (.inl inferInstance) memory

/-- Where a flush may go on. -/
def GoOnOk (cfg : PersisterConfig K) (pel : List (Entry × κ)) (C P F R : List Entry) (c : κ)
    (w : WorkerState K) : Resume → Prop
  | .exit => F = [] ∧ Rested κ P R
  | resume => LeaderOk cfg pel C P F R c { w with phase := resume.phase }

theorem Frame.goOn (hf : Frame cfg t c C P F R) (hlease : t.lease = some c) (hlost : w.lost = false)
    {resume : Resume} (h : GoOnOk cfg t.group.pel C P F R c w resume) :
    Inv cfg (t.goOn c w resume) := by
  cases resume with
  | exit =>
    obtain ⟨rfl, hr⟩ := h
    exact hf.leave hlease hr _
  | drain | claim _ _ | loop | sweepCheck => exact hf.put hlease hlost h

theorem Frame.beginFlush (hf : Frame cfg t c C P F R) (hlease : t.lease = some c)
    (hlost : w.lost = false) {resume : Resume} {sweep : Bool}
    (hempty : w.memory.accs.isEmpty = true → GoOnOk cfg t.group.pel C P F R c w resume)
    (hne : w.memory.accs.isEmpty = false →
      LeaderOk cfg t.group.pel C P F R c { w with phase := .flushing resume sweep }) :
    Inv cfg (t.beginFlush c w resume sweep) := by
  unfold System.beginFlush
  by_cases h : w.memory.accs.isEmpty = true
  · rw [if_pos h]
    exact hf.goOn hlease hlost (hempty h)
  · rw [if_neg h]
    exact hf.put hlease hlost (hne (Bool.not_eq_true _ ▸ h))

/-- With one consumer name, a run may fail anywhere; only a sweep swallows the error. -/
theorem Frame.failed [Subsingleton κ] (hf : Frame cfg t c C P F R) (hlease : t.lease = some c)
    (hlost : w.lost = false) {sweep : Bool}
    (hsweep : sweep = true → Steady cfg t.group.pel P F R c w.memory) (failure : Failure) :
    Inv cfg (t.failed c w sweep failure) := by
  cases failure with
  | redis =>
    unfold System.failed
    by_cases h : sweep = true
    · dsimp only
      rw [if_pos h]
      exact hf.put hlease hlost (hsweep h)
    · dsimp only
      rw [if_neg h]
      exact hf.abandon hlease _
  | os | other => exact hf.abandon hlease _

/-! ## Where a worker without the lease goes on -/

/-- A phase from which a worker without the lease does no harm. -/
def Phase.Harmless : Phase → Prop
  | .flushing .. | .acking .. => False
  | _ => True

omit [LinearOrder K] [FloatOps K] in
theorem aside_of_harmless (h : w.phase = .stopped ∨ w.lost = true ∧ w.phase.Harmless) :
    Aside C P U w := by
  rcases h with h | ⟨hlost, h⟩
  · exact .inl h
  · refine .inr ⟨hlost, ?_⟩
    unfold LostOk
    split
    · next hphase => rw [hphase] at h; exact h
    · next hphase => rw [hphase] at h; exact h.elim
    · trivial

theorem Inv.put_aside (hi : Inv cfg t) (hc : t.lease ≠ some c)
    (hw : w.phase = .stopped ∨ w.lost = true ∧ w.phase.Harmless) : Inv cfg (t.put c w) := by
  obtain ⟨hparse, C, P, F, R, hq, hr⟩ := hi
  refine ⟨hparse, C, P, F, R, hq, fun d hd => ?_, fun d hd => ?_, hr.vacant⟩
  · by_cases hdc : d = c
    · subst hdc
      rw [System.worker_put_self]
      exact aside_of_harmless hw
    · rw [System.worker_put_of_ne hdc]
      exact hr.aside d hd
  · have hdc : d ≠ c := by
      rintro rfl
      exact hc hd
    rw [System.worker_put_of_ne hdc]
    exact hr.leader d hd

theorem Inv.leave_aside (hi : Inv cfg t) (hc : t.lease ≠ some c) (memory : Persister K) :
    Inv cfg (t.leave c w memory) := by
  unfold System.leave
  rw [if_neg hc]
  exact hi.put_aside hc (.inl rfl)

theorem Inv.goOn_aside (hi : Inv cfg t) (hc : t.lease ≠ some c) (hlost : w.lost = true)
    (resume : Resume) : Inv cfg (t.goOn c w resume) := by
  cases resume with
  | exit => exact hi.leave_aside hc _
  | drain | claim _ _ | loop | sweepCheck => exact hi.put_aside hc (.inr ⟨hlost, trivial⟩)

theorem Inv.failed_aside (hi : Inv cfg t) (hc : t.lease ≠ some c) (hlost : w.lost = true)
    (sweep : Bool) (failure : Failure) : Inv cfg (t.failed c w sweep failure) := by
  cases failure with
  | redis =>
    cases sweep with
    | true => exact hi.put_aside hc (.inr ⟨hlost, trivial⟩)
    | false => exact hi.leave_aside hc _
  | os | other => exact hi.leave_aside hc _

end FxTracker.Worker.Ticks
