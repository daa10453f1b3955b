import FxTracker.Platform.Leaders
import FxTracker.Worker.Backlog
import FxTracker.Worker.ExactlyOnce

/-!
# The persisters under the lease

The persisters' model has the lease as one register, which a worker takes where it is free. Here each worker
has its `LeaderLease` instead: it begins to run when Redis's yes arrives, whatever the others do, its `lost`
event is set when its renewal fails, and it leaves `hold` when its `run` ends.

* `Joint`, `Joint.step` — the workers, each with its replica of the lease
* `Sync` — the register is who leads
* `joint_of_reachable` — at the lease's pace the workers are those of the persisters' model
* `exactly_once_under_lease` — what comes of it
-/

namespace FxTracker.Worker.Ticks

open Redis Platform

variable {K κ : Type}

/-- The workers with their replicas. The register in `system` is not read: it is what the workers believe. -/
structure Joint (K κ : Type) where
  lease : Lease.State κ
  system : System K κ

inductive JointAction (κ : Type)
  /-- Redis, the clock, the network and the tasks of the lease. -/
  | lease (a : Lease.Action κ)
  /-- A worker in `run`, or an append. -/
  | work (a : Action κ)

/-- The steps of a worker that come from its replica. -/
def Act.isLease : Act → Bool
  | .acquire | .lose | .crash => true
  | _ => false

theorem Phase.isStopped_iff {phase : Phase} : phase.isStopped = true ↔ phase = .stopped := by
  cases phase <;> simp [Phase.isStopped]

/-- What a worker does when its replica takes this step. -/
def echo (lease : Lease.State κ) : Lease.Action κ → Option (Action κ)
  | .reply c =>
    match (lease.replica c).phase with
    | .acquiring ⟨_, some true⟩ => some (.act c .acquire)
    | .holding (.renewing ⟨_, some false⟩) => some (.act c .lose)
    | _ => none
  | .fail c =>
    match (lease.replica c).phase with
    | .holding (.renewing _) => some (.act c .lose)
    | _ => none
  | .stop c => some (.act c .crash)
  | _ => none

variable [DecidableEq κ]

/-- The worker does so without a look at the register. -/
def System.hear (s : System K κ) : Option (Action κ) → System K κ
  | some (.act c .acquire) => { s with lease := some c }.put c
      { phase := .drain, memory := (s.worker c).memory.clear, lost := false }
  | some (.act c .lose) => { s with lease := none }.put c { s.worker c with lost := true }
  | some (.act c .crash) => s.leave c (s.worker c) .fresh
  | _ => s

namespace Joint

def init (K κ : Type) : Joint K κ := ⟨.init κ, .init⟩

variable [FloatOps K] [LT K] [DecidableLT K]

def step (lcfg : Lease.LeaseConfig) (cfg : PersisterConfig K) (s : Joint K κ) :
    JointAction κ → Option (Joint K κ)
  -- the block of `hold` ends with `run`
  | .lease (.leave _) => none
  | .lease a => (Lease.step lcfg s.lease a).map fun lease => ⟨lease, s.system.hear (echo s.lease a)⟩
  | .work (.append id fields) => (s.system.step cfg (.append id fields)).map fun system => ⟨s.lease, system⟩
  | .work (.act c what) =>
    if what.isLease then none
    else (s.system.act c cfg what).bind fun system =>
      if (system.worker c).phase.isStopped then
        (Lease.step lcfg s.lease (.leave c)).map fun lease => ⟨lease, system⟩
      else some ⟨s.lease, system⟩

def lts (lcfg : Lease.LeaseConfig) (cfg : PersisterConfig K) : Lts (Joint K κ) (JointAction κ) :=
  .ofFn (.init K κ) (step lcfg cfg)

end Joint

/-! ## What a step does to the register -/

/-- Worker `c` goes on in `run` and the register stays, or it leaves and gives it back. -/
structure Returns (s t : System K κ) (c : κ) (lost : Bool) : Prop where
  lost : (t.worker c).lost = lost
  lease : ((t.worker c).phase ≠ .stopped ∧ t.lease = s.lease) ∨
    ((t.worker c).phase = .stopped ∧ t.lease = if s.lease = some c then none else s.lease)

variable {s t u : System K κ} {c d : κ} {w : WorkerState K}

theorem returns_put (hu : u.lease = s.lease) (hw : w.phase ≠ .stopped) : Returns s (u.put c w) c w.lost :=
  ⟨by rw [System.worker_put_self], .inl ⟨by rwa [System.worker_put_self], hu⟩⟩

theorem returns_leave (hu : u.lease = s.lease) (memory : Persister K) :
    Returns s (u.leave c w memory) c w.lost := by
  unfold System.leave
  refine ⟨?_, .inr ⟨?_, ?_⟩⟩
  · simp only [System.worker_put_self]
  · simp only [System.worker_put_self]
  · rw [hu]

theorem returns_goOn (hu : u.lease = s.lease) (resume : Resume) :
    Returns s (u.goOn c w resume) c w.lost := by
  cases resume with
  | exit => exact returns_leave hu _
  | _ => exact @returns_put _ _ _ _ _ _ { w with phase := _ } hu (by simp [Resume.phase])

theorem returns_beginFlush (hu : u.lease = s.lease) (resume : Resume) (sweep : Bool) :
    Returns s (u.beginFlush c w resume sweep) c w.lost := by
  unfold System.beginFlush
  split
  · exact returns_goOn hu resume
  · exact @returns_put _ _ _ _ _ _ { w with phase := _ } hu (by simp)

theorem returns_failed (hu : u.lease = s.lease) (sweep : Bool) (failure : Failure) :
    Returns s (u.failed c w sweep failure) c w.lost := by
  cases failure with
  | redis =>
    unfold System.failed
    dsimp only
    split
    · exact @returns_put _ _ _ _ _ _ { w with phase := _ } hu (by simp)
    · exact returns_leave hu _
  | os | other => exact returns_leave hu _

variable [FloatOps K] [LT K] [DecidableLT K] {cfg : PersisterConfig K}

theorem returns_receive (hu : u.lease = s.lease) (entries : List Entry) (resume : Resume) (sweep : Bool) :
    Returns s (u.receive c w cfg entries resume sweep) c w.lost := by
  unfold System.receive
  split
  · next memory _ => exact @returns_beginFlush _ _ _ _ _ _ { w with memory } hu _ _
  · exact returns_leave hu _

/-- **A worker's own step** is one of a worker in `run`, and gives the register back when it leaves. -/
theorem returns_of_act {what : Act} (hown : what.isLease = false) (h : s.act c cfg what = some t) :
    (s.worker c).phase ≠ .stopped ∧ Returns s t c (s.worker c).lost := by
  have put : ∀ {u : System K κ} {w : WorkerState K}, u.lease = s.lease → w.phase ≠ .stopped →
      w.lost = (s.worker c).lost → Returns s (u.put c w) c (s.worker c).lost := by
    intro u w hu hw hlost
    rw [← hlost]
    exact returns_put hu hw
  cases takes_of_act h with
  | acquire | lose | crash => cases hown
  | drained hphase | notDue hphase => exact ⟨by simp [hphase], put rfl (by simp) rfl⟩
  | readPending hphase => exact ⟨by simp [hphase], returns_receive (by rfl) _ _ _⟩
  | claimed hphase => exact ⟨by simp [hphase], put rfl (by simp) rfl⟩
  | claim hphase => exact ⟨by simp [hphase], returns_receive (by rfl) _ _ _⟩
  | lost hphase => exact ⟨by simp [hphase], returns_leave (by rfl) _⟩
  | top hphase => exact ⟨by simp [hphase], put rfl (by simp) rfl⟩
  | stop hphase | due hphase => exact ⟨by simp [hphase], returns_beginFlush (by rfl) _ _⟩
  | read hphase => exact ⟨by simp [hphase], put rfl (by simp) rfl⟩
  | readRaises hphase => exact ⟨by simp [hphase], returns_leave (by rfl) _⟩
  | sweepCheck hphase => exact ⟨by simp [hphase], put rfl (by split <;> simp) rfl⟩
  | commit hphase => exact ⟨by simp [hphase], put rfl (by simp) rfl⟩
  | commitRaises hphase => exact ⟨by simp [hphase], returns_leave (by rfl) _⟩
  | commitLost hphase => exact ⟨by simp [hphase], returns_failed (by rfl) _ _⟩
  | ack hphase => exact ⟨by simp [hphase], @returns_goOn _ _ _ _ _ _ { s.worker c with memory := _ } (by rfl) _⟩
  | ackLost hphase => exact ⟨by simp [hphase], returns_failed (by rfl) _ _⟩
  | fail hphase => exact ⟨hphase, returns_failed (by rfl) _ _⟩

/-! ## The register is who leads -/

/-- A worker and its replica. -/
structure Paired (lease : Lease.State κ) (system : System K κ) (c : κ) : Prop where
  leads : system.lease = some c ↔ (lease.replica c).isLeader = true
  running : (system.worker c).phase ≠ .stopped →
    (∃ renewer, (lease.replica c).phase = .holding renewer) ∧
      ((system.worker c).lost = false → (lease.replica c).isLeader = true)

def Sync (j : Joint K κ) : Prop := ∀ c, Paired j.lease j.system c

/-- The steps of the joint system that keep the lease's pace and are steps of workers that `ok` allows. -/
def Keeps {lcfg : Lease.LeaseConfig} (pace : Lease.Pace lcfg) (ok : System K κ → Action κ → Prop)
    (j : Joint K κ) : JointAction κ → Prop
  | .lease a => Lease.OnTime pace j.lease a ∧ ∀ b ∈ echo j.lease a, ok j.system b
  | .work a => ok j.system a

variable {lcfg : Lease.LeaseConfig} {pace : Lease.Pace lcfg} {lease lease' : Lease.State κ}
  {system : System K κ} {a : Lease.Action κ}

omit [DecidableEq κ] [FloatOps K] [LT K] [DecidableLT K] in
/-- A worker that is not in `run` has nothing to do with where its replica stands. -/
theorem Paired.stopped (h : Paired lease system c) {phase : Lease.Phase}
    (hphase : (lease.replica c).phase = phase) (hout : ∀ renewer, phase ≠ .holding renewer) :
    (system.worker c).phase = .stopped := by
  by_contra hne
  obtain ⟨renewer, heq⟩ := (h.running hne).1
  exact hout renewer (hphase.symm.trans heq)

omit [DecidableEq κ] [FloatOps K] [LT K] [DecidableLT K] in
/-- A replica that goes on as it was, as far as its worker can tell. -/
theorem Paired.congr (h : Paired lease system c)
    (hleader : (lease'.replica c).isLeader = (lease.replica c).isLeader)
    (hholding : ∀ renewer, (lease.replica c).phase = .holding renewer →
      ∃ renewer, (lease'.replica c).phase = .holding renewer) : Paired lease' system c := by
  refine ⟨h.leads.trans (by rw [hleader]), fun hne => ?_⟩
  obtain ⟨⟨renewer, heq⟩, hlost⟩ := h.running hne
  exact ⟨hholding renewer heq, fun hno => hleader.trans (hlost hno)⟩

/-- As far as the workers can tell, the replicas go on as they were. -/
def Unheard (lease lease' : Lease.State κ) : Prop := ∀ c,
  (lease'.replica c).isLeader = (lease.replica c).isLeader ∧
    ∀ renewer, (lease.replica c).phase = .holding renewer →
      ∃ renewer, (lease'.replica c).phase = .holding renewer

omit [DecidableEq κ] in
theorem unheard_of_replica (h : lease'.replica = lease.replica) : Unheard lease lease' := by
  intro c
  rw [h]
  exact ⟨rfl, fun renewer heq => ⟨renewer, heq⟩⟩

theorem unheard_put {u : Lease.State κ} {r : Lease.Replica} (hu : u.replica = lease.replica)
    (hleader : r.isLeader = (lease.replica c).isLeader)
    (hholding : ∀ renewer, (lease.replica c).phase = .holding renewer →
      ∃ renewer, r.phase = .holding renewer) : Unheard lease (u.put c r) := by
  intro d
  by_cases hdc : d = c
  · subst hdc
    rw [Lease.State.put_self]
    exact ⟨hleader, hholding⟩
  · rw [Lease.State.put_of_ne _ _ _ hdc, hu]
    exact ⟨rfl, fun renewer heq => ⟨renewer, heq⟩⟩

/-- A phase that is not the block's has nothing to keep. -/
theorem unheard_put_out {u : Lease.State κ} {phase phase' : Lease.Phase} (hu : u.replica = lease.replica)
    (hphase : (lease.replica c).phase = phase) (hout : ∀ renewer, phase ≠ .holding renewer) :
    Unheard lease (u.put c { lease.replica c with phase := phase' }) :=
  unheard_put hu rfl fun renewer heq => absurd (hphase.symm.trans heq) (hout renewer)

/-- **A step without an echo.** -/
theorem unheard_step (h : Lease.step lcfg lease a = some lease') (hecho : echo lease a = none)
    (hleave : ∀ c, a ≠ .leave c) : Unheard lease lease' := by
  cases a with
  | wait ms =>
    rw [Lease.step, Option.some_inj] at h
    exact unheard_of_replica (by rw [← h])
  | enter c =>
    rw [Lease.step] at h
    split at h
    · next hphase =>
      rw [Option.some_inj] at h
      exact h ▸ unheard_put_out rfl hphase (by simp)
    · cases h
  | retry c =>
    rw [Lease.step] at h
    split at h
    · next since hphase =>
      split at h
      · rw [Option.some_inj] at h
        exact h ▸ unheard_put_out rfl hphase (by simp)
      · cases h
    · cases h
  | renew c =>
    rw [Lease.step] at h
    split at h
    · split at h
      · rw [Option.some_inj] at h
        exact h ▸ unheard_put rfl rfl fun _ _ => ⟨_, rfl⟩
      · cases h
    · cases h
  | run c =>
    rw [Lease.step] at h
    split at h
    · next command since hcall =>
      rw [Option.some_inj] at h
      refine h ▸ unheard_put rfl rfl fun renewer heq => ?_
      rcases Lease.phase_of_call hcall with ⟨-, hphase⟩ | ⟨-, hphase⟩ | ⟨-, hphase⟩
      · rw [hphase] at heq
        cases heq
      · exact ⟨_, by rw [hphase]; rfl⟩
      · rw [hphase] at heq
        cases heq
    · cases h
  | stray c command =>
    rw [Lease.step] at h
    split at h
    · rw [Option.some_inj] at h
      exact unheard_of_replica (by rw [← h, Lease.State.execute_replica])
    · cases h
  | reply c =>
    rw [Lease.step, Option.map_eq_some_iff] at h
    obtain ⟨r, hr, rfl⟩ := h
    rw [echo] at hecho
    rcases Lease.reply_cases hr with ⟨since, hphase, rfl⟩ | ⟨since, hphase, rfl⟩ | ⟨since, hphase, rfl⟩ |
      ⟨since, hphase, rfl⟩ | ⟨since, answer, hphase, rfl⟩
    · rw [hphase] at hecho
      cases hecho
    · exact unheard_put_out rfl hphase (by simp)
    · exact unheard_put rfl rfl fun _ _ => ⟨_, rfl⟩
    · rw [hphase] at hecho
      cases hecho
    · exact unheard_put_out rfl hphase (by simp)
  | resend c =>
    rw [Lease.step] at h
    split at h
    · next command call hcall =>
      rw [Option.some_inj] at h
      refine h ▸ unheard_put (Lease.State.giveUp_replica ..) rfl fun renewer heq => ?_
      rcases Lease.phase_of_call hcall with ⟨-, hphase⟩ | ⟨-, hphase⟩ | ⟨-, hphase⟩
      · rw [hphase] at heq
        cases heq
      · exact ⟨_, by rw [hphase]; rfl⟩
      · rw [hphase] at heq
        cases heq
    · cases h
  | fail c =>
    rw [Lease.step, Option.map_eq_some_iff] at h
    obtain ⟨r, hr, rfl⟩ := h
    rw [echo] at hecho
    rcases Lease.fail_cases hr with ⟨call, hphase, rfl⟩ | ⟨call, hphase, rfl⟩ | ⟨call, hphase, rfl⟩
    · exact unheard_put_out (Lease.State.giveUp_replica ..) hphase (by simp)
    · rw [hphase] at hecho
      cases hecho
    · exact unheard_put_out (Lease.State.giveUp_replica ..) hphase (by simp)
  | leave c => exact absurd rfl (hleave c)
  | stop c => cases hecho

/-! ## Every step is one of the persisters' model -/

/-- What `a` does where it has an echo. -/
theorem echo_cases (h : Lease.step lcfg lease a = some lease') {b : Action κ}
    (hecho : echo lease a = some b) :
    (∃ c since, (lease.replica c).phase = .acquiring ⟨since, some true⟩ ∧ b = .act c .acquire ∧
      lease'.replica = Function.update lease.replica c ⟨.holding (.sleeping lease.now), true, false⟩) ∨
    (∃ c call, (lease.replica c).phase = .holding (.renewing call) ∧ b = .act c .lose ∧
      lease'.replica = Function.update lease.replica c ⟨.holding .returned, false, true⟩) ∨
    ∃ c, b = .act c .crash ∧
      lease'.replica = Function.update lease.replica c ⟨.outside, false, (lease.replica c).lost⟩ := by
  cases a with
  | reply c =>
    rw [Lease.step, Option.map_eq_some_iff] at h
    obtain ⟨r, hr, rfl⟩ := h
    rw [echo] at hecho
    rcases Lease.reply_cases hr with ⟨since, hphase, rfl⟩ | ⟨since, hphase, rfl⟩ | ⟨since, hphase, rfl⟩ |
      ⟨since, hphase, rfl⟩ | ⟨since, answer, hphase, rfl⟩ <;> rw [hphase] at hecho <;> cases hecho
    · exact .inl ⟨c, since, hphase, rfl, rfl⟩
    · exact .inr (.inl ⟨c, _, hphase, rfl, rfl⟩)
  | fail c =>
    rw [Lease.step, Option.map_eq_some_iff] at h
    obtain ⟨r, hr, rfl⟩ := h
    rw [echo] at hecho
    rcases Lease.fail_cases hr with ⟨call, hphase, rfl⟩ | ⟨call, hphase, rfl⟩ | ⟨call, hphase, rfl⟩ <;>
      rw [hphase] at hecho <;> cases hecho
    exact .inr (.inl ⟨c, call, hphase, rfl, by simp [Lease.State.put]⟩)
  | stop c =>
    rw [Lease.step, Option.some_inj] at h
    rw [echo, Option.some_inj] at hecho
    exact .inr (.inr ⟨c, hecho.symm, by rw [← h]; simp [Lease.State.put]⟩)
  | wait | enter | retry | renew | run | stray | resend | leave => cases hecho

omit [FloatOps K] [LT K] [DecidableLT K] in
/-- Nobody but `c` leads where `c` has just begun to. -/
theorem leads_of_begins {since : Nat} (htimed' : Lease.Timed pace lease')
    (hphase : (lease.replica c).phase = .acquiring ⟨since, some true⟩) (hsync : ∀ d, Paired lease system d)
    (htimed : Lease.Timed pace lease)
    (hreplica : lease'.replica =
      Function.update lease.replica c ⟨.holding (.sleeping lease.now), true, false⟩) :
    system.lease = none := by
  cases hlease : system.lease with
  | none => rfl
  | some d =>
    exfalso
    have hleader := (hsync d).leads.mp hlease
    by_cases hdc : d = c
    · subst hdc
      rw [show (lease.replica d).isLeader = _ from htimed.ok d, hphase] at hleader
      cases hleader
    · refine hdc (htimed'.leader_unique ?_ ?_)
      · rw [hreplica, Function.update_of_ne hdc]
        exact hleader
      · rw [hreplica, Function.update_self]

omit [FloatOps K] [LT K] [DecidableLT K] in
/-- A worker that leaves `run`, as its replica leaves `hold`. -/
theorem paired_left {system' : System K κ} {r : Lease.Replica} (hsync : ∀ d, Paired lease system d)
    (hstopped : (system'.worker c).phase = .stopped)
    (hlease : system'.lease = if system.lease = some c then none else system.lease)
    (hothers : ∀ d, d ≠ c → system'.worker d = system.worker d)
    (hreplica : lease'.replica = Function.update lease.replica c r) (hno : r.isLeader = false) (d : κ) :
    Paired lease' system' d := by
  by_cases hdc : d = c
  · subst hdc
    refine ⟨⟨fun heq => ?_, fun hleader => ?_⟩, fun hne => absurd hstopped hne⟩
    · rw [hlease] at heq
      split at heq
      · cases heq
      · next hnot => exact absurd heq hnot
    · rw [hreplica, Function.update_self, hno] at hleader
      cases hleader
  · have hsame : lease'.replica d = lease.replica d := by rw [hreplica, Function.update_of_ne hdc]
    refine ⟨⟨fun heq => ?_, fun hleader => ?_⟩, fun hne => ?_⟩
    · rw [hlease] at heq
      split at heq
      · cases heq
      · rw [hsame]
        exact (hsync d).leads.mp heq
    · rw [hsame] at hleader
      have hd := (hsync d).leads.mpr hleader
      rw [hlease, if_neg (by rw [hd]; exact fun heq => hdc (Option.some_inj.mp heq)), hd]
    · rw [hothers d hdc] at hne ⊢
      rw [hsame]
      exact (hsync d).running hne

/-- **The echo of a step of the lease** is a step of the workers, and the register is still who leads. -/
theorem simulates_lease (cfg : PersisterConfig K) {b : Action κ} (hsync : ∀ c, Paired lease system c)
    (htimed : Lease.Timed pace lease) (htimed' : Lease.Timed pace lease')
    (h : Lease.step lcfg lease a = some lease') (hecho : echo lease a = some b) :
    system.step cfg b = some (system.hear (some b)) ∧
      ∀ d, Paired lease' (system.hear (some b)) d := by
  rcases echo_cases h hecho with ⟨c, since, hphase, rfl, hreplica⟩ | ⟨c, call, hphase, rfl, hreplica⟩ |
    ⟨c, rfl, hreplica⟩
  · -- the yes arrives
    have hstopped := (hsync c).stopped hphase (by simp)
    have hfree := leads_of_begins htimed' hphase hsync htimed hreplica
    refine ⟨?_, fun d => ?_⟩
    · rw [System.step, System.act, hstopped]
      dsimp only
      rw [if_pos hfree]
      rfl
    · by_cases hdc : d = c
      · subst hdc
        refine ⟨⟨fun _ => ?_, fun _ => rfl⟩, fun _ => ⟨⟨.sleeping lease.now, ?_⟩, fun _ => ?_⟩⟩ <;>
          rw [hreplica, Function.update_self]
      · refine ⟨⟨fun heq => absurd (Option.some_inj.mp heq).symm hdc, fun hleader => ?_⟩, fun hne => ?_⟩
        · rw [hreplica, Function.update_of_ne hdc] at hleader
          rw [(hsync d).leads.mpr hleader] at hfree
          cases hfree
        · rw [System.hear, System.worker_put_of_ne hdc] at hne ⊢
          rw [hreplica, Function.update_of_ne hdc]
          exact (hsync d).running hne
  · -- the renewal fails
    have hleader : (lease.replica c).isLeader = true := by
      rw [show (lease.replica c).isLeader = _ from htimed.ok c, hphase]
      rfl
    have hlease := (hsync c).leads.mpr hleader
    refine ⟨?_, fun d => ?_⟩
    · rw [System.step, System.act, if_pos hlease]
      rfl
    · by_cases hdc : d = c
      · subst hdc
        refine ⟨⟨fun heq => ?_, fun hleader' => ?_⟩, fun _ => ⟨⟨.returned, ?_⟩, fun hno => ?_⟩⟩
        · cases heq
        · rw [hreplica, Function.update_self] at hleader'
          cases hleader'
        · rw [hreplica, Function.update_self]
        · rw [System.hear, System.worker_put_self] at hno
          cases hno
      · refine ⟨⟨fun heq => ?_, fun hleader' => ?_⟩, fun hne => ?_⟩
        · cases heq
        · rw [hreplica, Function.update_of_ne hdc] at hleader'
          exact absurd (htimed.leader_unique hleader' hleader) hdc
        · rw [System.hear, System.worker_put_of_ne hdc] at hne ⊢
          rw [hreplica, Function.update_of_ne hdc]
          exact (hsync d).running hne
  · -- the process ends
    refine ⟨rfl, paired_left hsync ?_ rfl (fun d hd => ?_) hreplica rfl⟩
    · simp [System.hear, System.leave]
    · rw [System.hear]
      exact (System.moves_leave (w := system.worker c) .fresh).others d hd

variable {ok : System K κ → Action κ → Prop} {j j' : Joint K κ}

/-- **Every step of the joint system** is one of the lease, or none, and one of the workers, or none. -/
theorem Sync.step (hsync : Sync j) (htimed : Lease.Timed pace j.lease) {a : JointAction κ}
    (hk : Keeps pace ok j a) (h : j.step lcfg cfg a = some j') :
    (j'.lease = j.lease ∨
      ∃ b, Lease.OnTime pace j.lease b ∧ Lease.step lcfg j.lease b = some j'.lease) ∧
    (j'.system = j.system ∨ ∃ b, ok j.system b ∧ j.system.step cfg b = some j'.system) ∧ Sync j' := by
  cases a with
  | lease a =>
    have hstep : (∀ c, a ≠ .leave c) ∧ ∃ lease, Lease.step lcfg j.lease a = some lease ∧
        j' = ⟨lease, j.system.hear (echo j.lease a)⟩ := by
      cases a with
      | leave c => cases h
      | _ =>
        rw [Joint.step, Option.map_eq_some_iff] at h
        · obtain ⟨lease, hlease, rfl⟩ := h
          exact ⟨fun c heq => (nomatch heq), lease, hlease, rfl⟩
        · intro c heq
          cases heq
    obtain ⟨hleave, lease, hlease, rfl⟩ := hstep
    obtain ⟨hon, hok⟩ := hk
    refine ⟨.inr ⟨a, hon, hlease⟩, ?_⟩
    cases hecho : echo j.lease a with
    | none =>
      refine ⟨.inl rfl, fun c => ?_⟩
      obtain ⟨hleader, hholding⟩ := unheard_step hlease hecho hleave c
      exact (hsync c).congr hleader hholding
    | some b =>
      obtain ⟨hb, hsync'⟩ := simulates_lease cfg hsync htimed (htimed.step hon hlease) hlease hecho
      exact ⟨.inr ⟨b, hok b hecho, hb⟩, hsync'⟩
  | work a =>
    cases a with
    | append id fields =>
      rw [Joint.step, Option.map_eq_some_iff] at h
      obtain ⟨system, hsystem, rfl⟩ := h
      refine ⟨.inl rfl, .inr ⟨_, hk, hsystem⟩, fun c => ?_⟩
      rw [System.step, Option.map_eq_some_iff] at hsystem
      obtain ⟨group, -, rfl⟩ := hsystem
      exact ⟨(hsync c).leads, (hsync c).running⟩
    | act c what =>
      rw [Joint.step] at h
      split at h
      · cases h
      · next hown =>
        rw [Option.bind_eq_some_iff] at h
        obtain ⟨system, hsystem, h⟩ := h
        obtain ⟨hrunning, hreturns⟩ := returns_of_act (Bool.eq_false_iff.mpr hown) hsystem
        have hothers := (System.effect_of_act hsystem).others
        split at h
        · next hstopped =>
          rw [Phase.isStopped_iff] at hstopped
          rw [Option.map_eq_some_iff] at h
          obtain ⟨lease, hlease, rfl⟩ := h
          refine ⟨.inr ⟨.leave c, trivial, hlease⟩, .inr ⟨_, hk, hsystem⟩, ?_⟩
          have hgiven : system.lease = if j.system.lease = some c then none else j.system.lease := by
            rcases hreturns.lease with ⟨hne, -⟩ | ⟨-, heq⟩
            · exact absurd hstopped hne
            · exact heq
          rw [Lease.step] at hlease
          split at hlease
          · rw [Option.some_inj] at hlease
            have hreplica : lease.replica = Function.update j.lease.replica c
                ⟨.releasing ⟨j.lease.now, none⟩, false, (j.lease.replica c).lost⟩ := by
              rw [← hlease]
              simp [Lease.State.put]
            exact paired_left hsync hstopped hgiven hothers hreplica rfl
          · cases hlease
        · next hnot =>
          rw [Phase.isStopped_iff] at hnot
          rw [Option.some_inj] at h
          subst h
          refine ⟨.inl rfl, .inr ⟨_, hk, hsystem⟩, fun d => ?_⟩
          have hkept : system.lease = j.system.lease := by
            rcases hreturns.lease with ⟨-, heq⟩ | ⟨heq, -⟩
            · exact heq
            · exact absurd heq hnot
          refine ⟨by rw [← (hsync d).leads, hkept], fun hne => ?_⟩
          by_cases hdc : d = c
          · subst hdc
            rw [hreturns.lost]
            exact (hsync d).running hrunning
          · rw [hothers d hdc] at hne ⊢
            exact (hsync d).running hne

/--
**The lease is the register of the persisters' model.**

At the lease's pace, a release that its caller gave up apart, whatever the workers do, the replicas are in a state
that the lease alone reaches, the workers are in one that the model with one register reaches by steps that `ok` allows, and the register is
who leads.
-/
theorem joint_of_reachable (pace : Lease.Pace lcfg) {j : Joint K κ}
    (h : ((Joint.lts lcfg cfg).guard (Keeps pace ok)).Reachable j) :
    ((Lease.lts κ lcfg).guard (Lease.OnTime pace)).Reachable j.lease ∧
      ((tickLts cfg).guard ok).Reachable j.system ∧ Sync j := by
  refine h.invariant (I := fun j => ((Lease.lts κ lcfg).guard (Lease.OnTime pace)).Reachable j.lease ∧
    ((tickLts cfg).guard ok).Reachable j.system ∧ Sync j) (fun j hj => ?_) fun j a j' ih hstep => ?_
  · rw [show j = .init K κ from hj]
    refine ⟨.init rfl, .init rfl, fun c => ⟨⟨fun heq => (nomatch heq), fun heq => (nomatch heq)⟩,
      fun hne => absurd rfl hne⟩⟩
  · obtain ⟨hlease, hsystem, hsync⟩ := ih
    obtain ⟨hlease', hsystem', hsync'⟩ :=
      hsync.step (Lease.timed_of_reachable hlease) hstep.2 hstep.1
    refine ⟨?_, ?_, hsync'⟩
    · rcases hlease' with heq | ⟨b, hon, hb⟩
      · rw [heq]
        exact hlease
      · exact .step hlease ⟨hb, hon⟩
    · rcases hsystem' with heq | ⟨b, hok, hb⟩
      · rw [heq]
        exact hsystem
      · exact .step hsystem ⟨hb, hok⟩

/-! ## What comes of it -/

section

variable {K κ : Type} [LinearOrder K] [FloatOps K] [DecidableEq κ] {lcfg : Lease.LeaseConfig}

omit [DecidableEq κ] in
theorem Inv.not_isFlushing {cfg : PersisterConfig K} {s : System K κ} {c : κ} (hi : Inv cfg s)
    (hlost : (s.worker c).lost = true) : (s.worker c).phase.isFlushing = false := by
  cases hphase : (s.worker c).phase with
  | flushing resume sweep => exact absurd hphase (hi.not_flushing hlost resume sweep)
  | _ => rfl

theorem act_commit_none {cfg : PersisterConfig K} {s : System K κ} {c : κ}
    (h : (s.worker c).phase.isFlushing = false) :
    s.act c cfg .commit = none ∧ ∀ failure, s.act c cfg (.commitLost failure) = none := by
  refine ⟨?_, fun failure => ?_⟩ <;> rw [System.act] <;> split
  · next hphase => rw [hphase] at h; cases h
  · rfl
  · next hphase => rw [hphase] at h; cases h
  · rfl

/--
**The persisters under their leases.**

Any number of persisters, each with a `LeaderLease` of its own, on one stream and one key. Where the leases
keep their pace (a release that its caller gave up apart) and the workers' steps are those of `lease_handover`, a
worker in `run` without its `lost` event is the one the key names; one with it has no commit to make; and where
every entry is acknowledged, each row counts each tick of its bucket once. These steps: what is appended parses;
the lease is not lost in a flush before its commit, nor between commit and `XACK` while a pending entry is not in
its row; a worker whose `lost` event is set is handed no entry and has no due flush of ticks in memory; a sweep
finds no entry idle that is in memory; and with more than one worker no run ends with an exception.
-/
theorem exactly_once_under_lease (pace : Lease.Pace lcfg) (cfg : PersisterConfig K) {j : Joint K κ}
    (h : ((Joint.lts lcfg cfg).guard (Keeps pace (Disciplined cfg))).Reachable j) :
    (∀ c, (j.system.worker c).phase ≠ .stopped → (j.system.worker c).lost = false →
      j.lease.key.read j.lease.now = some c) ∧
    (∀ c, (j.system.worker c).lost = true → j.system.act c cfg .commit = none ∧
      ∀ failure, j.system.act c cfg (.commitLost failure) = none) ∧
    ((∀ e ∈ j.system.group.log, e ∈ j.system.group.acked) →
      RowsExact cfg j.system.table j.system.group.log) := by
  obtain ⟨hlease, hsystem, hsync⟩ := joint_of_reachable pace h
  have hi := inv_of_reachable hsystem
  refine ⟨fun c hne hno => ?_, fun c hlost => ?_, hi.rowsExact⟩
  · exact (Lease.timed_of_reachable hlease).holds_key (((hsync c).running hne).2 hno)
  · exact act_commit_none (hi.not_isFlushing hlost)

instance [Decidable (Subsingleton Bool)] (pace : Lease.Pace lcfg) (cfg : PersisterConfig K)
    (j : Joint K Bool) : (a : JointAction Bool) → Decidable (Keeps pace (Disciplined cfg) j a)
  | .lease a => inferInstanceAs (Decidable (Lease.OnTime pace j.lease a ∧
      ∀ b ∈ echo j.lease a, Disciplined cfg j.system b))
  | .work a => inferInstanceAs (Decidable (Disciplined cfg j.system a))

end

/-- Worker `false` folds a tick in, its renewal fails, and it leaves; `true` was refused, asks again, claims
the tick and commits it. -/
def renewalFails : List (JointAction Bool) :=
  [.lease (.enter false), .lease (.run false), .lease (.reply false), .work (.append (toLex (5, 0)) sampleTick),
    .work (.act false .readPending), .work (.act false (.claim fun _ => false)), .work (.act false .top),
    .work (.act false (.read 5)), .work (.act false (.check false)), .work (.act false (.sweepCheck false)),
    .lease (.wait 2500), .lease (.enter true), .lease (.run true), .lease (.reply true), .lease (.wait 1000),
    .lease (.renew false), .lease (.fail false), .work (.act false .top), .lease (.run false),
    .lease (.reply false), .lease (.retry true), .lease (.run true), .lease (.reply true),
    .work (.act true .readPending), .work (.act true (.claim fun _ => false)), .work (.act true .commit),
    .work (.act true .ack)]

theorem reachable_renewalFails :
    ∃ j : Joint Int Bool, Lts.exec (Joint.step .default sampleConfig) (.init Int Bool) renewalFails = some j ∧
      j.system.table.values.map (·.tickCount) = [1] ∧
      ((Joint.lts .default sampleConfig).guard
        (Keeps Lease.samplePace (Disciplined sampleConfig))).Reachable j := by
  have : Decidable (Subsingleton Bool) := isFalse (not_subsingleton Bool)
  have hmeets : Lts.Meets (Joint.step .default sampleConfig)
      (Keeps Lease.samplePace (Disciplined sampleConfig)) (.init Int Bool) renewalFails := by decide
  exact ⟨_, rfl, rfl, Lts.reachable_of_meets (.init rfl) hmeets rfl⟩

theorem joint_of_reachable_renewalFails :
    ∃ j : Joint Int Bool, Lts.exec (Joint.step .default sampleConfig) (.init Int Bool) renewalFails = some j ∧
      ((tickLts sampleConfig).guard (Disciplined sampleConfig)).Reachable j.system ∧ Sync j := by
  obtain ⟨j, hexec, -, hr⟩ := reachable_renewalFails
  exact ⟨j, hexec, (joint_of_reachable Lease.samplePace hr).2⟩

theorem exactly_once_under_lease_renewalFails :
    ∃ j : Joint Int Bool, Lts.exec (Joint.step .default sampleConfig) (.init Int Bool) renewalFails = some j ∧
      j.system.table.values.map (·.tickCount) = [1] ∧
      ((∀ e ∈ j.system.group.log, e ∈ j.system.group.acked) →
        RowsExact sampleConfig j.system.table j.system.group.log) := by
  obtain ⟨j, hexec, hrows, hr⟩ := reachable_renewalFails
  exact ⟨j, hexec, hrows, (exactly_once_under_lease Lease.samplePace sampleConfig hr).2.2⟩

end FxTracker.Worker.Ticks
