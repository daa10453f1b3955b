import FxTracker.Lib.Expiring
import FxTracker.Lib.Lts
import Mathlib.Logic.Function.Basic

/-!
# The leader lease

`LeaderLease` of `fx_platform/leader.py`, for any number of replicas with ids of their own on one key, in
milliseconds. A replica goes in and out of `hold` as often as it likes. Redis runs a command at any time
after it was sent, also after its caller gave up waiting, or never; the client may send it again. A replica
that stops may be the process that died, or a task that was cancelled.

* `LeaseConfig` — what the constructor accepts
* `State`, `step` — the replicas, the key and the commands that are still under way
* `takes_of_step` — what a step does
-/

namespace FxTracker.Platform.Lease

/-- The arguments of the constructor, as it accepts them. -/
structure LeaseConfig where
  ttlMs : Nat
  renewMs : Nat
  accepted : 2 * renewMs < ttlMs

/-- The defaults. -/
def LeaseConfig.default : LeaseConfig := ⟨10000, 3000, by decide⟩

/-- The pause of a standby. -/
def RETRY_MS : Nat := 1000

inductive Command
  | acquire
  | renew
  | release
  deriving DecidableEq

/-- A call of a command: when it began, and Redis's answer once the command has run. -/
structure Call where
  since : Nat
  answer : Option Bool
  deriving DecidableEq

/-- Where the task of `_renew_loop` stands. -/
inductive Renewer
  | sleeping (since : Nat)
  | renewing (call : Call)
  /-- It set `lost` and returned. -/
  | returned
  deriving DecidableEq

/-- Where `hold` stands. -/
inductive Phase
  | outside
  | acquiring (call : Call)
  | standby (since : Nat)
  /-- In the block of the `async with`. -/
  | holding (renewer : Renewer)
  | releasing (call : Call)
  deriving DecidableEq

structure Replica where
  phase : Phase
  isLeader : Bool
  lost : Bool
  deriving DecidableEq

/-- The command a replica waits for. -/
def Phase.call : Phase → Option (Command × Call)
  | .acquiring call => some (.acquire, call)
  | .holding (.renewing call) => some (.renew, call)
  | .releasing call => some (.release, call)
  | _ => none

/-- The same, with another call. -/
def Phase.recall (call : Call) : Phase → Phase
  | .acquiring _ => .acquiring call
  | .holding (.renewing _) => .holding (.renewing call)
  | .releasing _ => .releasing call
  | phase => phase

structure State (ι : Type) where
  now : Nat
  key : Expiring ι
  replica : ι → Replica
  /-- The commands nobody waits for any more that may still run. -/
  strays : List (ι × Command)
  /-- When Redis last answered yes to an acquisition or a renewal. Nothing in the code reads it. -/
  granted : ι → Nat

inductive Action (ι : Type)
  | wait (ms : Nat)
  | enter (i : ι)
  /-- The pause of the standby is over. -/
  | retry (i : ι)
  /-- The sleep of the renewer is over. -/
  | renew (i : ι)
  /-- Redis runs the command `i` waits for. -/
  | run (i : ι)
  /-- Redis runs a command `i` does not wait for any more. -/
  | stray (i : ι) (command : Command)
  | reply (i : ι)
  /-- The client sends the command again. -/
  | resend (i : ι)
  /-- The call raises a `RedisError`. -/
  | fail (i : ι)
  /-- The block ends, however it ends. -/
  | leave (i : ι)
  /-- The process dies, or `hold` is cancelled outside its block. -/
  | stop (i : ι)

namespace State

def init (ι : Type) : State ι := ⟨0, none, fun _ => ⟨.outside, false, false⟩, [], fun _ => 0⟩

variable {ι : Type} (cfg : LeaseConfig) (s : State ι) (i : ι)

/-- A command that has not run when its caller gives up may still run. -/
def giveUp : State ι :=
  match (s.replica i).phase.call with
  | some (command, ⟨_, none⟩) => { s with strays := (i, command) :: s.strays }
  | _ => s

@[simp] theorem giveUp_now : (s.giveUp i).now = s.now := by unfold giveUp; split <;> rfl
@[simp] theorem giveUp_key : (s.giveUp i).key = s.key := by unfold giveUp; split <;> rfl
@[simp] theorem giveUp_replica : (s.giveUp i).replica = s.replica := by unfold giveUp; split <;> rfl
@[simp] theorem giveUp_granted : (s.giveUp i).granted = s.granted := by unfold giveUp; split <;> rfl

variable [DecidableEq ι]

def put (r : Replica) : State ι := { s with replica := Function.update s.replica i r }

@[simp] theorem put_now (r : Replica) : (s.put i r).now = s.now := rfl
@[simp] theorem put_key (r : Replica) : (s.put i r).key = s.key := rfl
@[simp] theorem put_strays (r : Replica) : (s.put i r).strays = s.strays := rfl
@[simp] theorem put_granted (r : Replica) : (s.put i r).granted = s.granted := rfl

@[simp] theorem put_self (r : Replica) : (s.put i r).replica i = r := Function.update_self ..

theorem put_of_ne (r : Replica) {j : ι} (hne : j ≠ i) : (s.put i r).replica j = s.replica j :=
  Function.update_of_ne hne ..

/-- What Redis does for `i`: the `SET NX PX` and the two scripts. -/
def serve : Command → Expiring ι × Bool
  | .acquire => s.key.claim s.now cfg.ttlMs i
  | .renew => s.key.renew s.now cfg.ttlMs i
  | .release => s.key.remove s.now i

/-- Redis grants `i` the lease, for a time to live from now on. -/
def Grants (command : Command) : Prop := command ≠ .release ∧ (s.serve cfg i command).2 = true

instance (command : Command) : Decidable (s.Grants cfg i command) :=
  inferInstanceAs (Decidable (_ ∧ _))

def execute (command : Command) : State ι :=
  { s with
    key := (s.serve cfg i command).1
    granted := if s.Grants cfg i command then Function.update s.granted i s.now else s.granted }

@[simp] theorem execute_now (command : Command) : (s.execute cfg i command).now = s.now := rfl
@[simp] theorem execute_replica (command : Command) :
    (s.execute cfg i command).replica = s.replica := rfl

end State

variable {ι : Type} [DecidableEq ι]

/-- `_acquire`, `_renew` or `_release` has its answer. -/
def Replica.reply (now : Nat) (r : Replica) : Option Replica :=
  match r.phase with
  | .acquiring ⟨_, some true⟩ => some ⟨.holding (.sleeping now), true, false⟩
  | .acquiring ⟨_, some false⟩ => some { r with phase := .standby now }
  | .holding (.renewing ⟨_, some true⟩) => some { r with phase := .holding (.sleeping now) }
  | .holding (.renewing ⟨_, some false⟩) => some ⟨.holding .returned, false, true⟩
  | .releasing ⟨_, some _⟩ => some { r with phase := .outside }
  | _ => none

/-- A failed acquisition leaves `hold`; a failed renewal is a lost lease; a failed release is suppressed. -/
def Replica.fail (r : Replica) : Option Replica :=
  match r.phase with
  | .acquiring _ => some { r with phase := .outside }
  | .holding (.renewing _) => some ⟨.holding .returned, false, true⟩
  | .releasing _ => some { r with phase := .outside }
  | _ => none

def step (cfg : LeaseConfig) (s : State ι) : Action ι → Option (State ι)
  | .wait ms => some { s with now := s.now + ms }
  | .enter i =>
    match (s.replica i).phase with
    | .outside => some (s.put i { s.replica i with phase := .acquiring ⟨s.now, none⟩ })
    | _ => none
  | .retry i =>
    match (s.replica i).phase with
    | .standby since =>
      if since + RETRY_MS ≤ s.now then
        some (s.put i { s.replica i with phase := .acquiring ⟨s.now, none⟩ })
      else none
    | _ => none
  | .renew i =>
    match (s.replica i).phase with
    | .holding (.sleeping since) =>
      if since + cfg.renewMs ≤ s.now then
        some (s.put i { s.replica i with phase := .holding (.renewing ⟨s.now, none⟩) })
      else none
    | _ => none
  | .run i =>
    match (s.replica i).phase.call with
    | some (command, ⟨since, none⟩) =>
      some ((s.execute cfg i command).put i { s.replica i with
        phase := (s.replica i).phase.recall ⟨since, some (s.serve cfg i command).2⟩ })
    | _ => none
  | .stray i command =>
    if (i, command) ∈ s.strays then
      some { s.execute cfg i command with strays := s.strays.erase (i, command) }
    else none
  | .reply i => ((s.replica i).reply s.now).map (s.put i)
  | .resend i =>
    match (s.replica i).phase.call with
    | some (_, call) =>
      some ((s.giveUp i).put i
        { s.replica i with phase := (s.replica i).phase.recall ⟨call.since, none⟩ })
    | none => none
  | .fail i => (s.replica i).fail.map ((s.giveUp i).put i)
  | .leave i =>
    match (s.replica i).phase with
    | .holding _ =>
      some ((s.giveUp i).put i ⟨.releasing ⟨s.now, none⟩, false, (s.replica i).lost⟩)
    | _ => none
  | .stop i => some ((s.giveUp i).put i ⟨.outside, false, (s.replica i).lost⟩)

/-! ## What a step does -/

/-- What a replica does by itself, between two things Redis does for it. -/
inductive Moves (cfg : LeaseConfig) (now : Nat) (r : Replica) : Replica → Prop
  | enter : r.phase = .outside → Moves cfg now r { r with phase := .acquiring ⟨now, none⟩ }
  | retry {since : Nat} : r.phase = .standby since → since + RETRY_MS ≤ now →
      Moves cfg now r { r with phase := .acquiring ⟨now, none⟩ }
  | renew {since : Nat} : r.phase = .holding (.sleeping since) → since + cfg.renewMs ≤ now →
      Moves cfg now r { r with phase := .holding (.renewing ⟨now, none⟩) }
  | reply {r' : Replica} : r.reply now = some r' → Moves cfg now r r'
  | resend {command : Command} {call : Call} : r.phase.call = some (command, call) →
      Moves cfg now r { r with phase := r.phase.recall ⟨call.since, none⟩ }
  | fail {r' : Replica} : r.fail = some r' → Moves cfg now r r'
  | leave {renewer : Renewer} : r.phase = .holding renewer →
      Moves cfg now r ⟨.releasing ⟨now, none⟩, false, r.lost⟩
  | stop : Moves cfg now r ⟨.outside, false, r.lost⟩

/-- A step is time that passes, a command that Redis runs for one replica, or a move of one replica. -/
inductive Takes (cfg : LeaseConfig) (s t : State ι) : Action ι → Prop
  | wait {ms : Nat} : t = { s with now := s.now + ms } → Takes cfg s t (.wait ms)
  | run {i : ι} {command : Command} {since : Nat} :
      (s.replica i).phase.call = some (command, ⟨since, none⟩) →
      t = (s.execute cfg i command).put i { s.replica i with
        phase := (s.replica i).phase.recall ⟨since, some (s.serve cfg i command).2⟩ } →
      Takes cfg s t (.run i)
  | stray {i : ι} {command : Command} : (i, command) ∈ s.strays →
      t = { s.execute cfg i command with strays := s.strays.erase (i, command) } →
      Takes cfg s t (.stray i command)
  | move {a : Action ι} {i : ι} {r : Replica} : Moves cfg s.now (s.replica i) r → t.now = s.now →
      t.key = s.key → t.granted = s.granted → t.replica = Function.update s.replica i r →
      Takes cfg s t a

theorem takes_of_step {cfg : LeaseConfig} {s t : State ι} {a : Action ι} (h : step cfg s a = some t) :
    Takes cfg s t a := by
  cases a with
  | wait ms =>
    rw [step, Option.some_inj] at h
    exact .wait h.symm
  | enter i =>
    rw [step] at h
    split at h
    · next hphase =>
      rw [Option.some_inj] at h
      subst h
      exact .move (.enter hphase) rfl rfl rfl rfl
    · cases h
  | retry i =>
    rw [step] at h
    split at h
    · next since hphase =>
      split at h
      · next hdue =>
        rw [Option.some_inj] at h
        subst h
        exact .move (.retry hphase hdue) rfl rfl rfl rfl
      · cases h
    · cases h
  | renew i =>
    rw [step] at h
    split at h
    · next since hphase =>
      split at h
      · next hdue =>
        rw [Option.some_inj] at h
        subst h
        exact .move (.renew hphase hdue) rfl rfl rfl rfl
      · cases h
    · cases h
  | run i =>
    rw [step] at h
    split at h
    · next command since hcall =>
      rw [Option.some_inj] at h
      exact .run hcall h.symm
    · cases h
  | stray i command =>
    rw [step] at h
    split at h
    · next hmem =>
      rw [Option.some_inj] at h
      exact .stray hmem h.symm
    · cases h
  | reply i =>
    rw [step, Option.map_eq_some_iff] at h
    obtain ⟨r, hr, rfl⟩ := h
    exact .move (.reply hr) rfl rfl rfl rfl
  | resend i =>
    rw [step] at h
    split at h
    · next command call hcall =>
      rw [Option.some_inj] at h
      subst h
      refine .move (.resend hcall) ?_ ?_ ?_ ?_ <;> simp [State.put]
    · cases h
  | fail i =>
    rw [step, Option.map_eq_some_iff] at h
    obtain ⟨r, hr, rfl⟩ := h
    refine .move (.fail hr) ?_ ?_ ?_ ?_ <;> simp [State.put]
  | leave i =>
    rw [step] at h
    split at h
    · next renewer hphase =>
      rw [Option.some_inj] at h
      subst h
      refine .move (.leave hphase) ?_ ?_ ?_ ?_ <;> simp [State.put]
    · cases h
  | stop i =>
    rw [step, Option.some_inj] at h
    subst h
    refine @Takes.move _ _ _ _ _ _ i _ .stop ?_ ?_ ?_ ?_ <;> simp [State.put]

def lts (ι : Type) [DecidableEq ι] (cfg : LeaseConfig) : Lts (State ι) (Action ι) :=
  Lts.ofFn (.init ι) (step cfg)

end FxTracker.Platform.Lease
