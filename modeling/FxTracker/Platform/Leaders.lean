import FxTracker.Platform.Lease

/-!
# How many leaders there are

The lease is no consensus: a leader that Redis grants nothing for a whole time to live goes on to believe in
its lease. Nobody else does.

* `Stands` — the key is a replica's, or Redis granted it nothing for a whole time to live
* `leader_or_expired` — of two leaders at once one has gone a whole time to live without a grant
* `Pace`, `OnTime` — how late a reply and a renewal may be, a release that its caller gave up apart
* `leader_holds_key` — at that pace there is one leader at most, and the key is its own
* `passes_leading` — the leadership passes on only by being nobody's
-/

namespace FxTracker.Platform.Lease

variable {ι : Type} [DecidableEq ι] {cfg : LeaseConfig} {s t : State ι} {i j : ι} {r r' : Replica}
  {command : Command}

/-- What Redis granted `i` last stands, or a whole time to live has passed since. -/
def Stands (cfg : LeaseConfig) (s : State ι) (i : ι) : Prop :=
  s.key = some ⟨i, some (s.granted i + cfg.ttlMs)⟩ ∨ s.granted i + cfg.ttlMs < s.now

/-- Where `hold` runs its block as the leader: until the renewer returns. -/
def Phase.leads : Phase → Bool
  | .holding (.sleeping _) | .holding (.renewing _) => true
  | _ => false

/-- A leader, or a replica about to be told that it is one. -/
def Phase.elected : Phase → Bool
  | .acquiring ⟨_, some true⟩ => true
  | phase => phase.leads

def Replica.Ok (r : Replica) : Prop := r.isLeader = r.phase.leads

theorem Phase.elected_of_leads {phase : Phase} (h : phase.leads = true) : phase.elected = true := by
  unfold Phase.elected
  split
  · rfl
  · exact h

/-- Where a leader stands. -/
theorem Phase.leads_iff {phase : Phase} :
    phase.leads = true ↔
      (∃ since, phase = .holding (.sleeping since)) ∨ ∃ call, phase = .holding (.renewing call) := by
  unfold Phase.leads
  split <;> simp_all

/-! ## What a command leaves -/

omit [DecidableEq ι] in
theorem stands_congr (hnow : t.now = s.now) (hkey : t.key = s.key) (hgranted : t.granted = s.granted) :
    Stands cfg t i ↔ Stands cfg s i := by
  unfold Stands
  rw [hnow, hkey, hgranted]

omit [DecidableEq ι] in
theorem stands_wait (h : Stands cfg s i) (ms : Nat) : Stands cfg { s with now := s.now + ms } i := by
  rcases h with hkey | hpast
  · exact .inl hkey
  · exact .inr (Nat.lt_of_lt_of_le hpast (Nat.le_add_right ..))

omit [DecidableEq ι] in
/-- What stands is not free, unless its time is over. -/
theorem Stands.expired (h : Stands cfg s i) (hread : s.key.read s.now ≠ some i) :
    s.granted i + cfg.ttlMs < s.now := by
  rcases h with hkey | hpast
  · rw [hkey, Expiring.read_timed] at hread
    split at hread
    · exact absurd rfl hread
    · next hnot => exact Nat.lt_of_not_le hnot
  · exact hpast

/-- A grant writes the key. -/
theorem execute_grants (h : s.Grants cfg i command) :
    s.execute cfg i command =
      { s with
        key := some ⟨i, some (s.now + cfg.ttlMs)⟩, granted := Function.update s.granted i s.now } := by
  have hkey : (s.serve cfg i command).1 = some ⟨i, some (s.now + cfg.ttlMs)⟩ := by
    obtain ⟨hne, hyes⟩ := h
    cases command with
    | acquire =>
      rcases Expiring.claim_cases s.now cfg.ttlMs i s.key with ⟨-, heq⟩ | ⟨-, heq⟩
      · exact congrArg Prod.fst heq
      · rw [State.serve, heq] at hyes
        cases hyes
    | renew =>
      rcases Expiring.renew_cases s.now cfg.ttlMs i s.key with ⟨-, heq⟩ | ⟨-, heq⟩
      · exact congrArg Prod.fst heq
      · rw [State.serve, heq] at hyes
        cases hyes
    | release => exact absurd rfl hne
  unfold State.execute
  rw [hkey, if_pos h]

/-- A command that grants nothing changes nothing, unless it is the release of the holder. -/
theorem execute_refuses (h : ¬ s.Grants cfg i command) :
    s.execute cfg i command = s ∨
      command = .release ∧ s.key.read s.now = some i ∧ s.execute cfg i command = { s with key := none } := by
  unfold State.execute
  rw [if_neg h]
  cases command with
  | acquire =>
    rcases Expiring.claim_cases s.now cfg.ttlMs i s.key with ⟨-, heq⟩ | ⟨-, heq⟩
    · exact absurd ⟨by decide, congrArg Prod.snd heq⟩ h
    · refine .inl ?_
      rw [State.serve, heq]
  | renew =>
    rcases Expiring.renew_cases s.now cfg.ttlMs i s.key with ⟨-, heq⟩ | ⟨-, heq⟩
    · exact absurd ⟨by decide, congrArg Prod.snd heq⟩ h
    · refine .inl ?_
      rw [State.serve, heq]
  | release =>
    rcases Expiring.remove_cases s.now i s.key with ⟨hmine, heq⟩ | ⟨-, heq⟩
    · refine .inr ⟨rfl, hmine, ?_⟩
      rw [State.serve, heq]
    · refine .inl ?_
      rw [State.serve, heq]

/-- What is granted to `i` was free or its own. -/
theorem read_of_grants (h : s.Grants cfg i command) :
    s.key.read s.now = none ∨ s.key.read s.now = some i := by
  obtain ⟨hne, hyes⟩ := h
  cases command with
  | acquire =>
    rcases Expiring.claim_cases s.now cfg.ttlMs i s.key with ⟨hfree, -⟩ | ⟨-, heq⟩
    · exact .inl hfree
    · rw [State.serve, heq] at hyes
      cases hyes
  | renew =>
    rcases Expiring.renew_cases s.now cfg.ttlMs i s.key with ⟨hmine, -⟩ | ⟨-, heq⟩
    · exact .inr hmine
    · rw [State.serve, heq] at hyes
      cases hyes
  | release => exact absurd rfl hne

theorem stands_grants (h : s.Grants cfg i command) : Stands cfg (s.execute cfg i command) i := by
  rw [execute_grants h]
  refine .inl ?_
  simp only [Function.update_self]

/-- **A command of `i` leaves what stands**, a release of the holder's own apart. -/
theorem stands_execute (h : Stands cfg s j) (hne : command = .release → j ≠ i) :
    Stands cfg (s.execute cfg i command) j := by
  by_cases hg : s.Grants cfg i command
  · by_cases hji : j = i
    · subst hji
      exact stands_grants hg
    · -- the key was free or somebody else's, so the grant of `j` is over
      have hread : s.key.read s.now ≠ some j := by
        rcases read_of_grants hg with hfree | hmine
        · rw [hfree]
          exact fun heq => (nomatch heq)
        · rw [hmine]
          exact fun heq => hji (Option.some_inj.mp heq).symm
      rw [execute_grants hg]
      refine .inr ?_
      change Function.update s.granted i s.now j + cfg.ttlMs < s.now
      rw [Function.update_of_ne hji]
      exact h.expired hread
  · rcases execute_refuses hg with heq | ⟨hrelease, hread, heq⟩
    · rw [heq]
      exact h
    · rw [heq]
      refine .inr (h.expired ?_)
      rw [hread]
      exact fun heq => hne hrelease (Option.some_inj.mp heq).symm

/-! ## The invariant -/

structure Safe (cfg : LeaseConfig) (s : State ι) : Prop where
  ok : ∀ i, (s.replica i).Ok
  stands : ∀ i, (s.replica i).phase.elected = true → Stands cfg s i

/-- A release that its caller has given up does not run any more. -/
def Settled (_ : State ι) : Action ι → Prop
  | .stray _ command => command ≠ .release
  | _ => True

instance (s : State ι) : (a : Action ι) → Decidable (Settled s a)
  | .stray _ command => inferInstanceAs (Decidable (command ≠ .release))
  | .wait _ | .enter _ | .retry _ | .renew _ | .run _ | .reply _ | .resend _ | .fail _ | .leave _
  | .stop _ => isTrue trivial

/-- Where a replica with this call stands. -/
theorem phase_of_call {phase : Phase} {call : Call} (h : phase.call = some (command, call)) :
    (command = .acquire ∧ phase = .acquiring call) ∨
      (command = .renew ∧ phase = .holding (.renewing call)) ∨
      command = .release ∧ phase = .releasing call := by
  unfold Phase.call at h
  split at h
  · cases h
    exact .inl ⟨rfl, rfl⟩
  · cases h
    exact .inr (.inl ⟨rfl, rfl⟩)
  · cases h
    exact .inr (.inr ⟨rfl, rfl⟩)
  · cases h

/-- A call of a leader stays one. -/
theorem leads_recall {phase : Phase} (call : Call) : (phase.recall call).leads = phase.leads := by
  unfold Phase.recall
  split <;> rfl

/-- The ways an answer is taken. -/
theorem reply_cases {now : Nat} (h : r.reply now = some r') :
    (∃ since, r.phase = .acquiring ⟨since, some true⟩ ∧ r' = ⟨.holding (.sleeping now), true, false⟩) ∨
    (∃ since, r.phase = .acquiring ⟨since, some false⟩ ∧ r' = { r with phase := .standby now }) ∨
    (∃ since, r.phase = .holding (.renewing ⟨since, some true⟩) ∧
      r' = { r with phase := .holding (.sleeping now) }) ∨
    (∃ since, r.phase = .holding (.renewing ⟨since, some false⟩) ∧ r' = ⟨.holding .returned, false, true⟩) ∨
    ∃ since answer, r.phase = .releasing ⟨since, some answer⟩ ∧ r' = { r with phase := .outside } := by
  unfold Replica.reply at h
  split at h
  · next since heq => exact .inl ⟨since, heq, (Option.some_inj.mp h).symm⟩
  · next since heq => exact .inr (.inl ⟨since, heq, (Option.some_inj.mp h).symm⟩)
  · next since heq => exact .inr (.inr (.inl ⟨since, heq, (Option.some_inj.mp h).symm⟩))
  · next since heq => exact .inr (.inr (.inr (.inl ⟨since, heq, (Option.some_inj.mp h).symm⟩)))
  · next since answer heq =>
    exact .inr (.inr (.inr (.inr ⟨since, answer, heq, (Option.some_inj.mp h).symm⟩)))
  · cases h

theorem fail_cases (h : r.fail = some r') :
    (∃ call, r.phase = .acquiring call ∧ r' = { r with phase := .outside }) ∨
    (∃ call, r.phase = .holding (.renewing call) ∧ r' = ⟨.holding .returned, false, true⟩) ∨
    ∃ call, r.phase = .releasing call ∧ r' = { r with phase := .outside } := by
  unfold Replica.fail at h
  split at h
  · next call heq => exact .inl ⟨call, heq, (Option.some_inj.mp h).symm⟩
  · next call heq => exact .inr (.inl ⟨call, heq, (Option.some_inj.mp h).symm⟩)
  · next call heq => exact .inr (.inr ⟨call, heq, (Option.some_inj.mp h).symm⟩)
  · cases h

/-- **A replica moves into the leadership only where Redis granted it.** -/
theorem moves_elected {now : Nat} (hok : r.Ok) (h : Moves cfg now r r') :
    r'.Ok ∧ (r'.phase.elected = true → r.phase.elected = true) := by
  have stays : ∀ {phase phase'}, r.phase = phase → phase'.leads = phase.leads →
      phase'.elected = phase'.leads → Replica.Ok { r with phase := phase' } ∧
        (phase'.elected = true → r.phase.elected = true) := by
    intro phase phase' heq hleads helected
    refine ⟨?_, fun h => ?_⟩
    · change r.isLeader = phase'.leads
      rw [show r.isLeader = r.phase.leads from hok, heq, hleads]
    · rw [helected, hleads] at h
      rw [heq]
      exact Phase.elected_of_leads h
  cases h with
  | enter hphase => exact stays hphase rfl rfl
  | retry hphase => exact stays hphase rfl rfl
  | renew hphase => exact stays hphase rfl rfl
  | reply hreply =>
    rcases reply_cases hreply with ⟨since, hphase, rfl⟩ | ⟨since, hphase, rfl⟩ | ⟨since, hphase, rfl⟩ |
      ⟨since, hphase, rfl⟩ | ⟨since, answer, hphase, rfl⟩
    · refine ⟨rfl, fun _ => ?_⟩
      rw [hphase]
      rfl
    · exact stays hphase rfl rfl
    · exact stays hphase rfl rfl
    · exact ⟨rfl, fun helected => (nomatch helected)⟩
    · exact stays hphase rfl rfl
  | resend hcall =>
    refine stays rfl (leads_recall _) ?_
    rcases phase_of_call hcall with ⟨-, hphase⟩ | ⟨-, hphase⟩ | ⟨-, hphase⟩ <;> rw [hphase] <;> rfl
  | fail hfail =>
    rcases fail_cases hfail with ⟨call, hphase, rfl⟩ | ⟨call, hphase, rfl⟩ | ⟨call, hphase, rfl⟩
    · exact stays hphase rfl rfl
    · exact ⟨rfl, fun helected => (nomatch helected)⟩
    · exact stays hphase rfl rfl
  | leave _ => exact ⟨rfl, fun helected => (nomatch helected)⟩
  | stop => exact ⟨rfl, fun helected => (nomatch helected)⟩

omit [DecidableEq ι] in
theorem safe_init (cfg : LeaseConfig) : Safe cfg (.init ι) where
  ok _ := rfl
  stands _ helected := nomatch helected

/-- What a `run` leaves of a replica. -/
theorem elected_run {phase : Phase} {since : Nat} {answer : Bool}
    (hcall : phase.call = some (command, ⟨since, none⟩))
    (h : (phase.recall ⟨since, some answer⟩).elected = true) :
    phase.leads = true ∧ command ≠ .release ∨ command = .acquire ∧ answer = true := by
  rcases phase_of_call hcall with ⟨rfl, rfl⟩ | ⟨rfl, rfl⟩ | ⟨rfl, rfl⟩
  · cases answer with
    | true => exact .inr ⟨rfl, rfl⟩
    | false => cases h
  · exact .inl ⟨rfl, by decide⟩
  · cases h

theorem Safe.run {since : Nat} (h : Safe cfg s)
    (hcall : (s.replica i).phase.call = some (command, ⟨since, none⟩)) :
    Safe cfg ((s.execute cfg i command).put i { s.replica i with
      phase := (s.replica i).phase.recall ⟨since, some (s.serve cfg i command).2⟩ }) := by
  refine ⟨fun j => ?_, fun j helected => ?_⟩
  · by_cases hji : j = i
    · subst hji
      rw [State.put_self]
      exact (h.ok j).trans (leads_recall _).symm
    · rw [State.put_of_ne _ _ _ hji]
      exact h.ok j
  · refine (stands_congr rfl rfl rfl).mpr ?_
    by_cases hji : j = i
    · subst hji
      rw [State.put_self] at helected
      rcases elected_run hcall helected with ⟨hleads, hne⟩ | ⟨rfl, hyes⟩
      · exact stands_execute (h.stands j (Phase.elected_of_leads hleads)) fun heq => absurd heq hne
      · exact stands_grants ⟨by decide, hyes⟩
    · rw [State.put_of_ne _ _ _ hji] at helected
      exact stands_execute (h.stands j helected) fun _ => hji

theorem Safe.step (h : Safe cfg s) {a : Action ι} (hok : Settled s a) (hs : step cfg s a = some t) :
    Safe cfg t := by
  cases takes_of_step hs with
  | wait heq =>
    subst heq
    exact ⟨h.ok, fun i helected => stands_wait (h.stands i helected) _⟩
  | run hcall heq =>
    subst heq
    exact h.run hcall
  | stray hmem heq =>
    subst heq
    refine ⟨h.ok, fun j helected => (stands_congr rfl rfl rfl).mpr ?_⟩
    exact stands_execute (h.stands j helected) fun hrelease => absurd hrelease hok
  | @move _ i r hmoves hnow hkey hgranted hreplica =>
    obtain ⟨hr, helected⟩ := moves_elected (h.ok i) hmoves
    refine ⟨fun j => ?_, fun j hj => (stands_congr hnow hkey hgranted).mpr (h.stands j ?_)⟩
    · rw [hreplica]
      by_cases hji : j = i
      · subst hji
        rw [Function.update_self]
        exact hr
      · rw [Function.update_of_ne hji]
        exact h.ok j
    · rw [hreplica] at hj
      by_cases hji : j = i
      · subst hji
        rw [Function.update_self] at hj
        exact helected hj
      · rwa [Function.update_of_ne hji] at hj

omit [DecidableEq ι] in
theorem Safe.stands_leader (h : Safe cfg s) (hleader : (s.replica i).isLeader = true) : Stands cfg s i :=
  h.stands i (Phase.elected_of_leads ((h.ok i).symm.trans hleader))

theorem safe_of_reachable (h : ((lts ι cfg).guard Settled).Reachable s) : Safe cfg s :=
  h.invariant (fun _ h0 => h0 ▸ safe_init cfg) fun _ _ _ hi hs => hi.step hs.2 hs.1

/--
**Leaders at any pace.**

A leader that Redis granted the lease within the last time to live is the one the key names. So where two
replicas lead at once, one of them has had no command granted for a whole time to live.
-/
theorem leader_or_expired (cfg : LeaseConfig) {s : State ι}
    (h : ((lts ι cfg).guard Settled).Reachable s) :
    (∀ i, (s.replica i).isLeader = true → s.now ≤ s.granted i + cfg.ttlMs →
      s.key.read s.now = some i) ∧
    ∀ i j, (s.replica i).isLeader = true → (s.replica j).isLeader = true → i ≠ j →
      s.granted i + cfg.ttlMs < s.now ∨ s.granted j + cfg.ttlMs < s.now := by
  have hsafe := safe_of_reachable h
  have key : ∀ i, (s.replica i).isLeader = true → s.now ≤ s.granted i + cfg.ttlMs →
      s.key.read s.now = some i := by
    intro i hi hle
    by_contra hread
    exact absurd ((hsafe.stands_leader hi).expired hread) (Nat.not_lt.mpr hle)
  refine ⟨key, fun i j hi hj hne => ?_⟩
  by_contra hboth
  obtain ⟨hle, hle'⟩ := not_or.mp hboth
  have hread := key i hi (Nat.not_lt.mp hle)
  rw [key j hj (Nat.not_lt.mp hle')] at hread
  exact hne (Option.some_inj.mp hread).symm

/-- Replica `false` becomes the leader, stalls for more than a time to live, and `true` takes over. -/
def stalled : List (Action Bool) :=
  [.enter false, .run false, .reply false, .wait 10001, .enter true, .run true, .reply true]

theorem leader_or_expired_stalled :
    ∃ s, Lts.exec (step .default) (.init Bool) stalled = some s ∧
      (s.replica false).isLeader = true ∧ (s.replica true).isLeader = true ∧
      (s.granted false + 10000 < s.now ∨ s.granted true + 10000 < s.now) := by
  have hr := fun s => Lts.reachable_of_meets (t := s) (.init rfl)
    (show Lts.Meets (step .default) Settled (.init Bool) stalled by decide)
  exact ⟨_, rfl, rfl, rfl, (leader_or_expired .default (hr _ rfl)).2 false true rfl rfl (by decide)⟩

/-- What the condition is for: `false` leaves, its release is given up, it waits for its own lease to run
out and leads again; the release then deletes the lease it has just been granted. -/
theorem two_leaders_of_late_release :
    ∃ s, Lts.exec (step .default) (.init Bool)
        [.enter false, .run false, .reply false, .leave false, .fail false, .wait 10001,
          .enter false, .run false, .reply false, .stray false .release,
          .enter true, .run true, .reply true] = some s ∧
      (s.replica false).isLeader = true ∧ (s.replica true).isLeader = true ∧
      s.granted false = s.now ∧ s.granted true = s.now :=
  ⟨_, rfl, rfl, rfl, rfl, rfl⟩

/-! ## Leaders at a pace -/

/-- How late things may be: a call takes `roundTrip` at most, and a sleeper wakes at most `slack` late. -/
structure Pace (cfg : LeaseConfig) where
  roundTrip : Nat
  slack : Nat
  enough : cfg.renewMs + slack + 2 * roundTrip ≤ cfg.ttlMs

variable {pace : Pace cfg}

/-- The last moment at which a replica may still be in a phase. -/
def Phase.due (pace : Pace cfg) : Phase → Option Nat
  | .acquiring call | .holding (.renewing call) | .releasing call => some (call.since + pace.roundTrip)
  | .holding (.sleeping since) => some (since + cfg.renewMs + pace.slack)
  | .standby since => some (since + RETRY_MS + pace.slack)
  | _ => none

/-- Time passes no further than every replica has until its next step. -/
def OnTime (pace : Pace cfg) (s : State ι) : Action ι → Prop
  | .wait ms => ∀ i, ∀ due ∈ (s.replica i).phase.due pace, s.now + ms ≤ due
  | .stray _ command => command ≠ .release
  | _ => True

instance (pace : Pace cfg) (s : State Bool) : (a : Action Bool) → Decidable (OnTime pace s a)
  | .wait ms =>
    inferInstanceAs (Decidable (∀ i, ∀ due ∈ (s.replica i).phase.due pace, s.now + ms ≤ due))
  | .stray _ command => inferInstanceAs (Decidable (command ≠ .release))
  | .enter _ | .retry _ | .renew _ | .run _ | .reply _ | .resend _ | .fail _ | .leave _
  | .stop _ => isTrue trivial

omit [DecidableEq ι] in
theorem settled_of_onTime {a : Action ι} (h : OnTime pace s a) : Settled s a := by
  cases a with
  | stray i command => exact h
  | _ => trivial

/-- How long ago Redis granted a replica the lease, by where it stands. -/
def Fresh (pace : Pace cfg) (granted : Nat) : Phase → Prop
  | .acquiring ⟨since, answer⟩ => answer = some true → since ≤ granted
  | .holding (.sleeping since) => since ≤ granted + pace.roundTrip
  | .holding (.renewing ⟨since, answer⟩) =>
    since ≤ granted + pace.roundTrip + cfg.renewMs + pace.slack ∧ (answer = some true → since ≤ granted)
  | _ => True

/-- When a replica came into a phase; a call that is sent again goes on. -/
def Phase.since : Phase → Option Nat
  | .acquiring call | .holding (.renewing call) | .releasing call => some call.since
  | .standby since | .holding (.sleeping since) => some since
  | _ => none

/-- What the clock says of one replica: it is not late, and nothing it did lies ahead. -/
structure Punctual (pace : Pace cfg) (now granted : Nat) (phase : Phase) : Prop where
  due : ∀ due ∈ phase.due pace, now ≤ due
  began : ∀ since ∈ phase.since, since ≤ now
  past : granted ≤ now
  fresh : Fresh pace granted phase

/-- The invariant with the clock. -/
structure Timed (pace : Pace cfg) (s : State ι) : Prop extends Safe cfg s where
  punctual : ∀ i, Punctual pace s.now (s.granted i) (s.replica i).phase

theorem Fresh.mono {granted granted' : Nat} {phase : Phase} (hle : granted ≤ granted')
    (h : Fresh pace granted phase) : Fresh pace granted' phase := by
  unfold Fresh at h ⊢
  split
  · exact fun hyes => Nat.le_trans (h hyes) hle
  · exact Nat.le_trans h (Nat.add_le_add_right hle _)
  · refine ⟨Nat.le_trans h.1 ?_, fun hyes => Nat.le_trans (h.2 hyes) hle⟩
    omega
  · trivial

omit [DecidableEq ι] in
/-- **A leader was granted the lease less than a time to live ago.** -/
theorem Timed.granted_le (h : Timed pace s) (hleader : (s.replica i).isLeader = true) :
    s.now ≤ s.granted i + cfg.ttlMs := by
  have henough := pace.enough
  have hfresh := (h.punctual i).fresh
  have hdue := (h.punctual i).due
  rcases Phase.leads_iff.mp ((h.ok i).symm.trans hleader) with ⟨since, hphase⟩ | ⟨⟨since, answer⟩, hphase⟩
  · rw [hphase] at hfresh hdue
    have hle := hdue _ rfl
    have hsince : since ≤ s.granted i + pace.roundTrip := hfresh
    omega
  · rw [hphase] at hfresh hdue
    have hle := hdue _ rfl
    have hsince : since ≤ s.granted i + pace.roundTrip + cfg.renewMs + pace.slack := hfresh.1
    have : s.now ≤ since + pace.roundTrip := hle
    omega

theorem granted_le_execute (cfg : LeaseConfig) (i : ι) (command : Command) (hpast : s.granted j ≤ s.now) :
    s.granted j ≤ (s.execute cfg i command).granted j ∧ (s.execute cfg i command).granted j ≤ s.now := by
  unfold State.execute
  dsimp only
  split
  · by_cases hji : j = i
    · subst hji
      rw [Function.update_self]
      exact ⟨hpast, Nat.le_refl _⟩
    · rw [Function.update_of_ne hji]
      exact ⟨Nat.le_refl _, hpast⟩
  · exact ⟨Nat.le_refl _, hpast⟩

theorem due_recall {phase : Phase} {since : Nat} {answer answer' : Option Bool}
    (hcall : phase.call = some (command, ⟨since, answer⟩)) :
    (phase.recall ⟨since, answer'⟩).due pace = phase.due pace := by
  rcases phase_of_call hcall with ⟨-, rfl⟩ | ⟨-, rfl⟩ | ⟨-, rfl⟩ <;> rfl

theorem since_of_call {phase : Phase} {call : Call} (hcall : phase.call = some (command, call)) :
    phase.since = some call.since := by
  rcases phase_of_call hcall with ⟨-, rfl⟩ | ⟨-, rfl⟩ | ⟨-, rfl⟩ <;> rfl

theorem since_recall {phase : Phase} {call call' : Call} (hcall : phase.call = some (command, call)) :
    (phase.recall call').since = some call'.since := by
  rcases phase_of_call hcall with ⟨-, rfl⟩ | ⟨-, rfl⟩ | ⟨-, rfl⟩ <;> rfl

/-- A command of anybody else's. -/
theorem Punctual.execute {phase : Phase} (h : Punctual pace s.now (s.granted j) phase) (i : ι)
    (command : Command) : Punctual pace s.now ((s.execute cfg i command).granted j) phase := by
  obtain ⟨hle, hpast⟩ := granted_le_execute cfg i command h.past
  exact ⟨h.due, h.began, hpast, h.fresh.mono hle⟩

/-- **The answer to a call.** -/
theorem Punctual.run {phase : Phase} {since : Nat} (h : Punctual pace s.now (s.granted i) phase)
    (hcall : phase.call = some (command, ⟨since, none⟩)) :
    Punctual pace s.now ((s.execute cfg i command).granted i)
      (phase.recall ⟨since, some (s.serve cfg i command).2⟩) := by
  have hbegan : since ≤ s.now := h.began _ (since_of_call hcall)
  have hgranted : command ≠ .release → (s.serve cfg i command).2 = true →
      since ≤ (s.execute cfg i command).granted i := by
    intro hne hyes
    rw [execute_grants ⟨hne, hyes⟩]
    change since ≤ Function.update s.granted i s.now i
    rwa [Function.update_self]
  have hexec := h.execute i command
  refine ⟨?_, fun since' hmem => ?_, hexec.past, ?_⟩
  · rw [due_recall hcall]
    exact h.due
  · rw [since_recall hcall] at hmem
    cases hmem
    exact hbegan
  · have hfresh := hexec.fresh
    rcases phase_of_call hcall with ⟨rfl, rfl⟩ | ⟨rfl, rfl⟩ | ⟨rfl, rfl⟩
    · exact fun hyes => hgranted (by decide) (Option.some_inj.mp hyes)
    · exact ⟨hfresh.1, fun hyes => hgranted (by decide) (Option.some_inj.mp hyes)⟩
    · trivial

/-- A phase that begins now. -/
theorem Punctual.begin {phase : Phase} {now granted : Nat} (hpast : granted ≤ now)
    (hsince : phase.since = some now) (hdue : ∀ due ∈ phase.due pace, now ≤ due)
    (hfresh : Fresh pace granted phase) : Punctual pace now granted phase := by
  refine ⟨hdue, fun since hmem => ?_, hpast, hfresh⟩
  rw [hsince] at hmem
  cases hmem
  exact Nat.le_refl _

/-- A call that begins now. -/
theorem Punctual.call {phase : Phase} {now granted : Nat} (hpast : granted ≤ now)
    (hcall : phase.call = some (command, ⟨now, none⟩)) (hdue : phase.due pace = some (now + pace.roundTrip))
    (hfresh : Fresh pace granted phase) : Punctual pace now granted phase := by
  refine .begin hpast (since_of_call hcall) (fun due hmem => ?_) hfresh
  rw [hdue, Option.mem_some_iff] at hmem
  exact hmem ▸ Nat.le_add_right ..

/-- The renewer goes to sleep after a yes. -/
theorem Punctual.sleep {phase : Phase} {since now granted : Nat} (h : Punctual pace now granted phase)
    (hdue : phase.due pace = some (since + pace.roundTrip)) (hsince : since ≤ granted) :
    Punctual pace now granted (.holding (.sleeping now)) := by
  have hle : now ≤ since + pace.roundTrip := h.due _ hdue
  refine .begin h.past rfl (fun due hmem => ?_) ?_
  · rw [Phase.due, Option.mem_some_iff] at hmem
    omega
  · change now ≤ granted + pace.roundTrip
    omega

theorem Punctual.out {phase : Phase} {now granted : Nat} (hpast : granted ≤ now)
    (hsince : phase.since = none) (hdue : phase.due pace = none) (hfresh : Fresh pace granted phase) :
    Punctual pace now granted phase := by
  refine ⟨fun due hmem => ?_, fun since hmem => ?_, hpast, hfresh⟩
  · rw [hdue] at hmem
    cases hmem
  · rw [hsince] at hmem
    cases hmem

/-- **What a replica does by itself.** -/
theorem Punctual.moves {now granted : Nat} (h : Moves cfg now r r')
    (hp : Punctual pace now granted r.phase) : Punctual pace now granted r'.phase := by
  have hfresh := hp.fresh
  cases h with
  | enter _ => exact .call hp.past rfl rfl fun hyes => (nomatch hyes)
  | retry _ _ => exact .call hp.past rfl rfl fun hyes => (nomatch hyes)
  | @renew since hphase _ =>
    have hle : now ≤ since + cfg.renewMs + pace.slack := hp.due _ (by rw [hphase]; rfl)
    rw [hphase] at hfresh
    have hsince : since ≤ granted + pace.roundTrip := hfresh
    exact .call hp.past rfl rfl ⟨by omega, fun hyes => (nomatch hyes)⟩
  | reply hreply =>
    rcases reply_cases hreply with ⟨since, hphase, rfl⟩ | ⟨since, hphase, rfl⟩ | ⟨since, hphase, rfl⟩ |
      ⟨since, hphase, rfl⟩ | ⟨since, answer, hphase, rfl⟩
    · rw [hphase] at hfresh
      exact hp.sleep (by rw [hphase]; rfl) (hfresh rfl)
    · refine .begin hp.past rfl (fun due hmem => ?_) trivial
      rw [Phase.due, Option.mem_some_iff] at hmem
      omega
    · rw [hphase] at hfresh
      exact hp.sleep (by rw [hphase]; rfl) (hfresh.2 rfl)
    · exact .out hp.past rfl rfl trivial
    · exact .out hp.past rfl rfl trivial
  | @resend command call hcall =>
    have hbegan := hp.began _ (since_of_call hcall)
    refine ⟨?_, fun since hmem => ?_, hp.past, ?_⟩
    · rw [due_recall hcall]
      exact hp.due
    · rw [since_recall hcall] at hmem
      cases hmem
      exact hbegan
    · rcases phase_of_call hcall with ⟨-, hphase⟩ | ⟨-, hphase⟩ | ⟨-, hphase⟩ <;> rw [hphase] at hfresh ⊢
      · exact fun hyes => (nomatch hyes)
      · exact ⟨hfresh.1, fun hyes => (nomatch hyes)⟩
      · trivial
  | fail hfail =>
    rcases fail_cases hfail with ⟨call, hphase, rfl⟩ | ⟨call, hphase, rfl⟩ | ⟨call, hphase, rfl⟩
    · exact .out hp.past rfl rfl trivial
    · exact .out hp.past rfl rfl trivial
    · exact .out hp.past rfl rfl trivial
  | leave _ => exact .call hp.past rfl rfl trivial
  | stop => exact .out hp.past rfl rfl trivial

omit [DecidableEq ι] in
theorem timed_init (pace : Pace cfg) : Timed pace (.init ι) where
  toSafe := safe_init cfg
  punctual _ := .out (Nat.le_refl _) rfl rfl trivial

theorem Timed.step (h : Timed pace s) {a : Action ι} (hok : OnTime pace s a)
    (hs : step cfg s a = some t) : Timed pace t := by
  refine { toSafe := h.toSafe.step (settled_of_onTime hok) hs, punctual := fun j => ?_ }
  cases takes_of_step hs with
  | wait heq =>
    subst heq
    have hp := h.punctual j
    exact ⟨hok j, fun since hmem => Nat.le_trans (hp.began since hmem) (Nat.le_add_right ..),
      Nat.le_trans hp.past (Nat.le_add_right ..), hp.fresh⟩
  | @run i command since hcall heq =>
    subst heq
    by_cases hji : j = i
    · subst hji
      rw [State.put_self]
      exact (h.punctual j).run hcall
    · rw [State.put_of_ne _ _ _ hji]
      exact (h.punctual j).execute _ _
  | stray hmem heq =>
    subst heq
    exact (h.punctual j).execute _ _
  | @move _ i r hmoves hnow hkey hgranted hreplica =>
    rw [hnow, hgranted, hreplica]
    by_cases hji : j = i
    · subst hji
      rw [Function.update_self]
      exact .moves hmoves (h.punctual j)
    · rw [Function.update_of_ne hji]
      exact h.punctual j

theorem timed_of_reachable (h : ((lts ι cfg).guard (OnTime pace)).Reachable s) : Timed pace s :=
  h.invariant (fun _ h0 => h0 ▸ timed_init pace) fun _ _ _ hi hs => hi.step hs.2 hs.1

theorem Timed.holds_key (h : Timed pace s) (hleader : (s.replica i).isLeader = true) :
    s.key.read s.now = some i := by
  by_contra hread
  exact absurd ((h.stands_leader hleader).expired hread) (Nat.not_lt.mpr (h.granted_le hleader))

theorem Timed.leader_unique (h : Timed pace s) (hi : (s.replica i).isLeader = true)
    (hj : (s.replica j).isLeader = true) : i = j := by
  have hread := h.holds_key hi
  rw [h.holds_key hj] at hread
  exact (Option.some_inj.mp hread).symm

/-- Who leads, as one register. -/
noncomputable def State.leading (s : State ι) : Option ι :=
  open Classical in
  if h : ∃ i, (s.replica i).isLeader = true then some h.choose else none

omit [DecidableEq ι] in
theorem leading_eq_some (h : s.leading = some i) : (s.replica i).isLeader = true := by
  unfold State.leading at h
  split at h
  · next hex =>
    rw [Option.some_inj] at h
    exact h ▸ hex.choose_spec
  · cases h

/-- A step changes one replica at most. -/
theorem step_others {a : Action ι} (hs : step cfg s a = some t) (hi : s.replica i ≠ t.replica i)
    (hji : j ≠ i) : t.replica j = s.replica j := by
  have one : ∀ {k r}, t.replica = Function.update s.replica k r → t.replica j = s.replica j := by
    intro k r heq
    have hik : i = k := by
      by_contra hne
      exact hi (by rw [heq, Function.update_of_ne hne])
    rw [heq, Function.update_of_ne (hik ▸ hji)]
  cases takes_of_step hs with
  | wait heq => subst heq; rfl
  | run _ heq => exact one (congrArg State.replica heq)
  | stray _ heq => subst heq; rfl
  | move _ _ _ _ hreplica => exact one hreplica

/--
**Leaders at a pace.**

Where every call comes back within `roundTrip`, nobody sleeps longer than `slack` beyond its time,
`renew_ms + slack + 2 * roundTrip ≤ ttl_ms`, and a release that its caller gave up does not run any more, a leader
is the one the key names, so there is one at most; and a step passes the leadership from one replica to another
only by way of none.
-/
theorem leader_holds_key (pace : Pace cfg) {s : State ι}
    (h : ((lts ι cfg).guard (OnTime pace)).Reachable s) :
    (∀ i, (s.replica i).isLeader = true → s.key.read s.now = some i) ∧
    (∀ i j, (s.replica i).isLeader = true → (s.replica j).isLeader = true → i = j) ∧
    ∀ a t, OnTime pace s a → step cfg s a = some t → Expiring.Passes s.leading t.leading := by
  have htimed := timed_of_reachable h
  refine ⟨fun i hi => htimed.holds_key hi, fun i j hi hj => htimed.leader_unique hi hj,
    fun a t hok hs => ?_⟩
  have htimed' := htimed.step hok hs
  cases hi : s.leading with
  | none => exact .inr (.inl rfl)
  | some i =>
    cases hj : t.leading with
    | none => exact .inr (.inr rfl)
    | some j =>
      refine .inl (congrArg some ?_)
      have hleader := leading_eq_some hi
      have hleader' := leading_eq_some hj
      by_contra hne
      -- `j` became a leader by this step, so `i` still is one
      have hj' : s.replica j ≠ t.replica j := by
        intro heq
        rw [← heq] at hleader'
        exact hne (htimed.leader_unique hleader hleader')
      rw [← step_others hs hj' hne] at hleader
      exact hne (htimed'.leader_unique hleader hleader')

/-- Calls of three seconds at most, with the default lease. -/
def samplePace : Pace .default := ⟨3000, 500, by decide⟩

/-- `false` acquires and renews the lease, and leaves; `true` is told to wait, and follows. -/
def handedOver : List (Action Bool) :=
  [.enter false, .wait 900, .run false, .reply false, .enter true, .run true, .reply true, .wait 1400,
    .retry true, .run true, .wait 1700, .renew false, .run false, .wait 1200, .reply false, .reply true,
    .leave false, .run false, .wait 1000, .reply false, .retry true, .run true, .reply true]

theorem leader_holds_key_handedOver :
    ∃ s, Lts.exec (step .default) (.init Bool) handedOver = some s ∧
      (s.replica true).isLeader = true ∧ s.key.read s.now = some true := by
  have hr := fun s => Lts.reachable_of_meets (t := s) (.init rfl)
    (show Lts.Meets (step .default) (OnTime samplePace) (.init Bool) handedOver by decide)
  exact ⟨_, rfl, rfl, (leader_holds_key samplePace (hr _ rfl)).1 true rfl⟩

end FxTracker.Platform.Lease
