import FxTracker.Platform.Leaders

/-!
# How long the lease stays free

A standby asks again a second after each refusal. At the pace of `OnTime`, a replica that keeps asking is
the reason why the lease is granted again in time, to it or to another one.

* `deadline_le` — the lease of a leader that died runs out within a time to live
* `Waits` — how far a waiting replica is, as long as Redis grants nothing
* `takeover` — how long Redis can grant nothing while a replica waits
-/

namespace FxTracker.Platform.Lease

variable {ι : Type} [DecidableEq ι] {cfg : LeaseConfig} {pace : Pace cfg} {s t u : State ι} {i j : ι}
  {command : Command} {limit : Nat}

/-! ## The deadline -/

/-- The key lasts a time to live from now on at most. -/
def Bounded (cfg : LeaseConfig) (s : State ι) : Prop :=
  ∀ c, s.key = some c → ∃ deadline, c.deadline = some deadline ∧ deadline ≤ s.now + cfg.ttlMs

theorem Bounded.execute (h : Bounded cfg s) : Bounded cfg (s.execute cfg i command) := by
  by_cases hg : s.Grants cfg i command
  · rw [execute_grants hg]
    intro c hc
    cases hc
    exact ⟨_, rfl, Nat.le_refl _⟩
  · rcases execute_refuses hg with heq | ⟨-, -, heq⟩
    · rw [heq]
      exact h
    · rw [heq]
      intro c hc
      cases hc

theorem Bounded.step (h : Bounded cfg s) {a : Action ι} (hs : step cfg s a = some t) : Bounded cfg t := by
  cases takes_of_step hs with
  | wait heq =>
    subst heq
    intro c hc
    obtain ⟨deadline, hd, hle⟩ := h c hc
    exact ⟨deadline, hd, Nat.le_trans hle (Nat.add_le_add_right (Nat.le_add_right ..) _)⟩
  | run _ heq =>
    subst heq
    exact h.execute
  | stray _ heq =>
    subst heq
    exact h.execute
  | move _ hnow hkey _ _ =>
    unfold Bounded
    rw [hnow, hkey]
    exact h

theorem bounded_of_reachable (h : (lts ι cfg).Reachable s) : Bounded cfg s :=
  h.invariant (fun _ h0 _ hc => by rw [h0] at hc; cases hc) fun _ _ _ hi hs => hi.step hs

/-- The key is not there after `limit`, unless it is granted again. -/
def Lapses (limit : Nat) (s : State ι) : Prop := ∀ now, limit < now → s.key.read now = none

/-- **A lease runs out within a time to live.** -/
theorem deadline_le (h : (lts ι cfg).Reachable s) : Lapses (s.now + cfg.ttlMs) s := by
  intro now hlt
  cases hkey : s.key with
  | none => rfl
  | some c =>
    obtain ⟨v, d⟩ := c
    obtain ⟨deadline, rfl, hle⟩ := bounded_of_reachable h _ hkey
    rw [Expiring.read_timed, if_neg (by omega)]

omit [DecidableEq ι] in
theorem lapses_of_free (h : s.key.read s.now = none) : Lapses s.now s :=
  fun _ hlt => Expiring.read_none_mono (Nat.le_of_lt hlt) h

/-! ## A replica that waits -/

/-- In the loop of `hold` before the block. -/
def Phase.queues : Phase → Bool
  | .acquiring _ | .standby _ => true
  | _ => false

theorem Phase.queues_iff {phase : Phase} :
    phase.queues = true ↔ (∃ call, phase = .acquiring call) ∨ ∃ since, phase = .standby since := by
  cases phase <;> simp [Phase.queues]

/-- Redis grants somebody the lease by this step. -/
def awards (cfg : LeaseConfig) (s : State ι) : Action ι → Bool
  | .run i =>
    match (s.replica i).phase.call with
    | some (command, ⟨_, none⟩) => decide (s.Grants cfg i command)
    | _ => false
  | .stray i command => decide (s.Grants cfg i command)
  | _ => false

/-- The latest moment at which a waiting replica's next acquisition has run. -/
def patience (pace : Pace cfg) (limit : Nat) : Nat := limit + RETRY_MS + pace.slack + 2 * pace.roundTrip

/-- How far a waiting replica is, while nothing is granted and the key is not there after `limit`. -/
def Waits (pace : Pace cfg) (limit : Nat) : Phase → Prop
  | .acquiring ⟨since, none⟩ => since ≤ limit + RETRY_MS + pace.slack + pace.roundTrip
  | .acquiring ⟨since, some _⟩ => since ≤ limit
  | .standby since => since ≤ limit + pace.roundTrip
  | _ => True

theorem waits_of_since_le {phase : Phase} (h : ∀ since ∈ phase.since, since ≤ limit) :
    Waits pace limit phase := by
  unfold Waits
  split
  · next since =>
    have : since ≤ limit := h since rfl
    omega
  · next since _ => exact h since rfl
  · next since =>
    have : since ≤ limit := h since rfl
    omega
  · trivial

/-- **A waiting replica's time.** -/
theorem now_le_patience {now granted : Nat} {phase : Phase} (hp : Punctual pace now granted phase)
    (hw : Waits pace limit phase) (hq : phase.queues = true) : now ≤ patience pace limit := by
  unfold patience
  rcases Phase.queues_iff.mp hq with ⟨⟨since, answer⟩, rfl⟩ | ⟨since, rfl⟩
  · have hdue : now ≤ since + pace.roundTrip := hp.due _ rfl
    cases answer with
    | none =>
      have hsince : since ≤ limit + RETRY_MS + pace.slack + pace.roundTrip := hw
      omega
    | some _ =>
      have hsince : since ≤ limit := hw
      omega
  · have hdue : now ≤ since + RETRY_MS + pace.slack := hp.due _ rfl
    have hsince : since ≤ limit + pace.roundTrip := hw
    omega

/-- What a waiting replica does by itself. -/
theorem Waits.moves {now granted : Nat} {r r' : Replica} (h : Moves cfg now r r')
    (hp : Punctual pace now granted r.phase) (hw : Waits pace limit r.phase)
    (hq : r.phase.queues = true) : Waits pace limit r'.phase := by
  have hstandby : ∀ {phase}, r.phase = phase → (∀ call, phase ≠ .acquiring call) →
      (∀ since, phase ≠ .standby since) → False := by
    intro phase heq hacquiring hstandby
    rcases Phase.queues_iff.mp hq with ⟨call, hcall⟩ | ⟨since, hsince⟩
    · exact hacquiring call (heq.symm.trans hcall)
    · exact hstandby since (heq.symm.trans hsince)
  cases h with
  | enter hphase => exact (hstandby hphase (by simp) (by simp)).elim
  | @retry since hphase _ =>
    rw [hphase] at hp hw
    have hdue : now ≤ since + RETRY_MS + pace.slack := hp.due _ rfl
    have hsince : since ≤ limit + pace.roundTrip := hw
    change now ≤ limit + RETRY_MS + pace.slack + pace.roundTrip
    omega
  | renew hphase => exact (hstandby hphase (by simp) (by simp)).elim
  | reply hreply =>
    rcases reply_cases hreply with ⟨since, hphase, rfl⟩ | ⟨since, hphase, rfl⟩ | ⟨since, hphase, rfl⟩ |
      ⟨since, hphase, rfl⟩ | ⟨since, answer, hphase, rfl⟩
    · trivial
    · rw [hphase] at hp hw
      have hdue : now ≤ since + pace.roundTrip := hp.due _ rfl
      have hsince : since ≤ limit := hw
      change now ≤ limit + pace.roundTrip
      omega
    · exact (hstandby hphase (by simp) (by simp)).elim
    · exact (hstandby hphase (by simp) (by simp)).elim
    · exact (hstandby hphase (by simp) (by simp)).elim
  | @resend command call hcall =>
    rcases phase_of_call hcall with ⟨-, hphase⟩ | ⟨-, hphase⟩ | ⟨-, hphase⟩
    · rw [hphase] at hw ⊢
      obtain ⟨since, answer⟩ := call
      change since ≤ limit + RETRY_MS + pace.slack + pace.roundTrip
      cases answer with
      | none => exact hw
      | some _ =>
        have hsince : since ≤ limit := hw
        omega
    · exact (hstandby hphase (by simp) (by simp)).elim
    · exact (hstandby hphase (by simp) (by simp)).elim
  | fail hfail =>
    rcases fail_cases hfail with ⟨call, hphase, rfl⟩ | ⟨call, hphase, rfl⟩ | ⟨call, hphase, rfl⟩
    · trivial
    · trivial
    · trivial
  | leave hphase => exact (hstandby hphase (by simp) (by simp)).elim
  | stop => trivial

/-- What does not award the lease leaves no more of the key than there was. -/
theorem lapses_execute (h : Lapses limit s) (hg : ¬ s.Grants cfg i command) :
    Lapses limit (s.execute cfg i command) := by
  rcases execute_refuses hg with heq | ⟨-, -, heq⟩
  · rw [heq]
    exact h
  · rw [heq]
    exact fun _ _ => rfl

/-- Where an acquisition is refused, the key is there. -/
theorem now_le_of_refused (h : Lapses limit s) (hg : ¬ s.Grants cfg i .acquire) : s.now ≤ limit := by
  by_contra hlt
  refine hg ⟨by decide, ?_⟩
  rcases Expiring.claim_cases s.now cfg.ttlMs i s.key with ⟨-, heq⟩ | ⟨⟨w, hread⟩, -⟩
  · exact congrArg Prod.snd heq
  · rw [h s.now (Nat.lt_of_not_le hlt)] at hread
    cases hread

structure Waiting (pace : Pace cfg) (limit : Nat) (i : ι) (s : State ι) : Prop where
  timed : Timed pace s
  lapses : Lapses limit s
  waits : Waits pace limit (s.replica i).phase
  now_le : s.now ≤ patience pace limit

theorem Waiting.step (h : Waiting pace limit i s) {a : Action ι} (hok : OnTime pace s a)
    (hq : (s.replica i).phase.queues = true) (hnot : awards cfg s a = false) (hs : step cfg s a = some t) :
    Waiting pace limit i t := by
  have htimed := h.timed.step hok hs
  cases takes_of_step hs with
  | wait heq =>
    subst heq
    exact ⟨htimed, h.lapses, h.waits, now_le_patience (htimed.punctual i) h.waits hq⟩
  | @run j command since hcall heq =>
    have hrefused : ¬ s.Grants cfg j command := by
      rw [awards, hcall] at hnot
      exact of_decide_eq_false hnot
    subst heq
    refine ⟨htimed, lapses_execute h.lapses hrefused, ?_, h.now_le⟩
    by_cases hij : i = j
    · subst hij
      rw [State.put_self]
      rcases phase_of_call hcall with ⟨rfl, hphase⟩ | ⟨-, hphase⟩ | ⟨-, hphase⟩
      · rw [hphase]
        refine Nat.le_trans ?_ (now_le_of_refused h.lapses hrefused)
        exact (h.timed.punctual i).began since (by rw [hphase]; rfl)
      · rw [hphase]
        trivial
      · rw [hphase]
        trivial
    · rw [State.put_of_ne _ _ _ hij]
      exact h.waits
  | stray _ heq =>
    subst heq
    exact ⟨htimed, lapses_execute h.lapses (of_decide_eq_false hnot), h.waits, h.now_le⟩
  | @move _ j r hmoves hnow hkey _ hreplica =>
    refine ⟨htimed, fun now hlt => ?_, ?_, hnow ▸ h.now_le⟩
    · rw [hkey]
      exact h.lapses now hlt
    · rw [hreplica]
      by_cases hij : i = j
      · subst hij
        rw [Function.update_self]
        exact .moves hmoves (h.timed.punctual i) h.waits hq
      · rw [Function.update_of_ne hij]
        exact h.waits

/-- What `i` lives through while it waits in vain. -/
def InVain (pace : Pace cfg) (i : ι) (s : State ι) (a : Action ι) : Prop :=
  OnTime pace s a ∧ (s.replica i).phase.queues = true ∧ awards cfg s a = false

instance (pace : Pace cfg) (i : Bool) (s : State Bool) (a : Action Bool) :
    Decidable (InVain pace i s a) :=
  inferInstanceAs (Decidable (_ ∧ _))

theorem Waiting.exec : ∀ {as : List (Action ι)} {s t : State ι}, Waiting pace limit i s →
    Lts.Meets (Lease.step cfg) (InVain pace i) s as → Lts.exec (Lease.step cfg) s as = some t →
    Waiting pace limit i t
  | [], s, t, h, _, hexec => by
    rw [Lts.exec] at hexec
    cases hexec
    exact h
  | a :: as, s, t, h, hmeets, hexec => by
    rw [Lts.exec, Option.bind_eq_some_iff] at hexec
    obtain ⟨u, hu, ht⟩ := hexec
    obtain ⟨hok, hq, hnot⟩ := hmeets.1
    exact Waiting.exec (h.step hok hq hnot hu) (hmeets.2 u hu) ht

/--
**Takeover.**

At the pace of `OnTime`, at which a release that its caller gave up does not run any more, while some replica waits
in `hold` without interruption, Redis grants the lease to somebody within `ttl_ms`, the standby's second, its slack and two round trips; and within the last three of
these from a moment at which the lease is free.
-/
theorem takeover (pace : Pace cfg) {s t : State ι}
    (h : ((lts ι cfg).guard (OnTime pace)).Reachable s) {i : ι} {as : List (Action ι)}
    (hmeets : Lts.Meets (step cfg) (InVain pace i) s as) (hexec : Lts.exec (step cfg) s as = some t) :
    t.now ≤ s.now + cfg.ttlMs + RETRY_MS + pace.slack + 2 * pace.roundTrip ∧
    (s.key.read s.now = none → t.now ≤ s.now + RETRY_MS + pace.slack + 2 * pace.roundTrip) := by
  have htimed := timed_of_reachable h
  have within : ∀ {limit : Nat}, s.now ≤ limit → Lapses limit s → t.now ≤ patience pace limit := by
    intro limit hle hlapses
    have hw : Waiting pace limit i s :=
      { timed := htimed
        lapses := hlapses
        waits := waits_of_since_le fun since hmem =>
          Nat.le_trans ((htimed.punctual i).began since hmem) hle
        now_le := by
          unfold patience
          omega }
    exact (hw.exec hmeets hexec).now_le
  exact ⟨within (Nat.le_add_right ..) (deadline_le h.of_guard),
    fun hfree => within (Nat.le_refl _) (lapses_of_free hfree)⟩

/-- Two seconds to live, renewed twice a second. -/
def shortLease : LeaseConfig := ⟨2000, 500, by decide⟩

def shortPace : Pace shortLease := ⟨500, 100, by decide⟩

/-- The leader dies as soon as it leads. -/
def death : List (Action Bool) := [.enter false, .run false, .reply false, .stop false, .enter true]

def bereft : State Bool := (Lts.exec (step shortLease) (.init Bool) death).get rfl

/-- The standby asks at 0, 1000 and 2000 ms. -/
def asking : List (Action Bool) :=
  [.run true, .reply true, .wait 1000, .retry true, .run true, .reply true, .wait 1000, .retry true,
    .run true, .reply true, .wait 1000]

theorem takeover_bereft :
    ∃ t, Lts.exec (step shortLease) bereft asking = some t ∧ t.now = 3000 ∧
      t.now ≤ 0 + 2000 + 1000 + 100 + 2 * 500 := by
  have hr : ((lts Bool shortLease).guard (OnTime shortPace)).Reachable bereft :=
    Lts.reachable_of_meets (.init rfl) (show Lts.Meets _ _ _ death by decide) rfl
  have hmeets : Lts.Meets (step shortLease) (InVain shortPace true) bereft asking := by decide
  exact ⟨_, rfl, rfl, (takeover shortPace hr hmeets rfl).1⟩

end FxTracker.Platform.Lease
