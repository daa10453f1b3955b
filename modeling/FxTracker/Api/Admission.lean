import FxTracker.Api.RateLimit
import FxTracker.Api.Tickets
import Mathlib.Data.List.Nodup

/-!
# How many sessions a client can open

`POST /ws/ticket` and the handshake of `/ws/stream` (`fx_api/routers/stream.py`) together: a request that the
limiter lets through is issued a ticket, and a ticket opens a session. The requests are those of one client;
the tokens of the others are other keys. A request may fail between the limiter and the `SET`.

* `State`, `step` — the limiter and the tickets, on one clock
* `sessions_bound` — over a stretch of time that a window exceeds by a ticket's validity, a client opens
  fewer than twice the limit of sessions
-/

namespace FxTracker.Api.Admission

structure Settings where
  windowMs : Nat
  ticketLimit : Nat
  ticketTtlMs : Nat

structure State where
  limiter : RateLimit.State
  tickets : Tickets.State
  /-- The requests let through whose ticket is still to be issued. -/
  granted : List Counted
  /-- The tickets issued so far, with their requests. Nothing in the code reads it. -/
  requests : List (Tickets.Entry × Counted)

inductive Action
  | wait (ms : Nat)
  /-- The transaction of `hit`. -/
  | request
  | arm (time : Nat)
  | lose (time : Nat)
  /-- The `SET` of a request let through. It may come before the `EXPIRE` of another request, or of its own. -/
  | issue (request : Counted) (token : String)
  /-- A request ends before its `SET`. -/
  | fail (request : Counted)
  | handshake (token : String) (answered : Bool)

def init : State := ⟨RateLimit.init, Tickets.init, [], []⟩

/-- The request whose transaction runs now. -/
def State.next (s : State) : Counted := ⟨s.limiter.now, s.limiter.count.1, s.limiter.born⟩

def step (cfg : Settings) (s : State) : Action → Option State
  | .wait ms =>
    (RateLimit.step cfg.windowMs s.limiter (.wait ms)).bind fun limiter =>
      (Tickets.step cfg.ticketTtlMs s.tickets (.wait ms)).map fun tickets => { s with limiter, tickets }
  | .request =>
    (RateLimit.step cfg.windowMs s.limiter .hit).map fun limiter =>
      { s with
        limiter
        granted := if (RateLimit.verdict cfg.ticketLimit s.limiter.count.1 s.limiter.count.2).allowed then
          s.next :: s.granted else s.granted }
  | .arm time =>
    (RateLimit.step cfg.windowMs s.limiter (.arm time)).map fun limiter => { s with limiter }
  | .lose time =>
    (RateLimit.step cfg.windowMs s.limiter (.lose time)).map fun limiter => { s with limiter }
  | .issue request token =>
    if request ∈ s.granted then
      (Tickets.step cfg.ticketTtlMs s.tickets (.issue token "anonymous")).map fun tickets =>
        { s with
          tickets
          granted := s.granted.erase request
          requests := (⟨token, "anonymous", s.tickets.now⟩, request) :: s.requests }
    else none
  | .fail request =>
    if request ∈ s.granted then some { s with granted := s.granted.erase request } else none
  | .handshake token answered =>
    (Tickets.step cfg.ticketTtlMs s.tickets (.redeem token answered)).map fun tickets => { s with tickets }

def lts (cfg : Settings) : Lts State Action := .ofFn init (step cfg)

/-- A request let through has its ticket within `delay`, or fails. -/
def InTime (delay : Nat) (s : State) : Action → Prop
  | .wait ms => ∀ request ∈ s.granted, s.limiter.now + ms ≤ request.time + delay
  | _ => True

instance (delay : Nat) (s : State) : (a : Action) → Decidable (InTime delay s a)
  | .wait ms => inferInstanceAs (Decidable (∀ request ∈ s.granted, s.limiter.now + ms ≤ request.time + delay))
  | .request | .arm _ | .lose _ | .issue _ _ | .fail _ | .handshake _ _ => isTrue trivial

variable {cfg : Settings} {delay : Nat} {s t : State} {a : Action}

/-! ## The invariant -/

/-- The requests let through so far that did not fail. -/
def State.passed (s : State) : List Counted := s.granted ++ s.requests.map Prod.snd

structure Inv (cfg : Settings) (delay : Nat) (s : State) : Prop where
  limiter : (RateLimit.lts cfg.windowMs).Reachable s.limiter
  tickets : (Tickets.lts cfg.ticketTtlMs).Reachable s.tickets
  clock : s.tickets.now = s.limiter.now
  issued : s.requests.map Prod.fst = s.tickets.issued
  nodup : s.passed.Nodup
  allowed : ∀ request ∈ s.passed, request ∈ s.limiter.log ∧ request.count ≤ cfg.ticketLimit
  waiting : ∀ request ∈ s.granted, s.limiter.now ≤ request.time + delay
  paired : ∀ p ∈ s.requests, p.2.time ≤ p.1.time ∧ p.1.time ≤ p.2.time + delay

theorem inv_init (cfg : Settings) (delay : Nat) : Inv cfg delay init where
  limiter := .init rfl
  tickets := .init rfl
  clock := rfl
  issued := rfl
  nodup := .nil
  allowed _ h := nomatch h
  waiting _ h := nomatch h
  paired _ h := nomatch h

/-- What a limiter step that is no request leaves. -/
theorem Inv.limit (hi : Inv cfg delay s) {b : RateLimit.Action} {limiter : RateLimit.State}
    (h : RateLimit.step cfg.windowMs s.limiter b = some limiter) (hlog : limiter.log = s.limiter.log)
    (hnow : limiter.now = s.limiter.now) : Inv cfg delay { s with limiter } where
  limiter := .step hi.limiter h
  tickets := hi.tickets
  clock := hi.clock.trans hnow.symm
  issued := hi.issued
  nodup := hi.nodup
  allowed request hmem := by
    dsimp only
    rw [hlog]
    exact hi.allowed request hmem
  waiting request hmem := by
    dsimp only
    rw [hnow]
    exact hi.waiting request hmem
  paired := hi.paired

theorem Inv.request (hi : Inv cfg delay s) (h : step cfg s .request = some t) : Inv cfg delay t := by
  rw [step, Option.map_eq_some_iff] at h
  obtain ⟨limiter, hhit, rfl⟩ := h
  have hreach : (RateLimit.lts cfg.windowMs).Reachable limiter := .step hi.limiter hhit
  have hwindows := (RateLimit.inv_of_reachable hreach).windows
  rw [RateLimit.step, Option.some_inj] at hhit
  have hlog : limiter.log = s.next :: s.limiter.log := by rw [← hhit]; rfl
  have hnow : limiter.now = s.limiter.now := by rw [← hhit]
  have hfresh : s.next ∉ s.limiter.log := by
    have hnd := List.Nodup.of_map _ hwindows.nodup_numbers
    rw [hlog] at hnd
    exact (List.nodup_cons.mp hnd).1
  have hold : ∀ request ∈ s.passed, request ∈ limiter.log ∧ request.count ≤ cfg.ticketLimit := by
    intro request hmem
    obtain ⟨hin, hle⟩ := hi.allowed request hmem
    rw [hlog]
    exact ⟨List.mem_cons_of_mem _ hin, hle⟩
  by_cases hallowed : (RateLimit.verdict cfg.ticketLimit s.limiter.count.1 s.limiter.count.2).allowed = true
  · rw [if_pos hallowed]
    refine ⟨hreach, hi.tickets, hi.clock.trans hnow.symm, hi.issued, ?_, ?_, ?_, hi.paired⟩
    · exact List.nodup_cons.mpr ⟨fun hmem => hfresh (hi.allowed _ hmem).1, hi.nodup⟩
    · intro request hmem
      rcases List.mem_cons.mp hmem with rfl | hmem
      · rw [hlog]
        exact ⟨List.mem_cons_self .., RateLimit.verdict_allowed.mp hallowed⟩
      · exact hold request hmem
    · intro request hmem
      dsimp only
      rw [hnow]
      rcases List.mem_cons.mp hmem with rfl | hmem
      · exact Nat.le_add_right ..
      · exact hi.waiting request hmem
  · rw [if_neg hallowed]
    refine ⟨hreach, hi.tickets, hi.clock.trans hnow.symm, hi.issued, hi.nodup, hold, ?_, hi.paired⟩
    intro request hmem
    dsimp only
    rw [hnow]
    exact hi.waiting request hmem

/-- A request that is let through leaves `granted`. -/
theorem nodup_erase_passed (hi : Inv cfg delay s) {request : Counted} (hmem : request ∈ s.granted) :
    (s.granted.erase request ++ request :: s.requests.map Prod.snd).Nodup := by
  refine (List.Perm.nodup_iff ?_).mpr hi.nodup
  calc s.granted.erase request ++ request :: s.requests.map Prod.snd
      _ |>.Perm (request :: (s.granted.erase request ++ s.requests.map Prod.snd)) := List.perm_middle
      _ |>.Perm (s.granted ++ s.requests.map Prod.snd) :=
        ((List.perm_cons_erase hmem).symm.append_right _)

theorem Inv.issue (hi : Inv cfg delay s) {request : Counted} {token : String}
    (h : step cfg s (.issue request token) = some t) : Inv cfg delay t := by
  rw [step] at h
  split at h
  · next hmem =>
    rw [Option.map_eq_some_iff] at h
    obtain ⟨tickets, hissue, rfl⟩ := h
    have hreach : (Tickets.lts cfg.ticketTtlMs).Reachable tickets := .step hi.tickets hissue
    rw [Tickets.step] at hissue
    split at hissue
    · cases hissue
    · rw [Option.some_inj] at hissue
      have hsub : ∀ request' ∈ s.granted.erase request ++ request :: s.requests.map Prod.snd,
          request' ∈ s.passed := by
        intro request' hmem'
        rcases List.mem_append.mp hmem' with hmem' | hmem'
        · exact List.mem_append_left _ (List.mem_of_mem_erase hmem')
        · rcases List.mem_cons.mp hmem' with rfl | hmem'
          · exact List.mem_append_left _ hmem
          · exact List.mem_append_right _ hmem'
      refine ⟨hi.limiter, hreach, ?_, ?_, nodup_erase_passed hi hmem, ?_, ?_, ?_⟩
      · rw [← hissue]
        exact hi.clock
      · rw [← hissue]
        exact congrArg (_ :: ·) hi.issued
      · exact fun request' hmem' => hi.allowed request' (hsub request' hmem')
      · exact fun request' hmem' => hi.waiting request' (List.mem_of_mem_erase hmem')
      · intro p hp
        rcases List.mem_cons.mp hp with rfl | hp
        · have hin := (hi.allowed request (List.mem_append_left _ hmem)).1
          have hpast := (RateLimit.inv_of_reachable hi.limiter).past request hin
          have hwait := hi.waiting request hmem
          have hclock := hi.clock
          exact ⟨by dsimp only; omega, by dsimp only; omega⟩
        · exact hi.paired p hp
  · cases h

theorem Inv.step (hi : Inv cfg delay s) (hok : InTime delay s a) (h : step cfg s a = some t) :
    Inv cfg delay t := by
  cases a with
  | wait ms =>
    rw [Admission.step, Option.bind_eq_some_iff] at h
    obtain ⟨limiter, hlimiter, h⟩ := h
    rw [Option.map_eq_some_iff] at h
    obtain ⟨tickets, htickets, rfl⟩ := h
    have hreach : (RateLimit.lts cfg.windowMs).Reachable limiter := .step hi.limiter hlimiter
    have hreach' : (Tickets.lts cfg.ticketTtlMs).Reachable tickets := .step hi.tickets htickets
    rw [RateLimit.step, Option.some_inj] at hlimiter
    rw [Tickets.step, Option.some_inj] at htickets
    subst hlimiter htickets
    exact ⟨hreach, hreach', congrArg (· + ms) hi.clock, hi.issued, hi.nodup, hi.allowed, hok, hi.paired⟩
  | request => exact hi.request h
  | arm time =>
    rw [Admission.step, Option.map_eq_some_iff] at h
    obtain ⟨limiter, hlimiter, rfl⟩ := h
    refine hi.limit hlimiter ?_ ?_ <;> rw [RateLimit.step] at hlimiter <;> split at hlimiter
    · rw [← Option.some_inj.mp hlimiter]
    · cases hlimiter
    · rw [← Option.some_inj.mp hlimiter]
    · cases hlimiter
  | lose time =>
    rw [Admission.step, Option.map_eq_some_iff] at h
    obtain ⟨limiter, hlimiter, rfl⟩ := h
    refine hi.limit hlimiter ?_ ?_ <;> rw [RateLimit.step] at hlimiter <;> split at hlimiter
    · rw [← Option.some_inj.mp hlimiter]
    · cases hlimiter
    · rw [← Option.some_inj.mp hlimiter]
    · cases hlimiter
  | issue request token => exact hi.issue h
  | fail request =>
    rw [Admission.step] at h
    split at h
    · next hmem =>
      rw [Option.some_inj] at h
      subst h
      have hsub : List.Sublist (s.granted.erase request ++ s.requests.map Prod.snd) s.passed :=
        List.erase_sublist.append_right _
      exact ⟨hi.limiter, hi.tickets, hi.clock, hi.issued, hi.nodup.sublist hsub,
        fun request' hmem' => hi.allowed request' (hsub.subset hmem'),
        fun request' hmem' => hi.waiting request' (List.mem_of_mem_erase hmem'), hi.paired⟩
    · cases h
  | handshake token answered =>
    rw [Admission.step, Option.map_eq_some_iff] at h
    obtain ⟨tickets, htickets, rfl⟩ := h
    have hreach : (Tickets.lts cfg.ticketTtlMs).Reachable tickets := .step hi.tickets htickets
    rw [Tickets.step, Option.some_inj] at htickets
    subst htickets
    exact ⟨hi.limiter, hreach, hi.clock, hi.issued, hi.nodup, hi.allowed, hi.waiting, hi.paired⟩

theorem inv_of_reachable (h : ((lts cfg).guard (InTime delay)).Reachable s) : Inv cfg delay s :=
  h.invariant (fun _ h0 => h0 ▸ inv_init cfg delay) fun _ _ _ hi hs => hi.step hs.2 hs.1

/-! ## The sessions -/

/-- The sessions opened in a stretch of time. -/
def sessions (start stop : Nat) (s : State) : List Tickets.Entry :=
  s.tickets.opened.filter fun session => start ≤ session.time ∧ session.time ≤ stop

/-- **A session comes from a request let through**, no longer ago than `delay` and the ticket's validity. -/
theorem exists_request (hi : Inv cfg delay s) {session : Tickets.Entry}
    (hsession : session ∈ s.tickets.opened) :
    ∃ p ∈ s.requests, p.1.token = session.token ∧ p.2.time ≤ session.time ∧
      session.time ≤ p.2.time + delay + cfg.ticketTtlMs := by
  obtain ⟨ticket, hticket, htoken, -, hle, hle'⟩ :=
    (Tickets.inv_of_reachable hi.tickets).valid session hsession
  rw [← hi.issued] at hticket
  obtain ⟨p, hp, rfl⟩ := List.mem_map.mp hticket
  obtain ⟨hpast, hdelay⟩ := hi.paired p hp
  exact ⟨p, hp, htoken, by omega, by omega⟩

/--
**Sessions of a client.**

Where a request let through has its ticket within `delay`, and `length + ttl_s + delay` is no more than the
limiter's window: in any stretch of time of that `length`, the tickets of one client open fewer than twice
`ticket_limit_per_min` sessions.
-/
theorem sessions_bound (cfg : Settings) (delay length : Nat)
    (hfit : length + cfg.ticketTtlMs + delay ≤ cfg.windowMs) {s : State}
    (h : ((lts cfg).guard (InTime delay)).Reachable s) (start : Nat) :
    (sessions start (start + length) s).length ≤ 2 * cfg.ticketLimit - 1 := by
  have hi := inv_of_reachable h
  let first := start - cfg.ticketTtlMs - delay
  let recent := s.requests.filter fun p => first ≤ p.2.time ∧ p.2.time ≤ start + length
  have hsessions : (sessions start (start + length) s).length ≤ recent.length := by
    have hnd : ((sessions start (start + length) s).map Tickets.Entry.token).Nodup :=
      (Tickets.inv_of_reachable hi.tickets).once.sublist (List.filter_sublist.map _)
    have hsub : (sessions start (start + length) s).map Tickets.Entry.token ⊆
        recent.map fun p => p.1.token := by
      intro token htoken
      obtain ⟨session, hsession, rfl⟩ := List.mem_map.mp htoken
      rw [sessions, List.mem_filter, decide_eq_true_eq] at hsession
      obtain ⟨p, hp, heq, hle, hle'⟩ := exists_request hi hsession.1
      refine List.mem_map.mpr ⟨p, List.mem_filter.mpr ⟨hp, ?_⟩, heq⟩
      rw [decide_eq_true_eq]
      omega
    have hlen := (List.subperm_of_subset hnd hsub).length_le
    rwa [List.length_map, List.length_map] at hlen
  have hrequests : recent.length ≤
      (withinLimit cfg.ticketLimit first (first + cfg.windowMs) s.limiter.log).length := by
    have hnd : (recent.map Prod.snd).Nodup :=
      hi.nodup.sublist ((List.filter_sublist.map _).trans (List.sublist_append_right ..))
    have hsub : recent.map Prod.snd ⊆
        withinLimit cfg.ticketLimit first (first + cfg.windowMs) s.limiter.log := by
      intro request hrequest
      obtain ⟨p, hp, rfl⟩ := List.mem_map.mp hrequest
      rw [List.mem_filter, decide_eq_true_eq] at hp
      obtain ⟨hin, hle⟩ :=
        hi.allowed p.2 (List.mem_append_right _ (List.mem_map.mpr ⟨p, hp.1, rfl⟩))
      exact mem_withinLimit.mpr ⟨hin, hle, hp.2.1, by omega⟩
    have hlen := (List.subperm_of_subset hnd hsub).length_le
    rwa [List.length_map] at hlen
  have hbound := (RateLimit.inv_of_reachable hi.limiter).windows.length_withinLimit_le cfg.ticketLimit first
  omega

/-- One ticket a minute, valid for half of one. -/
def sparing : Settings := ⟨60000, 1, 30000⟩

/-- The second request is refused, and the ticket is used once. -/
def visits : List Action :=
  [.request, .arm 0, .wait 100, .issue ⟨0, 1, 0⟩ "a", .request, .wait 20000, .handshake "a" true,
    .handshake "a" true]

theorem sessions_bound_visits :
    ∃ s, Lts.exec (step sparing) init visits = some s ∧ (sessions 0 29000 s).length = 1 ∧
      (sessions 0 (0 + 29000) s).length ≤ 2 * 1 - 1 := by
  have hr := fun s => Lts.reachable_of_meets (t := s) (.init rfl)
    (show Lts.Meets (step sparing) (InTime 1000) init visits by decide)
  exact ⟨_, rfl, rfl, sessions_bound sparing 1000 29000 (by decide) (hr _ rfl) 0⟩

end FxTracker.Api.Admission
