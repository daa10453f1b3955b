import FxTracker.Lib.Expiring
import FxTracker.Lib.Lts
import Mathlib.Logic.Function.Basic

/-!
# Tickets

`TicketStore` of `fx_api/ws/tickets.py` and the handshake of `fx_api/routers/stream.py`, for any number of
replicas on one Redis, in milliseconds. The tokens of `secrets.token_urlsafe` do not repeat, and
`require_ws_ticket` is set. The handshake of a connection may fail after its `GETDEL`.

* `redeem` — the code's function, on the keys
* `single_use` — a ticket opens one session at most, while it is valid, in the name it was issued to
-/

namespace FxTracker.Api.Tickets

/-- A ticket that was issued, or a session it opened: the token, the subject, and when. -/
structure Entry where
  token : String
  subject : String
  time : Nat
  deriving DecidableEq

structure State where
  now : Nat
  /-- What Redis has under `wsticket:`. -/
  store : String → Expiring String
  /-- The tickets issued so far. -/
  issued : List Entry
  /-- The sessions opened so far. -/
  opened : List Entry

inductive Action
  | wait (ms : Nat)
  /-- `SET … EX` of a token just drawn. -/
  | issue (token subject : String)
  /-- A handshake with any token; `answered`: it does not fail after the `GETDEL`. -/
  | redeem (token : String) (answered : Bool)

def init : State := ⟨0, fun _ => none, [], []⟩

/-- `TicketStore.redeem`. -/
def redeem (s : State) (token : String) : (String → Expiring String) × Option String :=
  if token.isEmpty then (s.store, none)
  else
    (Function.update s.store token ((s.store token).take s.now).1, ((s.store token).take s.now).2)

/-- The sessions after a handshake; without a subject the socket is closed with `UNAUTHORISED`. -/
def welcome (s : State) (token : String) : Option String → Bool → List Entry
  | some subject, true => ⟨token, subject, s.now⟩ :: s.opened
  | _, _ => s.opened

def step (ttlMs : Nat) (s : State) : Action → Option State
  | .wait ms => some { s with now := s.now + ms }
  | .issue token subject =>
    if token ∈ s.issued.map Entry.token then none
    else some
      { s with
        store := Function.update s.store token (.set s.now ttlMs subject)
        issued := ⟨token, subject, s.now⟩ :: s.issued }
  | .redeem token answered =>
    some
      { s with
        store := (redeem s token).1
        opened := welcome s token (redeem s token).2 answered }

def lts (ttlMs : Nat) : Lts State Action := .ofFn init (step ttlMs)

variable {ttlMs : Nat} {s t : State} {a : Action}

/-! ## The invariant -/

/-- The ticket was issued to this subject, and the session falls into its time. -/
def Valid (ttlMs : Nat) (issued : List Entry) (session : Entry) : Prop :=
  ∃ ticket ∈ issued, ticket.token = session.token ∧ ticket.subject = session.subject ∧
    ticket.time ≤ session.time ∧ session.time ≤ ticket.time + ttlMs

structure Inv (ttlMs : Nat) (s : State) : Prop where
  nodup : (s.issued.map Entry.token).Nodup
  past : ∀ ticket ∈ s.issued, ticket.time ≤ s.now
  stored : ∀ token c, s.store token = some c →
    ∃ ticket ∈ s.issued, ticket.token = token ∧ c = ⟨ticket.subject, some (ticket.time + ttlMs)⟩
  once : (s.opened.map Entry.token).Nodup
  /-- What has opened a session is gone. -/
  spent : ∀ session ∈ s.opened, s.store session.token = none
  valid : ∀ session ∈ s.opened, Valid ttlMs s.issued session

theorem Valid.mono {issued : List Entry} {session : Entry} (h : Valid ttlMs issued session)
    (ticket : Entry) : Valid ttlMs (ticket :: issued) session := by
  obtain ⟨ticket', hmem, hrest⟩ := h
  exact ⟨ticket', List.mem_cons_of_mem _ hmem, hrest⟩

/-- **What a handshake does**: nothing, or it spends a ticket that is stored. -/
theorem redeem_cases (s : State) (token : String) :
    (∃ c, s.store token = some c ∧ c.live s.now = true ∧
      redeem s token = (Function.update s.store token none, some c.value)) ∨
    ((redeem s token).2 = none ∧
      ((redeem s token).1 = s.store ∨ (redeem s token).1 = Function.update s.store token none)) := by
  unfold redeem
  split
  · exact .inr ⟨rfl, .inl rfl⟩
  · dsimp only [Expiring.take]
    cases hread : (s.store token).read s.now with
    | none => exact .inr ⟨rfl, .inr rfl⟩
    | some subject =>
      obtain ⟨c, hkey, hlive, rfl⟩ := Expiring.read_eq_some.mp hread
      exact .inl ⟨c, hkey, hlive, rfl⟩

theorem inv_init (ttlMs : Nat) : Inv ttlMs init where
  nodup := .nil
  past _ h := nomatch h
  stored _ _ h := nomatch h
  once := .nil
  spent _ h := nomatch h
  valid _ h := nomatch h

theorem Inv.issue (hi : Inv ttlMs s) {token subject : String} (hfresh : token ∉ s.issued.map Entry.token) :
    Inv ttlMs
      { s with
        store := Function.update s.store token (.set s.now ttlMs subject)
        issued := ⟨token, subject, s.now⟩ :: s.issued } where
  nodup := List.nodup_cons.mpr ⟨hfresh, hi.nodup⟩
  past ticket hmem := by
    rcases List.mem_cons.mp hmem with rfl | hmem
    · exact Nat.le_refl _
    · exact hi.past ticket hmem
  stored token' c hc := by
    dsimp only at hc
    by_cases heq : token' = token
    · subst heq
      rw [Function.update_self] at hc
      cases hc
      exact ⟨_, List.mem_cons_self .., rfl, rfl⟩
    · rw [Function.update_of_ne heq] at hc
      obtain ⟨ticket, hmem, hrest⟩ := hi.stored token' c hc
      exact ⟨ticket, List.mem_cons_of_mem _ hmem, hrest⟩
  once := hi.once
  spent session hmem := by
    obtain ⟨ticket, hticket, htoken, -⟩ := hi.valid session hmem
    have hne : session.token ≠ token := by
      intro heq
      exact hfresh (List.mem_map.mpr ⟨ticket, hticket, htoken.trans heq⟩)
    dsimp only
    rw [Function.update_of_ne hne]
    exact hi.spent session hmem
  valid session hmem := (hi.valid session hmem).mono _

/-- A token that is deleted, without a session. -/
theorem Inv.delete (hi : Inv ttlMs s) (token : String) :
    Inv ttlMs { s with store := Function.update s.store token none } where
  nodup := hi.nodup
  past := hi.past
  stored token' c hc := by
    dsimp only at hc
    by_cases heq : token' = token
    · subst heq
      rw [Function.update_self] at hc
      cases hc
    · rw [Function.update_of_ne heq] at hc
      exact hi.stored token' c hc
  once := hi.once
  spent session hmem := by
    by_cases heq : session.token = token
    · dsimp only
      rw [heq, Function.update_self]
    · dsimp only
      rw [Function.update_of_ne heq]
      exact hi.spent session hmem
  valid := hi.valid

/-- **A session opens.** -/
theorem Inv.open (hi : Inv ttlMs s) {token : String} {c : Cell String} (hkey : s.store token = some c)
    (hlive : c.live s.now = true) :
    Inv ttlMs
      { s with
        store := Function.update s.store token none
        opened := ⟨token, c.value, s.now⟩ :: s.opened } := by
  have hdelete := hi.delete token
  obtain ⟨ticket, hticket, htoken, rfl⟩ := hi.stored token c hkey
  refine ⟨hi.nodup, hi.past, hdelete.stored, List.nodup_cons.mpr ⟨fun hmem => ?_, hi.once⟩,
    fun session hmem => ?_, fun session hmem => ?_⟩
  · obtain ⟨session, hsession, heq⟩ := List.mem_map.mp hmem
    have hgone := hi.spent session hsession
    rw [heq, hkey] at hgone
    cases hgone
  · rcases List.mem_cons.mp hmem with rfl | hmem
    · exact Function.update_self ..
    · exact hdelete.spent session hmem
  · rcases List.mem_cons.mp hmem with rfl | hmem
    · rw [Cell.live_timed] at hlive
      exact ⟨ticket, hticket, htoken, rfl, hi.past ticket hticket, hlive⟩
    · exact hi.valid session hmem

theorem Inv.step (hi : Inv ttlMs s) (h : step ttlMs s a = some t) : Inv ttlMs t := by
  cases a with
  | wait ms =>
    rw [Tickets.step, Option.some_inj] at h
    subst h
    exact ⟨hi.nodup, fun ticket hmem => Nat.le_trans (hi.past ticket hmem) (Nat.le_add_right ..),
      hi.stored, hi.once, hi.spent, hi.valid⟩
  | issue token subject =>
    rw [Tickets.step] at h
    split at h
    · cases h
    · next hfresh =>
      rw [Option.some_inj] at h
      subst h
      exact hi.issue hfresh
  | redeem token answered =>
    rw [Tickets.step, Option.some_inj] at h
    subst h
    rcases redeem_cases s token with ⟨c, hkey, hlive, heq⟩ | ⟨hnone, hstore | hstore⟩
    · rw [heq]
      cases answered with
      | true => exact hi.open hkey hlive
      | false => exact hi.delete token
    · rw [hnone, hstore]
      exact hi
    · rw [hnone, hstore]
      exact hi.delete token

theorem inv_of_reachable (h : (lts ttlMs).Reachable s) : Inv ttlMs s :=
  h.invariant (fun _ h0 => h0 ▸ inv_init ttlMs) fun _ _ _ hi hs => hi.step hs

/--
**Single use.**

Where issued tokens do not repeat and `require_ws_ticket` is set, whatever handshakes come at any replicas, with
any tokens: no token opens two sessions, and each session was opened with a ticket issued to its subject, no longer than `ttl_s` before.
-/
theorem single_use (ttlMs : Nat) {s : State} (h : (lts ttlMs).Reachable s) :
    (s.opened.map Entry.token).Nodup ∧
    ∀ session ∈ s.opened, ∃ ticket ∈ s.issued, ticket.token = session.token ∧
      ticket.subject = session.subject ∧ ticket.time ≤ session.time ∧
      session.time ≤ ticket.time + ttlMs :=
  ⟨(inv_of_reachable h).once, (inv_of_reachable h).valid⟩

/-- Two handshakes race for one ticket; another ticket comes too late. -/
def replay : List Action :=
  [.issue "a" "anonymous", .issue "b" "anonymous", .wait 30000, .redeem "a" true, .redeem "a" true,
    .wait 1, .redeem "b" true, .redeem "" true]

theorem single_use_replay :
    ∃ s, Lts.exec (step 30000) init replay = some s ∧ s.opened = [⟨"a", "anonymous", 30000⟩] ∧
      (s.opened.map Entry.token).Nodup :=
  ⟨_, rfl, rfl, (single_use 30000 (Lts.reachable_of_exec (show Lts.exec _ _ replay = _ from rfl))).1⟩

end FxTracker.Api.Tickets
