import FxTracker.Ingestor.Status
import FxTracker.Lib.Expiring
import FxTracker.Lib.Lts
import Mathlib.Data.Fintype.Basic
import Mathlib.Logic.Function.Basic

/-!
# What a readiness probe says of the feed

From `_publish_status` and the heartbeats of the ingestors over the key `feed:status` and its channel to `readyz`
of `fx_api/routers/health.py`, which takes a replica out of the load balancer. Times are in microseconds, on one
clock. A transaction that writes a status runs at any time after it was sent, more than once (its client sends it
again after a timeout) or never; two that an ingestor sent may run in either order. The answer to a `GET` may come
late, after newer messages, or not at all. Redis keeps the key for its TTL.

* `State`, `step` — the ingestors, the key, the replicas and their probes
* `ready_of_healthy` — what a replica that says it is ready has heard, on any run
* `ready_iff_healthy` — at a pace, a replica is ready exactly where the feed is healthy
-/

namespace FxTracker.Api.Readiness

open FxTracker.Ingestor.Status

/-- `TTL_STATUS_S`. -/
def statusTtl : Nat := 30000000

/-- What `checks["feed_state"]` shows. -/
inductive Shown
  | unknown
  | state (state : FeedState)
  | stale
  deriving DecidableEq, Repr

/-- The body of `readyz`, but for the number of clients, and its status code. -/
structure Checks where
  redis : Bool
  feedState : Shown
  feedAge : Option Int
  ready : Bool
  statusCode : Nat
  deriving DecidableEq, Repr

/-- `readyz`, once it has pinged Redis and has a feed status. `stale` is `feed_stale_after_s`. -/
def readyz (stale : Nat) (redis : Bool) (feed : Option FeedStatus) (now : Nat) : Checks :=
  let age := feed.map fun p => (now : Int) - p.ts
  let old := age.any fun age => (stale : Int) < age
  let ready := redis && feed.any (·.state = .healthy) && !old
  { redis
    feedState := if old then .stale else (feed.map (Shown.state ·.state)).getD .unknown
    feedAge := age
    ready
    statusCode := if ready then 200 else 503 }

/-- A `GET` of `refresh_feed_status` that has run and was not answered yet. -/
structure Look where
  /-- What the `PING` of the probe gave; `none` for the look of `start`. -/
  probe : Option Bool
  time : Nat
  feed : Option FeedStatus
  deriving DecidableEq, Repr

/-- A `ConnectionManager`. -/
structure Replica where
  /-- `feed_status`; `none` is one without a `ts`. -/
  feed : Option FeedStatus := none
  subscribed : Bool := false
  inbox : List FeedStatus := []
  looks : List Look := []
  deriving DecidableEq, Repr

/-- An answer of `readyz`, with what it was made from. -/
structure Answer where
  time : Nat
  redis : Bool
  feed : Option FeedStatus
  /-- When the `GET` ran; `none` where it failed. -/
  asked : Option Nat
  deriving DecidableEq, Repr

def Answer.checks (stale : Nat) (a : Answer) : Checks := readyz stale a.redis a.feed a.time

structure State (ι κ : Type) where
  now : Nat
  /-- What each ingestor had as `_last_status`, the newest first. -/
  trail : ι → List FeedStatus
  /-- The transactions sent that may run, again too. -/
  outgoing : List FeedStatus
  key : Expiring FeedStatus
  replica : κ → Replica
  /-- What the ingestors sent, what was written and when, and what was answered. Nothing in the code reads these. -/
  sent : List FeedStatus
  written : List (Nat × FeedStatus)
  answers : List Answer

inductive Action (ι κ : Type)
  | wait (us : Nat)
  | start (i : ι)
  | publish (i : ι) (state : FeedState) (detail : String)
  | heartbeat (i : ι)
  /-- The n-th of these runs. -/
  | run (n : Nat)
  /-- It will not run from now on. -/
  | lose (n : Nat)
  | subscribe (j : κ)
  | disconnect (j : κ)
  /-- `_dispatch` of the next message. -/
  | dispatch (j : κ)
  /-- The `GET` of a probe, or of `start`, runs. -/
  | look (j : κ) (probe : Option Bool)
  /-- The n-th look of a replica is answered, or fails. -/
  | reply (j : κ) (n : Nat)
  | fail (j : κ) (n : Nat)
  deriving DecidableEq

def State.init (ι κ : Type) : State ι κ := ⟨0, fun _ => [], [], none, fun _ => {}, [], [], []⟩

variable {ι κ : Type} [DecidableEq ι] [DecidableEq κ]

namespace State

/-- An ingestor sends its next status. -/
def send (s : State ι κ) (i : ι) (p : FeedStatus) : State ι κ :=
  { s with
    trail := Function.update s.trail i (p :: s.trail i)
    outgoing := s.outgoing ++ [p]
    sent := p :: s.sent }

/-- The `SET` and the `PUBLISH` of a transaction. -/
def run (s : State ι κ) (p : FeedStatus) : State ι κ :=
  { s with
    key := Expiring.set s.now statusTtl p
    replica := fun j =>
      let r := s.replica j
      if r.subscribed then { r with inbox := r.inbox ++ [p] } else r
    written := (s.now, p) :: s.written }

def setReplica (s : State ι κ) (j : κ) (r : Replica) : State ι κ :=
  { s with replica := Function.update s.replica j r }

/-- `readyz` answers from `feed`, if a probe asked. -/
def answer (s : State ι κ) (probe : Option Bool) (feed : Option FeedStatus) (asked : Option Nat) : State ι κ :=
  match probe with
  | some redis => { s with answers := ⟨s.now, redis, feed, asked⟩ :: s.answers }
  | none => s

end State

def step (provider : ι → String) (s : State ι κ) : Action ι κ → Option (State ι κ)
  | .wait us => some { s with now := s.now + us }
  | .start i =>
    if s.trail i = [] then
      some { s with trail := Function.update s.trail i [.starting (provider i) s.now] }
    else none
  | .publish i state detail =>
    (s.trail i).head?.map fun last => s.send i (publishStatus last (provider i) state detail s.now)
  | .heartbeat i => (s.trail i).head?.map fun last => s.send i (Ingestor.Status.heartbeat last s.now)
  | .run n => s.outgoing[n]?.map s.run
  | .lose n => if n < s.outgoing.length then some { s with outgoing := s.outgoing.eraseIdx n } else none
  | .subscribe j => some (s.setReplica j { s.replica j with subscribed := true })
  | .disconnect j => some (s.setReplica j { s.replica j with subscribed := false, inbox := [] })
  | .dispatch j =>
    match (s.replica j).inbox with
    | p :: rest => some (s.setReplica j { s.replica j with feed := some p, inbox := rest })
    | [] => none
  | .look j probe =>
    let r := s.replica j
    some (s.setReplica j { r with looks := r.looks ++ [⟨probe, s.now, s.key.read s.now⟩] })
  | .reply j n =>
    let r := s.replica j
    r.looks[n]?.map fun look =>
      (s.setReplica j { r with feed := look.feed, looks := r.looks.eraseIdx n }).answer look.probe look.feed
        (some look.time)
  | .fail j n =>
    let r := s.replica j
    r.looks[n]?.map fun look =>
      (s.setReplica j { r with looks := r.looks.eraseIdx n }).answer look.probe r.feed none

def lts (κ : Type) [DecidableEq κ] (provider : ι → String) : Lts (State ι κ) (Action ι κ) :=
  .ofFn (.init ι κ) (step provider)

variable {provider : ι → String} {s t : State ι κ} {i : ι} {j : κ} {p : FeedStatus} {r : Replica}

/-! ## Where a status comes from -/

/-- What a `GET` at `time` may give: a status that was written, and not longer ago than it is kept. -/
def Shows (written : List (Nat × FeedStatus)) (time : Nat) (feed : Option FeedStatus) : Prop :=
  ∀ p ∈ feed, ∃ wrote, (wrote, p) ∈ written ∧ wrote ≤ time ∧ time ≤ wrote + statusTtl

theorem Shows.cons {written : List (Nat × FeedStatus)} {time : Nat} {feed : Option FeedStatus}
    (h : Shows written time feed) (w : Nat × FeedStatus) : Shows (w :: written) time feed := by
  intro p hp
  obtain ⟨wrote, hmem, htimes⟩ := h p hp
  exact ⟨wrote, List.mem_cons_of_mem w hmem, htimes⟩

/-- What a replica holds was sent, and what it looked up was written. -/
structure Replica.Heard (now : Nat) (sent : List FeedStatus) (written : List (Nat × FeedStatus)) (r : Replica) :
    Prop where
  feed : ∀ p ∈ r.feed, p ∈ sent
  inbox : ∀ p ∈ r.inbox, p ∈ sent
  looks : ∀ look ∈ r.looks, look.time ≤ now ∧ Shows written look.time look.feed

/-- What an answer was made from. -/
structure Answer.Heard (now : Nat) (sent : List FeedStatus) (written : List (Nat × FeedStatus)) (a : Answer) :
    Prop where
  past : a.time ≤ now
  feed : ∀ p ∈ a.feed, p ∈ sent ∧ p.ts ≤ a.time
  asked : ∀ time ∈ a.asked, time ≤ a.time ∧ Shows written time a.feed

structure Sound (s : State ι κ) : Prop where
  trail : ∀ i, s.trail i ≠ [] → Trail (s.trail i)
  past : ∀ i, ∀ p ∈ s.trail i, p.ts ≤ s.now
  sent : ∀ p ∈ s.sent, ∃ i, p ∈ s.trail i
  outgoing : ∀ p ∈ s.outgoing, p ∈ s.sent
  written : ∀ w ∈ s.written, w.1 ≤ s.now ∧ w.2 ∈ s.sent
  key : s.key = s.written.head?.map fun w => ⟨w.2, some (w.1 + statusTtl)⟩
  replica : ∀ j, (s.replica j).Heard s.now s.sent s.written
  answers : ∀ a ∈ s.answers, a.Heard s.now s.sent s.written

/-- A replica goes on as it was while time passes, and more is sent and written. -/
theorem Replica.Heard.mono {now later : Nat} {sent sent' : List FeedStatus} {written written' : List (Nat × FeedStatus)}
    (h : r.Heard now sent written) (hnow : now ≤ later) (hsent : ∀ p ∈ sent, p ∈ sent')
    (hwritten : ∀ time feed, Shows written time feed → Shows written' time feed) : r.Heard later sent' written' where
  feed p hp := hsent p (h.feed p hp)
  inbox p hp := hsent p (h.inbox p hp)
  looks look hlook := ⟨Nat.le_trans (h.looks look hlook).1 hnow, hwritten _ _ (h.looks look hlook).2⟩

theorem Answer.Heard.mono {a : Answer} {now later : Nat} {sent sent' : List FeedStatus}
    {written written' : List (Nat × FeedStatus)} (h : a.Heard now sent written) (hnow : now ≤ later)
    (hsent : ∀ p ∈ sent, p ∈ sent') (hwritten : ∀ time feed, Shows written time feed → Shows written' time feed) :
    a.Heard later sent' written' where
  past := Nat.le_trans h.past hnow
  feed p hp := ⟨hsent p (h.feed p hp).1, (h.feed p hp).2⟩
  asked time htime := ⟨(h.asked time htime).1, hwritten _ _ (h.asked time htime).2⟩

omit [DecidableEq ι] [DecidableEq κ] in
theorem sound_init : Sound (State.init ι κ) where
  trail _ h := absurd rfl h
  past _ _ h := by cases h
  sent _ h := by cases h
  outgoing _ h := by cases h
  written _ h := by cases h
  key := rfl
  replica _ := ⟨fun _ h => (by cases h), fun _ h => (by cases h), fun _ h => (by cases h)⟩
  answers _ h := by cases h

omit [DecidableEq ι] [DecidableEq κ] in
theorem Sound.wait (h : Sound s) (us : Nat) : Sound { s with now := s.now + us } :=
  have hle : s.now ≤ s.now + us := Nat.le_add_right ..
  { h with
    past := fun i p hp => Nat.le_trans (h.past i p hp) hle
    written := fun w hw => ⟨Nat.le_trans (h.written w hw).1 hle, (h.written w hw).2⟩
    replica := fun j => (h.replica j).mono hle (fun _ hp => hp) (fun _ _ hshows => hshows)
    answers := fun a ha => (h.answers a ha).mono hle (fun _ hp => hp) (fun _ _ hshows => hshows) }

omit [DecidableEq κ] in
theorem Sound.start (h : Sound s) (hnew : s.trail i = []) (name : String) :
    Sound { s with trail := Function.update s.trail i [.starting name s.now] } :=
  { h with
    trail := by
      intro k hk
      dsimp only at hk ⊢
      by_cases hki : k = i
      · subst hki
        rw [Function.update_self]
        exact rfl
      · rw [Function.update_of_ne hki] at hk ⊢
        exact h.trail k hk
    past := by
      intro k p hp
      dsimp only at hp ⊢
      by_cases hki : k = i
      · subst hki
        rw [Function.update_self] at hp
        obtain rfl := List.mem_singleton.mp hp
        exact Nat.le_refl _
      · rw [Function.update_of_ne hki] at hp
        exact h.past k p hp
    sent := by
      intro p hp
      obtain ⟨k, hk⟩ := h.sent p hp
      have hki : k ≠ i := by
        rintro rfl
        rw [hnew] at hk
        cases hk
      refine ⟨k, ?_⟩
      dsimp only
      rwa [Function.update_of_ne hki] }

omit [DecidableEq κ] in
theorem Sound.send (h : Sound s) {last : FeedStatus} (hlast : s.trail i = last :: (s.trail i).tail)
    (hnext : Next last p) (hts : p.ts = s.now) : Sound (s.send i p) :=
  have hsent : ∀ q ∈ s.sent, q ∈ p :: s.sent := fun q hq => List.mem_cons_of_mem p hq
  { trail := by
      intro k hk
      simp only [State.send] at hk ⊢
      by_cases hki : k = i
      · subst hki
        rw [Function.update_self, hlast]
        refine Trail.cons ?_ hnext
        rw [← hlast]
        exact h.trail k (by rw [hlast]; simp)
      · rw [Function.update_of_ne hki] at hk ⊢
        exact h.trail k hk
    past := by
      intro k q hq
      simp only [State.send] at hq ⊢
      by_cases hki : k = i
      · subst hki
        rw [Function.update_self] at hq
        rcases List.mem_cons.mp hq with rfl | hq
        · exact Nat.le_of_eq hts
        · exact h.past k q hq
      · rw [Function.update_of_ne hki] at hq
        exact h.past k q hq
    sent := by
      intro q hq
      simp only [State.send] at hq ⊢
      rcases List.mem_cons.mp hq with rfl | hq
      · exact ⟨i, by simp⟩
      · obtain ⟨k, hk⟩ := h.sent q hq
        refine ⟨k, ?_⟩
        by_cases hki : k = i
        · subst hki
          rw [Function.update_self]
          exact List.mem_cons_of_mem _ hk
        · rwa [Function.update_of_ne hki]
    outgoing := by
      intro q hq
      simp only [State.send, List.mem_append, List.mem_singleton] at hq ⊢
      rcases hq with hq | rfl
      · exact hsent q (h.outgoing q hq)
      · exact List.mem_cons_self ..
    written := fun w hw => ⟨(h.written w hw).1, hsent _ (h.written w hw).2⟩
    key := h.key
    replica := fun k => (h.replica k).mono (Nat.le_refl _) hsent (fun _ _ hshows => hshows)
    answers := fun a ha => (h.answers a ha).mono (Nat.le_refl _) hsent (fun _ _ hshows => hshows) }

omit [DecidableEq ι] [DecidableEq κ] in
theorem Sound.run (h : Sound s) {n : Nat} (hp : s.outgoing[n]? = some p) : Sound (s.run p) :=
  have hsent : p ∈ s.sent := h.outgoing p (List.mem_of_getElem? hp)
  { h with
    written := by
      intro w hw
      rcases List.mem_cons.mp hw with rfl | hw
      · exact ⟨Nat.le_refl _, hsent⟩
      · exact h.written w hw
    key := rfl
    replica := by
      intro k
      have hk := (h.replica k).mono (Nat.le_refl s.now) (fun _ hq => hq)
        (fun _ _ hshows => Shows.cons hshows (s.now, p))
      simp only [State.run]
      split
      · refine { hk with inbox := ?_ }
        intro q hq
        simp only [List.mem_append, List.mem_singleton] at hq
        rcases hq with hq | rfl
        · exact hk.inbox q hq
        · exact hsent
      · exact hk
    answers := fun a ha => (h.answers a ha).mono (Nat.le_refl _) (fun _ hq => hq)
      (fun _ _ hshows => hshows.cons _) }

omit [DecidableEq ι] in
theorem Sound.setReplica (h : Sound s) (hr : r.Heard s.now s.sent s.written) : Sound (s.setReplica j r) :=
  { h with
    replica := by
      intro k
      simp only [State.setReplica]
      by_cases hkj : k = j
      · subst hkj
        rw [Function.update_self]
        exact hr
      · rw [Function.update_of_ne hkj]
        exact h.replica k }

omit [DecidableEq ι] [DecidableEq κ] in
theorem Sound.answer (h : Sound s) (probe : Option Bool) {feed : Option FeedStatus} {asked : Option Nat}
    (hfeed : ∀ p ∈ feed, p ∈ s.sent) (hasked : ∀ time ∈ asked, time ≤ s.now ∧ Shows s.written time feed) :
    Sound (s.answer probe feed asked) := by
  unfold State.answer
  split
  · refine { h with answers := ?_ }
    intro a ha
    rcases List.mem_cons.mp ha with rfl | ha
    · refine ⟨Nat.le_refl _, ?_, hasked⟩
      intro p hp
      obtain ⟨i, hi⟩ := h.sent p (hfeed p hp)
      exact ⟨hfeed p hp, h.past i p hi⟩
    · exact h.answers a ha
  · exact h

omit [DecidableEq ι] [DecidableEq κ] in
/-- A `GET` shows what was written last. -/
theorem Sound.read (h : Sound s) : Shows s.written s.now (s.key.read s.now) := by
  intro p hp
  rw [h.key] at hp
  cases hwritten : s.written with
  | nil => rw [hwritten] at hp; cases hp
  | cons w older =>
    rw [hwritten] at hp
    simp only [List.head?_cons, Option.map_some, Expiring.read_timed] at hp
    split at hp
    · next hlive =>
      cases hp
      exact ⟨w.1, List.mem_cons_self .., (h.written w (by rw [hwritten]; exact List.mem_cons_self ..)).1, hlive⟩
    · cases hp

/-- **One step.** -/
theorem Sound.step (h : Sound s) {a : Action ι κ} (hs : step provider s a = some t) : Sound t := by
  cases a with
  | wait us =>
    cases hs
    exact h.wait us
  | start i =>
    simp only [Readiness.step] at hs
    split at hs
    · next hnew =>
      cases hs
      exact h.start hnew _
    · cases hs
  | publish i state detail =>
    obtain ⟨last, hlast, rfl⟩ := Option.map_eq_some_iff.mp hs
    obtain ⟨older, htrail⟩ := List.head?_eq_some_iff.mp hlast
    have hpast := h.past i last (by rw [htrail]; exact List.mem_cons_self ..)
    exact h.send (by rw [htrail]; rfl) (next_publishStatus hpast ..) rfl
  | heartbeat i =>
    obtain ⟨last, hlast, rfl⟩ := Option.map_eq_some_iff.mp hs
    obtain ⟨older, htrail⟩ := List.head?_eq_some_iff.mp hlast
    have hpast := h.past i last (by rw [htrail]; exact List.mem_cons_self ..)
    exact h.send (by rw [htrail]; rfl) (next_heartbeat hpast) rfl
  | run n =>
    obtain ⟨p, hp, rfl⟩ := Option.map_eq_some_iff.mp hs
    exact h.run hp
  | lose n =>
    simp only [Readiness.step] at hs
    split at hs
    · cases hs
      exact { h with outgoing := fun p hp => h.outgoing p (List.mem_of_mem_eraseIdx hp) }
    · cases hs
  | subscribe j =>
    cases hs
    exact h.setReplica ⟨(h.replica j).feed, (h.replica j).inbox, (h.replica j).looks⟩
  | disconnect j =>
    cases hs
    exact h.setReplica ⟨(h.replica j).feed, fun _ hp => (by cases hp), (h.replica j).looks⟩
  | dispatch j =>
    simp only [Readiness.step] at hs
    split at hs
    · next p rest hinbox =>
      cases hs
      have hall := (h.replica j).inbox
      rw [hinbox] at hall
      refine h.setReplica ⟨?_, fun q hq => hall q (List.mem_cons_of_mem p hq), (h.replica j).looks⟩
      rintro _ ⟨⟩
      exact hall p (List.mem_cons_self ..)
    · cases hs
  | look j probe =>
    cases hs
    refine h.setReplica ⟨(h.replica j).feed, (h.replica j).inbox, ?_⟩
    intro look hlook
    simp only [List.mem_append, List.mem_singleton] at hlook
    rcases hlook with hlook | rfl
    · exact (h.replica j).looks look hlook
    · exact ⟨Nat.le_refl _, h.read⟩
  | reply j n =>
    obtain ⟨look, hlook, rfl⟩ := Option.map_eq_some_iff.mp hs
    obtain ⟨hpast, hshows⟩ := (h.replica j).looks look (List.mem_of_getElem? hlook)
    have hfeed : ∀ p ∈ look.feed, p ∈ s.sent := by
      intro p hp
      obtain ⟨wrote, hmem, -⟩ := hshows p hp
      exact (h.written _ hmem).2
    refine Sound.answer (h.setReplica ?_) _ hfeed ?_
    · exact ⟨hfeed, (h.replica j).inbox, fun q hq => (h.replica j).looks q (List.mem_of_mem_eraseIdx hq)⟩
    · rintro _ ⟨⟩
      exact ⟨hpast, hshows⟩
  | fail j n =>
    obtain ⟨look, hlook, rfl⟩ := Option.map_eq_some_iff.mp hs
    have hr := h.replica j
    refine Sound.answer (h.setReplica ?_) _ hr.feed (fun _ htime => by cases htime)
    exact ⟨hr.feed, hr.inbox, fun q hq => hr.looks q (List.mem_of_mem_eraseIdx hq)⟩

theorem sound_of_reachable (h : (lts κ provider).Reachable s) : Sound s := by
  refine h.invariant ?_ ?_
  · rintro _ rfl
    exact sound_init
  · exact fun _ _ _ hsound hstep => hsound.step hstep

/-- What a ready answer was made from. -/
theorem ready_iff {stale : Nat} {a : Answer} :
    (a.checks stale).ready = true ↔
      a.redis = true ∧ ∃ p, a.feed = some p ∧ p.state = .healthy ∧ a.time ≤ p.ts + stale := by
  unfold Answer.checks readyz
  cases hfeed : a.feed with
  | none => simp
  | some p =>
    have hage : (stale : Int) < a.time - p.ts ↔ ¬ a.time ≤ p.ts + stale := by omega
    simp only [Option.map_some, Option.any_some, Bool.and_eq_true, Bool.not_eq_true', decide_eq_false_iff_not,
      decide_eq_true_eq, hage, not_not, and_assoc]
    constructor
    · exact fun ⟨hredis, hhealthy, hfresh⟩ => ⟨hredis, p, rfl, hhealthy, hfresh⟩
    · rintro ⟨hredis, _, ⟨⟩, hhealthy, hfresh⟩
      exact ⟨hredis, hhealthy, hfresh⟩

/-- The first quote of an ingestor comes after a second, and a replica is probed half a minute later. -/
def sampleProbe : List (Action Bool Unit) :=
  [.start false, .publish false .connecting "waiting for the first quote", .wait 1000000, .run 0,
      .lose 0, .publish false .healthy ""] ++
    (List.replicate 5 [.wait 500000, .run 0, .lose 0, .wait 4500000, .heartbeat false]).flatten ++
      [.look () (some true), .wait 200000, .reply () 0]

/-- The answer at the end of `sampleProbe`. -/
def sampleAnswer : Answer where
  time := 26200000
  redis := true
  feed := some ⟨.healthy, "", "tiingo", 21000000, 1000000⟩
  asked := some 26000000

/-- How late things may be: a transaction runs only within `delay`, one runs every `gap` from the start on, and
a `GET` is answered within `answer`. -/
structure Pace (stale : Nat) where
  delay : Nat
  gap : Nat
  answer : Nat
  kept : gap ≤ statusTtl
  fresh : delay + gap + answer ≤ stale

/-- When a status was written last. -/
def State.wrote (s : State ι κ) : Nat := (s.written.head?.map Prod.fst).getD 0

variable {stale : Nat} {pace : Pace stale}

/-- Time passes no further than the pace allows. -/
def OnTime (pace : Pace stale) (s : State ι κ) : Action ι κ → Prop
  | .wait us =>
    (∀ p ∈ s.outgoing, s.now + us ≤ p.ts + pace.delay) ∧ s.now + us ≤ s.wrote + pace.gap ∧
      ∀ j, ∀ look ∈ (s.replica j).looks, s.now + us ≤ look.time + pace.answer
  | _ => True

instance [Fintype κ] (pace : Pace stale) (s : State ι κ) : (a : Action ι κ) → Decidable (OnTime pace s a)
  | .wait us =>
    inferInstanceAs (Decidable ((∀ p ∈ s.outgoing, s.now + us ≤ p.ts + pace.delay) ∧
      s.now + us ≤ s.wrote + pace.gap ∧
        ∀ j, ∀ look ∈ (s.replica j).looks, s.now + us ≤ look.time + pace.answer))
  | .start _ | .publish .. | .heartbeat _ | .run _ | .lose _ | .subscribe _ | .disconnect _ | .dispatch _ | .look ..
  | .reply .. | .fail .. => isTrue trivial

/-- What a `GET` at `time` gives at a pace: a status that was confirmed lately, or none before the first. -/
def Recent (pace : Pace stale) (sent : List FeedStatus) (time : Nat) (feed : Option FeedStatus) : Prop :=
  match feed with
  | none => time ≤ pace.gap
  | some p => p ∈ sent ∧ p.ts ≤ time ∧ time ≤ p.ts + pace.delay + pace.gap

omit [DecidableEq ι] [DecidableEq κ] in
theorem Recent.mono {sent sent' : List FeedStatus} {time : Nat} {feed : Option FeedStatus}
    (h : Recent pace sent time feed) (hsent : ∀ p ∈ sent, p ∈ sent') : Recent pace sent' time feed := by
  cases feed with
  | none => exact h
  | some p => exact ⟨hsent p h.1, h.2⟩

structure Punctual (pace : Pace stale) (s : State ι κ) : Prop where
  outgoing : ∀ p ∈ s.outgoing, p.ts ≤ s.now ∧ s.now ≤ p.ts + pace.delay
  written : ∀ w ∈ s.written, w.2.ts ≤ w.1 ∧ w.1 ≤ w.2.ts + pace.delay
  wrote : s.wrote ≤ s.now ∧ s.now ≤ s.wrote + pace.gap
  looks : ∀ j, ∀ look ∈ (s.replica j).looks,
    s.now ≤ look.time + pace.answer ∧ Recent pace s.sent look.time look.feed
  answers : ∀ a ∈ s.answers, ∀ time ∈ a.asked, a.time ≤ time + pace.answer ∧ Recent pace s.sent time a.feed

omit [DecidableEq ι] [DecidableEq κ] in
theorem punctual_init (pace : Pace stale) : Punctual pace (State.init ι κ) where
  outgoing _ h := by cases h
  written _ h := by cases h
  wrote := ⟨Nat.le_refl 0, Nat.zero_le _⟩
  looks _ _ h := by cases h
  answers _ h := by cases h

omit [DecidableEq κ] in
theorem Punctual.send (h : Punctual pace s) (hts : p.ts = s.now) : Punctual pace (s.send i p) :=
  have hsent : ∀ q ∈ s.sent, q ∈ p :: s.sent := fun q hq => List.mem_cons_of_mem p hq
  { outgoing := by
      intro q hq
      simp only [State.send, List.mem_append, List.mem_singleton] at hq ⊢
      rcases hq with hq | rfl
      · exact h.outgoing q hq
      · omega
    written := h.written
    wrote := h.wrote
    looks := fun k look hlook => ⟨(h.looks k look hlook).1, (h.looks k look hlook).2.mono hsent⟩
    answers := fun a ha time htime => ⟨(h.answers a ha time htime).1, (h.answers a ha time htime).2.mono hsent⟩ }

omit [DecidableEq ι] [DecidableEq κ] in
theorem Punctual.run (h : Punctual pace s) {n : Nat} (hp : s.outgoing[n]? = some p) : Punctual pace (s.run p) :=
  { h with
    written := by
      intro w hw
      rcases List.mem_cons.mp hw with rfl | hw
      · exact h.outgoing p (List.mem_of_getElem? hp)
      · exact h.written w hw
    wrote := ⟨Nat.le_refl _, Nat.le_add_right ..⟩
    looks := by
      intro k look hlook
      refine h.looks k look ?_
      simp only [State.run] at hlook
      split at hlook <;> exact hlook }

omit [DecidableEq ι] in
theorem Punctual.setReplica (h : Punctual pace s)
    (hr : ∀ look ∈ r.looks, s.now ≤ look.time + pace.answer ∧ Recent pace s.sent look.time look.feed) :
    Punctual pace (s.setReplica j r) :=
  { h with
    looks := by
      intro k look hlook
      simp only [State.setReplica] at hlook
      by_cases hkj : k = j
      · subst hkj
        rw [Function.update_self] at hlook
        exact hr look hlook
      · rw [Function.update_of_ne hkj] at hlook
        exact h.looks k look hlook }

omit [DecidableEq ι] [DecidableEq κ] in
theorem Punctual.answer (h : Punctual pace s) (probe : Option Bool) {feed : Option FeedStatus} {asked : Option Nat}
    (hasked : ∀ time ∈ asked, s.now ≤ time + pace.answer ∧ Recent pace s.sent time feed) :
    Punctual pace (s.answer probe feed asked) := by
  unfold State.answer
  split
  · refine { h with answers := ?_ }
    intro a ha
    rcases List.mem_cons.mp ha with rfl | ha
    · exact hasked
    · exact h.answers a ha
  · exact h

omit [DecidableEq ι] [DecidableEq κ] in
/-- At a pace the key is never gone, and shows a status that was confirmed lately. -/
theorem Punctual.read (h : Punctual pace s) (hsound : Sound s) :
    Recent pace s.sent s.now (s.key.read s.now) := by
  obtain ⟨hwrote, hgap⟩ := h.wrote
  rw [hsound.key]
  cases hwritten : s.written with
  | nil => simpa [State.wrote, hwritten, Recent] using hgap
  | cons w older =>
    have hw : w ∈ s.written := by rw [hwritten]; exact List.mem_cons_self ..
    have htimes := h.written w hw
    have hkept := pace.kept
    rw [State.wrote, hwritten] at hwrote hgap
    simp only [List.head?_cons, Option.map_some, Option.getD_some] at hwrote hgap
    simp only [List.head?_cons, Option.map_some, Expiring.read_timed]
    rw [if_pos (by omega)]
    exact ⟨(hsound.written w hw).2, by omega, by omega⟩

/-- **One step.** -/
theorem Punctual.step (h : Punctual pace s) (hsound : Sound s) {a : Action ι κ} (hok : OnTime pace s a)
    (hs : step provider s a = some t) : Punctual pace t := by
  cases a with
  | wait us =>
    cases hs
    obtain ⟨houtgoing, hgap, hlooks⟩ := hok
    exact
      { outgoing := fun p hp => ⟨Nat.le_trans (h.outgoing p hp).1 (Nat.le_add_right ..), houtgoing p hp⟩
        written := h.written
        wrote := ⟨Nat.le_trans h.wrote.1 (Nat.le_add_right ..), hgap⟩
        looks := fun j look hlook => ⟨hlooks j look hlook, (h.looks j look hlook).2⟩
        answers := h.answers }
  | start i =>
    simp only [Readiness.step] at hs
    split at hs
    · cases hs
      exact { h with }
    · cases hs
  | publish i state detail =>
    obtain ⟨last, -, rfl⟩ := Option.map_eq_some_iff.mp hs
    exact h.send rfl
  | heartbeat i =>
    obtain ⟨last, -, rfl⟩ := Option.map_eq_some_iff.mp hs
    exact h.send rfl
  | run n =>
    obtain ⟨p, hp, rfl⟩ := Option.map_eq_some_iff.mp hs
    exact h.run hp
  | lose n =>
    simp only [Readiness.step] at hs
    split at hs
    · cases hs
      exact { h with outgoing := fun p hp => h.outgoing p (List.mem_of_mem_eraseIdx hp) }
    · cases hs
  | subscribe j =>
    cases hs
    exact h.setReplica (h.looks j)
  | disconnect j =>
    cases hs
    exact h.setReplica (h.looks j)
  | dispatch j =>
    simp only [Readiness.step] at hs
    split at hs
    · cases hs
      exact h.setReplica (h.looks j)
    · cases hs
  | look j probe =>
    cases hs
    refine h.setReplica ?_
    intro look hlook
    simp only [List.mem_append, List.mem_singleton] at hlook
    rcases hlook with hlook | rfl
    · exact h.looks j look hlook
    · exact ⟨Nat.le_add_right .., h.read hsound⟩
  | reply j n =>
    obtain ⟨look, hlook, rfl⟩ := Option.map_eq_some_iff.mp hs
    have hlooked := h.looks j look (List.mem_of_getElem? hlook)
    refine Punctual.answer (h.setReplica ?_) _ ?_
    · exact fun q hq => h.looks j q (List.mem_of_mem_eraseIdx hq)
    · rintro _ ⟨⟩
      exact hlooked
  | fail j n =>
    obtain ⟨look, hlook, rfl⟩ := Option.map_eq_some_iff.mp hs
    refine Punctual.answer (h.setReplica ?_) _ (fun _ htime => by cases htime)
    exact fun q hq => h.looks j q (List.mem_of_mem_eraseIdx hq)

theorem punctual_of_reachable (h : ((lts κ provider).guard (OnTime pace)).Reachable s) :
    Sound s ∧ Punctual pace s := by
  refine h.invariant (I := fun s => Sound s ∧ Punctual pace s) ?_ ?_
  · rintro _ rfl
    exact ⟨sound_init, punctual_init pace⟩
  · rintro s a t ⟨hsound, hpunctual⟩ ⟨hstep, hok⟩
    exact ⟨hsound.step hstep, hpunctual.step hsound hok hstep⟩

/--
**A replica is ready exactly where the feed is healthy.**

At a pace, of a probe whose `PING` and `GET` were answered: where every status that the ingestors sent from some time
on, up to the `GET`, says that the feed is healthy, and the `GET` came a `delay` and a `gap` after that time, the
answer is that the replica is ready. Where each of them says that it is not, so does the answer.
-/
theorem ready_iff_healthy (h : ((lts κ provider).guard (OnTime pace)).Reachable s) {a : Answer} (ha : a ∈ s.answers)
    (hredis : a.redis = true) {time : Nat} (hasked : a.asked = some time) {since : Nat}
    (hlong : since + pace.delay + pace.gap < time) {healthy : Prop}
    (hsent : ∀ p ∈ s.sent, since ≤ p.ts → p.ts ≤ time → (p.state = .healthy ↔ healthy)) :
    (a.checks stale).ready = true ↔ healthy := by
  obtain ⟨-, hpunctual⟩ := punctual_of_reachable h
  obtain ⟨hanswered, hrecent⟩ := hpunctual.answers a ha time hasked
  have hfresh := pace.fresh
  rw [ready_iff]
  cases hfeed : a.feed with
  | none =>
    rw [hfeed] at hrecent
    simp only [Recent] at hrecent
    omega
  | some p =>
    rw [hfeed] at hrecent
    obtain ⟨hmem, hts, hlately⟩ := hrecent
    rw [← hsent p hmem (by omega) hts]
    constructor
    · rintro ⟨-, _, ⟨⟩, hstate, -⟩
      exact hstate
    · exact fun hstate => ⟨hredis, p, rfl, hstate, by omega⟩

/-- A transaction runs within a second, one every six seconds, and a `GET` is answered within a second. -/
def samplePace : Pace 60000000 := ⟨1000000, 6000000, 1000000, by decide, by decide⟩

theorem ready_iff_healthy_sampleProbe :
    ∃ s, Lts.exec (step fun _ : Bool => "tiingo") (.init Bool Unit) sampleProbe = some s ∧ sampleAnswer ∈ s.answers ∧
      ((sampleAnswer.checks 60000000).ready = true ↔ True) := by
  obtain ⟨s, hs⟩ : ∃ s, Lts.exec (step fun _ : Bool => "tiingo") (.init Bool Unit) sampleProbe = some s := ⟨_, rfl⟩
  have hparts : (Lts.exec (step fun _ : Bool => "tiingo") (.init Bool Unit) sampleProbe).map
      (fun s => (s.answers, s.sent.all fun p => p.ts < 1000000 || p.state = .healthy)) =
        some ([sampleAnswer], true) := rfl
  rw [hs, Option.map_some, Option.some.injEq, Prod.mk.injEq] at hparts
  have ha : sampleAnswer ∈ s.answers := by rw [hparts.1]; exact List.mem_singleton_self _
  have hmeets : Lts.Meets (step fun _ : Bool => "tiingo") (OnTime samplePace) (.init Bool Unit) sampleProbe := by
    decide +kernel
  have hreach := Lts.reachable_of_meets (.init rfl) hmeets hs
  have hlong : 1000000 + samplePace.delay + samplePace.gap < 26000000 := by decide
  refine ⟨s, hs, ha, ready_iff_healthy hreach ha rfl rfl hlong ?_⟩
  intro p hp hsince _
  have hall := List.all_eq_true.mp hparts.2 p hp
  simp only [Bool.or_eq_true, decide_eq_true_eq] at hall
  rcases hall with hbefore | hhealthy
  · omega
  · exact iff_true_intro hhealthy

end FxTracker.Api.Readiness
