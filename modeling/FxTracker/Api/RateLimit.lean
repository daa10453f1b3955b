import FxTracker.Lib.Expiring
import FxTracker.Lib.FixedWindow
import FxTracker.Lib.Lts

/-!
# The rate limiter

`hit` of `fx_api/ratelimit.py`, for one bucket and client: any number of requests at any replicas count in
one key. `INCR` and `TTL` run as one transaction; the `EXPIRE` of a request that began the window, or found
it without an end, comes later, and gets lost where its process ends. Times are in milliseconds. Nothing
else deletes the key.

* `Inv` — the key is the window that is open
* `window_bound` — in any window's length of time fewer than twice the limit are admitted
* `never_locked_out` — a window ends, whatever became of the windows before it
-/

namespace FxTracker.Api.RateLimit

structure Verdict where
  allowed : Bool
  remaining : Int
  retryAfterS : Int
  deriving DecidableEq

/-- The request is to set the end of the window. -/
def needsExpire (count : Nat) (ttl : Int) : Bool := count = 1 || decide (ttl < 0)

/-- What `hit` returns. -/
def verdict (limit count : Nat) (ttl : Int) : Verdict :=
  if limit < count then ⟨false, 0, max ttl 1⟩ else ⟨true, limit - count, max ttl 1⟩

theorem verdict_allowed {limit count : Nat} {ttl : Int} :
    (verdict limit count ttl).allowed = true ↔ count ≤ limit := by
  unfold verdict
  split
  · next hlt => simp [Nat.not_le.mpr hlt]
  · next hnot => simp [Nat.not_lt.mp hnot]

structure State where
  now : Nat
  key : Expiring Nat
  /-- The requests whose `EXPIRE` is still to run, by the time of their transaction. -/
  arming : List Nat
  /-- The requests counted so far, the newest first. Nothing in the code reads it. -/
  log : List Counted

inductive Action
  | wait (ms : Nat)
  /-- The transaction of a request. -/
  | hit
  /-- The `EXPIRE` of a request. -/
  | arm (time : Nat)
  /-- A request ends before its `EXPIRE`. -/
  | lose (time : Nat)

def init : State := ⟨0, none, [], []⟩

/-- When the window began that a request at this time counts in. -/
def State.born (s : State) : Nat :=
  match s.key.read s.now, s.log with
  | some _, newest :: _ => newest.born
  | _, _ => s.now

/-- `INCR` and `TTL`. -/
def State.count (s : State) : Nat × Int :=
  let key := s.key.incr s.now
  ((key.read s.now).getD 0, key.ttlS s.now)

def step (windowMs : Nat) (s : State) : Action → Option State
  | .wait ms => some { s with now := s.now + ms }
  | .hit => some
      { s with
        key := s.key.incr s.now
        arming := if needsExpire s.count.1 s.count.2 then s.now :: s.arming else s.arming
        log := ⟨s.now, s.count.1, s.born⟩ :: s.log }
  | .arm time =>
    if time ∈ s.arming then
      some { s with key := s.key.expire s.now windowMs, arming := s.arming.erase time }
    else none
  | .lose time => if time ∈ s.arming then some { s with arming := s.arming.erase time } else none

def lts (windowMs : Nat) : Lts State Action := .ofFn init (step windowMs)

variable {windowMs limit start : Nat} {s t s₁ : State} {a : Action}

/-! ## The window that is open -/

/-- The key counts the window of the newest request, and lasts beyond it. -/
def Open (windowMs : Nat) (s : State) : Prop :=
  match s.log with
  | [] => s.key = none
  | newest :: _ => ∃ deadline, s.key = some ⟨newest.count, deadline⟩ ∧
      ∀ x ∈ deadline, newest.born + windowMs ≤ x ∧ newest.time ≤ x

structure Inv (windowMs : Nat) (s : State) : Prop where
  windows : FixedWindows windowMs s.log
  opened : Open windowMs s
  past : ∀ e ∈ s.log, e.time ≤ s.now
  armed : ∀ time ∈ s.arming, time ≤ s.now

/-- **The ways a request is counted**: in the open window, or as the first of a new one. -/
theorem hit_cases (hi : Inv windowMs s) :
    (∃ newest rest deadline, s.log = newest :: rest ∧ s.key = some ⟨newest.count, deadline⟩ ∧
      s.key.read s.now = some newest.count ∧ s.count.1 = newest.count + 1 ∧ s.born = newest.born ∧
      s.key.incr s.now = some ⟨newest.count + 1, deadline⟩ ∧
      (needsExpire s.count.1 s.count.2 = true ↔ deadline = none)) ∨
    (s.key.read s.now = none ∧ s.count.1 = 1 ∧ s.born = s.now ∧ s.key.incr s.now = some ⟨1, none⟩ ∧
      needsExpire s.count.1 s.count.2 = true) := by
  rcases Expiring.incr_cases s.now s.key with ⟨c, hkey, hlive, hincr⟩ | ⟨hread, hincr⟩
  · have hopen := hi.opened
    unfold Open at hopen
    split at hopen
    · rw [hkey] at hopen
      cases hopen
    · next newest rest hlog =>
      obtain ⟨deadline, heq, -⟩ := hopen
      rw [heq] at hkey
      cases hkey
      have hread : s.key.read s.now = some newest.count :=
        Expiring.read_eq_some.mpr ⟨_, heq, hlive, rfl⟩
      have hlive' : Cell.live s.now ⟨newest.count + 1, deadline⟩ = true := hlive
      have hcount : s.count.1 = newest.count + 1 := by
        rw [State.count, hincr]
        simp only [Expiring.read_some, if_pos hlive', Option.getD_some]
      refine .inl ⟨newest, rest, deadline, hlog, heq, hread, hcount, ?_, hincr, ?_⟩
      · rw [State.born, hread, hlog]
      · have hne : newest.count + 1 ≠ 1 := by
          have := hi.windows.numbered newest (by rw [hlog]; exact List.mem_cons_self ..)
          omega
        have httl : s.count.2 < 0 ↔ deadline = none := by
          rw [State.count, hincr]
          exact Expiring.ttlS_neg_iff hlive'
        rw [needsExpire, hcount]
        simp only [hne, decide_false, Bool.false_or, decide_eq_true_eq]
        exact httl
  · have hcount : s.count.1 = 1 := by
      rw [State.count, hincr]
      rfl
    refine .inr ⟨hread, hcount, ?_, hincr, ?_⟩
    · rw [State.born, hread]
    · rw [needsExpire, hcount]
      rfl

theorem inv_init (windowMs : Nat) : Inv windowMs init where
  windows := .nil windowMs
  opened := rfl
  past _ he := nomatch he
  armed _ ht := nomatch ht

/-- A key that has expired was a whole window's. -/
theorem Inv.window_over (hi : Inv windowMs s) (hread : s.key.read s.now = none) :
    ∀ e ∈ s.log, e.born + windowMs < s.now ∧ e.time ≤ s.now := by
  intro e he
  refine ⟨?_, hi.past e he⟩
  have hopen := hi.opened
  unfold Open at hopen
  split at hopen
  · next hlog =>
    rw [hlog] at he
    cases he
  · next newest rest hlog =>
    obtain ⟨deadline, hkey, hend⟩ := hopen
    have hnewest : newest.born + windowMs < s.now := by
      cases deadline with
      | none =>
        rw [hkey] at hread
        cases hread
      | some x =>
        rw [hkey, Expiring.read_timed] at hread
        split at hread
        · cases hread
        · next hnot => exact Nat.lt_of_le_of_lt (hend x rfl).1 (Nat.lt_of_not_le hnot)
    have hle : e.born ≤ newest.born := by
      rw [hlog] at he
      rcases List.mem_cons.mp he with rfl | he
      · exact Nat.le_refl _
      · have hfollows := hi.windows.follows
        rw [hlog] at hfollows
        rcases (List.pairwise_cons.mp hfollows).1 e he with ⟨heq, -⟩ | ⟨hlt, -⟩
        · exact Nat.le_of_eq heq.symm
        · omega
    omega

theorem Inv.hit (hi : Inv windowMs s) (h : step windowMs s .hit = some t) : Inv windowMs t := by
  rw [step, Option.some_inj] at h
  subst h
  have harmed : ∀ time ∈ (if needsExpire s.count.1 s.count.2 then s.now :: s.arming else s.arming),
      time ≤ s.now := by
    intro time ht
    split at ht
    · rcases List.mem_cons.mp ht with rfl | ht
      · exact Nat.le_refl _
      · exact hi.armed time ht
    · exact hi.armed time ht
  have hpast : ∀ e ∈ (⟨s.now, s.count.1, s.born⟩ : Counted) :: s.log, e.time ≤ s.now := by
    intro e he
    rcases List.mem_cons.mp he with rfl | he
    · exact Nat.le_refl _
    · exact hi.past e he
  rcases hit_cases hi with ⟨newest, rest, deadline, hlog, hkey, hread, hcount, hborn, hincr, -⟩ |
    ⟨hread, hcount, hborn, hincr, -⟩
  · have hnewest : newest ∈ s.log := by
      rw [hlog]
      exact List.mem_cons_self ..
    refine ⟨?_, ?_, hpast, harmed⟩
    · dsimp only
      rw [hcount, hborn, hlog]
      exact (hlog ▸ hi.windows).cons_next (hi.past newest hnewest)
    · unfold Open
      dsimp only
      rw [hincr, hcount, hborn]
      refine ⟨deadline, rfl, fun x hx => ⟨?_, ?_⟩⟩
      · have hopen := hi.opened
        unfold Open at hopen
        rw [hlog] at hopen
        obtain ⟨deadline', hkey', hend⟩ := hopen
        rw [hkey] at hkey'
        cases hkey'
        exact (hend x hx).1
      · rw [Option.mem_def] at hx
        subst hx
        rw [hkey, Expiring.read_timed] at hread
        split at hread
        · next hle => exact hle
        · cases hread
  · refine ⟨?_, ?_, hpast, harmed⟩
    · dsimp only
      rw [hcount, hborn]
      exact hi.windows.cons_first (hi.window_over hread)
    · unfold Open
      dsimp only
      rw [hincr, hcount]
      exact ⟨none, rfl, fun x hx => (nomatch hx)⟩

theorem Inv.step (hi : Inv windowMs s) (h : step windowMs s a = some t) : Inv windowMs t := by
  cases a with
  | wait ms =>
    rw [RateLimit.step, Option.some_inj] at h
    subst h
    exact ⟨hi.windows, hi.opened, fun e he => Nat.le_trans (hi.past e he) (Nat.le_add_right ..),
      fun time ht => Nat.le_trans (hi.armed time ht) (Nat.le_add_right ..)⟩
  | hit => exact hi.hit h
  | arm time =>
    rw [RateLimit.step] at h
    split at h
    · rw [Option.some_inj] at h
      subst h
      refine ⟨hi.windows, ?_, hi.past, fun time' ht => hi.armed time' (List.mem_of_mem_erase ht)⟩
      have hopen := hi.opened
      unfold Open at hopen ⊢
      dsimp only
      split at hopen
      · rw [hopen]
        rfl
      · next newest rest hlog =>
        have hnewest : newest ∈ s.log := by
          rw [hlog]
          exact List.mem_cons_self ..
        have hle := hi.past newest hnewest
        have hbegan := hi.windows.began newest hnewest
        obtain ⟨deadline, hkey, hend⟩ := hopen
        rcases Expiring.expire_cases s.now windowMs s.key with ⟨c, heq, -, hexpire⟩ | ⟨-, hexpire⟩
        · rw [hkey] at heq
          cases heq
          rw [hexpire]
          refine ⟨_, rfl, fun x hx => ?_⟩
          cases hx
          exact ⟨by omega, by omega⟩
        · rw [hexpire]
          exact ⟨deadline, hkey, hend⟩
    · cases h
  | lose time =>
    rw [RateLimit.step] at h
    split at h
    · rw [Option.some_inj] at h
      subst h
      exact ⟨hi.windows, hi.opened, hi.past, fun time' ht => hi.armed time' (List.mem_of_mem_erase ht)⟩
    · cases h

theorem inv_of_reachable (h : (lts windowMs).Reachable s) : Inv windowMs s :=
  h.invariant (fun _ h0 => h0 ▸ inv_init windowMs) fun _ _ _ hi hs => hi.step hs

/--
**The bound of the limiter.**

Whatever the requests of a client, their interleaving and the `EXPIRE`s that are late or lost: of those that
come within one window's length of time, fewer than twice `limit` are numbered up to `limit`, and no other
is let through.
-/
theorem window_bound (windowMs : Nat) {s : State} (h : (lts windowMs).Reachable s) (limit start : Nat) :
    (withinLimit limit start (start + windowMs) s.log).length ≤ 2 * limit - 1 ∧
      ∀ e ∈ s.log, start ≤ e.time → e.time ≤ start + windowMs →
        ∀ ttl, (verdict limit e.count ttl).allowed = true →
          e ∈ withinLimit limit start (start + windowMs) s.log :=
  ⟨(inv_of_reachable h).windows.length_withinLimit_le limit start, fun _ he hle hle' _ hallowed =>
    mem_withinLimit.mpr ⟨he, verdict_allowed.mp hallowed, hle, hle'⟩⟩

/-- Two requests a second: the second one of a window, at its end, and two of the next. -/
def boundary : List Action :=
  [.hit, .arm 0, .wait 1000, .hit, .wait 1, .hit, .arm 1001, .hit, .hit]

theorem window_bound_boundary :
    ∃ s, Lts.exec (step 1000) init boundary = some s ∧
      (withinLimit 2 1 1001 s.log).length = 3 ∧ (withinLimit 2 1 (1 + 1000) s.log).length ≤ 2 * 2 - 1 :=
  ⟨_, rfl, rfl, (window_bound 1000 (Lts.reachable_of_exec (show Lts.exec _ _ boundary = _ from rfl)) 2 1).1⟩

/-! ## A window ends -/

/-- No `EXPIRE` gets lost from now on, and none comes more than `delay` after its transaction. -/
def Delivers (delay : Nat) (s : State) : Action → Prop
  | .wait ms => ∀ time ∈ s.arming, s.now + ms ≤ time + delay
  | .lose _ => False
  | _ => True

instance (delay : Nat) (s : State) : (a : Action) → Decidable (Delivers delay s a)
  | .wait ms => inferInstanceAs (Decidable (∀ time ∈ s.arming, s.now + ms ≤ time + delay))
  | .lose _ => isFalse id
  | .hit | .arm _ => isTrue trivial

/-- The window in which a request was counted at `since` is still open, and its end is set or about to be. -/
structure Ending (windowMs delay since : Nat) (s : State) : Prop where
  key : ∃ count deadline, s.key = some ⟨count, deadline⟩ ∧
    ((∃ x, deadline = some x ∧ since ≤ x ∧ x ≤ since + 2 * delay + windowMs) ∨
      deadline = none ∧ s.now ≤ since + delay ∧ ∃ time ∈ s.arming, time ≤ since)
  arming : ∀ time ∈ s.arming, time ≤ since + delay ∧ (s.now ≤ time + delay ∨ s.now = since)
  past : since ≤ s.now

/-- A window began after `since`. -/
def Renewed (since : Nat) (s : State) : Prop := ∃ e ∈ s.log, e.count = 1 ∧ since < e.time

theorem Renewed.step {since : Nat} (hr : Renewed since s) (h : step windowMs s a = some t) :
    Renewed since t := by
  obtain ⟨e, he, hone, hlt⟩ := hr
  have hsub : e ∈ t.log := by
    cases a with
    | wait ms | hit =>
      rw [RateLimit.step, Option.some_inj] at h
      subst h
      first
      | exact he
      | exact List.mem_cons_of_mem _ he
    | arm time | lose time =>
      rw [RateLimit.step] at h
      split at h
      · rw [Option.some_inj] at h
        subst h
        exact he
      · cases h
  exact ⟨e, hsub, hone, hlt⟩

variable {delay since : Nat}

theorem Ending.now_le (he : Ending windowMs delay since s) {time : Nat} (ht : time ∈ s.arming) :
    s.now ≤ since + 2 * delay := by
  obtain ⟨hle, hlate | hnow⟩ := he.arming time ht <;> omega

/-- **A step** leaves the window to its end, or begins another one. -/
theorem Ending.step (hi : Inv windowMs s) (he : Ending windowMs delay since s)
    (hok : Delivers delay s a) (h : step windowMs s a = some t) :
    Ending windowMs delay since t ∨ Renewed since t := by
  obtain ⟨count, deadline, hkey, hend⟩ := he.key
  cases a with
  | wait ms =>
    rw [RateLimit.step, Option.some_inj] at h
    subst h
    refine .inl ⟨⟨count, deadline, hkey, ?_⟩, fun time ht => ⟨(he.arming time ht).1, .inl (hok time ht)⟩,
      Nat.le_trans he.past (Nat.le_add_right ..)⟩
    rcases hend with hset | ⟨hnone, -, time, ht, hle⟩
    · exact .inl hset
    · have hdue : s.now + ms ≤ time + delay := hok time ht
      refine .inr ⟨hnone, ?_, time, ht, hle⟩
      dsimp only
      omega
  | hit =>
    rw [RateLimit.step, Option.some_inj] at h
    subst h
    rcases hit_cases hi with ⟨newest, rest, deadline', -, hkey', -, -, -, hincr, harm⟩ |
      ⟨hread, hcount, hborn, -, -⟩
    · rw [hkey] at hkey'
      cases hkey'
      refine .inl ⟨⟨_, deadline, hincr, ?_⟩, fun time ht => ?_, he.past⟩
      · rcases hend with hset | ⟨hnone, hle, time, ht, htime⟩
        · exact .inl hset
        · refine .inr ⟨hnone, hle, time, ?_, htime⟩
          dsimp only
          rw [if_pos (harm.mpr hnone)]
          exact List.mem_cons_of_mem _ ht
      · dsimp only at ht ⊢
        split at ht
        · next hneeds =>
          rcases List.mem_cons.mp ht with rfl | ht
          · rcases hend with ⟨x, heq, -, -⟩ | ⟨-, hle, -⟩
            · rw [harm.mp hneeds] at heq
              cases heq
            · exact ⟨hle, .inl (Nat.le_add_right ..)⟩
          · exact he.arming time ht
        · exact he.arming time ht
    · refine .inr ⟨_, List.mem_cons_self .., hcount, ?_⟩
      -- the window is over, so its end, set after `since`, has passed
      rcases hend with ⟨x, rfl, hle, -⟩ | ⟨rfl, -⟩
      · rw [hkey, Expiring.read_timed] at hread
        split at hread
        · cases hread
        · next hnot => exact Nat.lt_of_le_of_lt hle (Nat.lt_of_not_le hnot)
      · rw [hkey] at hread
        cases hread
  | arm time =>
    rw [RateLimit.step] at h
    split at h
    · next ht =>
      rw [Option.some_inj] at h
      subst h
      have hnow := he.now_le ht
      have hpast := he.past
      refine .inl ⟨?_, fun time' ht' => he.arming time' (List.mem_of_mem_erase ht'), he.past⟩
      dsimp only
      rcases Expiring.expire_cases s.now windowMs s.key with ⟨c, heq, -, hexpire⟩ | ⟨hread, hexpire⟩
      · exact ⟨c.value, _, hexpire, .inl ⟨_, rfl, by omega, by omega⟩⟩
      · rcases hend with hset | ⟨hnone, -⟩
        · exact ⟨count, deadline, hexpire.trans hkey, .inl hset⟩
        · rw [hkey, hnone] at hread
          cases hread
    · cases h
  | lose time => exact hok.elim

/-- The end of a window is never more than its length away. -/
def Bounded (windowMs : Nat) (s : State) : Prop :=
  ∀ count deadline, s.key = some ⟨count, some deadline⟩ → deadline ≤ s.now + windowMs

theorem Bounded.step (hb : Bounded windowMs s) (h : step windowMs s a = some t) : Bounded windowMs t := by
  intro count deadline hkey
  cases a with
  | wait ms =>
    rw [RateLimit.step, Option.some_inj] at h
    subst h
    exact Nat.le_trans (hb count deadline hkey) (Nat.add_le_add_right (Nat.le_add_right ..) _)
  | hit =>
    rw [RateLimit.step, Option.some_inj] at h
    subst h
    rcases Expiring.incr_cases s.now s.key with ⟨c, hkey', -, hincr⟩ | ⟨-, hincr⟩
    · obtain ⟨value, deadline'⟩ := c
      rw [hincr] at hkey
      cases hkey
      exact hb _ _ hkey'
    · rw [hincr] at hkey
      cases hkey
  | arm time =>
    rw [RateLimit.step] at h
    split at h
    · rw [Option.some_inj] at h
      subst h
      rcases Expiring.expire_cases s.now windowMs s.key with ⟨c, -, -, hexpire⟩ | ⟨-, hexpire⟩
      · rw [hexpire] at hkey
        cases hkey
        exact Nat.le_refl _
      · rw [hexpire] at hkey
        exact hb count deadline hkey
    · cases h
  | lose time =>
    rw [RateLimit.step] at h
    split at h
    · rw [Option.some_inj] at h
      subst h
      exact hb count deadline hkey
    · cases h

theorem bounded_of_reachable (h : (lts windowMs).Reachable s) : Bounded windowMs s :=
  h.invariant (fun _ h0 _ _ hkey => by rw [h0] at hkey; cases hkey) fun _ _ _ hb hs => hb.step hs

/-- A request is counted in a window whose end is set or about to be. -/
theorem ending_hit (hi : Inv windowMs s) (hb : Bounded windowMs s)
    (h : RateLimit.step windowMs s .hit = some t) : Ending windowMs delay t.now t := by
  rw [RateLimit.step, Option.some_inj] at h
  subst h
  refine ⟨?_, fun time ht => ⟨?_, .inr rfl⟩, Nat.le_refl _⟩
  · rcases hit_cases hi with ⟨newest, rest, deadline, -, hkey, hread, -, -, hincr, harm⟩ |
      ⟨-, -, -, hincr, harm⟩
    · refine ⟨_, deadline, hincr, ?_⟩
      cases deadline with
      | none =>
        refine .inr ⟨rfl, Nat.le_add_right .., s.now, ?_, Nat.le_refl _⟩
        dsimp only
        rw [if_pos (harm.mpr rfl)]
        exact List.mem_cons_self ..
      | some x =>
        have hx := hb _ _ hkey
        rw [hkey, Expiring.read_timed] at hread
        split at hread
        · next hle => exact .inl ⟨x, rfl, hle, by dsimp only; omega⟩
        · cases hread
    · refine ⟨_, none, hincr, .inr ⟨rfl, Nat.le_add_right .., s.now, ?_, Nat.le_refl _⟩⟩
      dsimp only
      rw [if_pos harm]
      exact List.mem_cons_self ..
  · dsimp only at ht ⊢
    split at ht
    · rcases List.mem_cons.mp ht with rfl | ht
      · exact Nat.le_add_right ..
      · exact Nat.le_trans (hi.armed time ht) (Nat.le_add_right ..)
    · exact Nat.le_trans (hi.armed time ht) (Nat.le_add_right ..)

theorem ending_exec : ∀ {as : List Action} {s t : State}, Inv windowMs s →
    Ending windowMs delay since s ∨ Renewed since s → Lts.Meets (RateLimit.step windowMs) (Delivers delay) s as →
    Lts.exec (RateLimit.step windowMs) s as = some t → Ending windowMs delay since t ∨ Renewed since t
  | [], _, _, _, he, _, hexec => by
    rw [Lts.exec] at hexec
    cases hexec
    exact he
  | a :: as, s, t, hi, he, hmeets, hexec => by
    rw [Lts.exec, Option.bind_eq_some_iff] at hexec
    obtain ⟨u, hu, ht⟩ := hexec
    have hnext : Ending windowMs delay since u ∨ Renewed since u := by
      rcases he with he | hr
      · exact he.step hi hmeets.1 hu
      · exact .inr (hr.step hu)
    exact ending_exec (hi.step hu) hnext (hmeets.2 u hu) ht

/--
**Nobody is locked out for good.**

However many `EXPIRE`s got lost before a request, and however many requests follow it: if from then on every
`EXPIRE` comes within `delay`, then later than a window and twice `delay` after the request, either the next
request begins a window, or one that came meanwhile did.
-/
theorem never_locked_out (windowMs delay : Nat) {s s₁ t : State} (h : (lts windowMs).Reachable s)
    (hhit : RateLimit.step windowMs s .hit = some s₁) {as : List Action}
    (hmeets : Lts.Meets (RateLimit.step windowMs) (Delivers delay) s₁ as)
    (hexec : Lts.exec (RateLimit.step windowMs) s₁ as = some t)
    (hlate : s₁.now + 2 * delay + windowMs < t.now) :
    t.count.1 = 1 ∨ ∃ e ∈ t.log, e.count = 1 ∧ s₁.now < e.time := by
  have hi := inv_of_reachable h
  have hstart : Ending windowMs delay s₁.now s₁ := ending_hit hi (bounded_of_reachable h) hhit
  rcases ending_exec (hi.step hhit) (.inl hstart) hmeets hexec with he | hr
  · refine .inl ?_
    obtain ⟨count, deadline, hkey, hend⟩ := he.key
    have hread : t.key.read t.now = none := by
      rcases hend with ⟨x, rfl, -, hle⟩ | ⟨-, hle, -⟩
      · rw [hkey, Expiring.read_timed, if_neg (by omega)]
      · omega
    rcases Expiring.incr_cases t.now t.key with ⟨c, heq, hlive, -⟩ | ⟨-, hincr⟩
    · rw [Expiring.read_eq_some.mpr ⟨c, heq, hlive, rfl⟩] at hread
      cases hread
    · rw [State.count, hincr]
      rfl
  · exact .inr hr

/-- The first `EXPIRE` of a client gets lost; a request an hour later sets the end. -/
def rearmed : State :=
  (Lts.exec (step 1000) init [.hit, .lose 0, .wait 3600000]).get rfl

theorem never_locked_out_rearmed :
    ∃ s₁ t, RateLimit.step 1000 rearmed .hit = some s₁ ∧
      Lts.exec (RateLimit.step 1000) s₁ [.wait 5, .arm 3600000, .wait 1006] = some t ∧
      (t.count.1 = 1 ∨ ∃ e ∈ t.log, e.count = 1 ∧ s₁.now < e.time) := by
  have hmeets : Lts.Meets (RateLimit.step 1000) (Delivers 5)
      ((RateLimit.step 1000 rearmed .hit).get rfl) [.wait 5, .arm 3600000, .wait 1006] := by decide
  exact ⟨_, _, rfl, rfl, never_locked_out 1000 5
    (Lts.reachable_of_exec (show Lts.exec _ _ [.hit, .lose 0, .wait 3600000] = some rearmed from rfl))
    rfl hmeets rfl (by decide)⟩

end FxTracker.Api.RateLimit
