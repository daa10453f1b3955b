import FxTracker.Core.Buckets
import FxTracker.Lib.Lts
import Mathlib.Algebra.Field.Rat
import Mathlib.Algebra.Order.Field.Basic
import Mathlib.Algebra.Order.Ring.Rat
import Mathlib.Data.List.DropRight
import Mathlib.Tactic.Linarith

/-!
# The reconnect loop

`BackoffPolicy` and `CircuitBreaker` of `fx_ingestor/supervisor.py`, and `_run_as_leader` of
`fx_ingestor/main.py`, which drives both: a session that fails, or that ends too soon, climbs the ladder of
delays and counts against the breaker.

* `settle_eq` — what a session leaves, in all four ways it can end
* `sessions_spaced` — an open breaker keeps the sessions apart
* `survives_iff` — how long an outage the loop survives
-/

namespace FxTracker.Ingestor.Reconnect

/-! ## Backoff -/

structure BackoffPolicy (K : Type) where
  base : K
  cap : K

/-- `2.0**attempt`; `none` is `OverflowError`: 2 to the 1023 is the last power that is a double. -/
def powTwo {K : Type} [Field K] (attempt : Nat) : Option K :=
  if attempt ≤ 1023 then some (2 ^ attempt) else none

/-- `delay`, where `rng.random()` is `draw`; `none` where it raises. -/
def BackoffPolicy.delay {K : Type} [Field K] [LinearOrder K] (policy : BackoffPolicy K) (attempt : Nat)
    (draw : K) : Option K :=
  (powTwo attempt).map fun power => 0 + (pyMin policy.cap (policy.base * power) - 0) * draw

/-! ## Circuit breaker -/

inductive BreakerState
  | closed
  | opened
  | halfOpen
  deriving DecidableEq, Repr

structure CircuitBreaker (K : Type) where
  failThreshold : Nat
  resetAfter : K
  state : BreakerState
  failures : Nat
  openedAt : K
  deriving DecidableEq

namespace CircuitBreaker

variable {K : Type}

/-- `CircuitBreaker(fail_threshold, reset_after_s)`. -/
def fresh [Zero K] (failThreshold : Nat) (resetAfter : K) : CircuitBreaker K :=
  ⟨failThreshold, resetAfter, .closed, 0, 0⟩

def recordSuccess (b : CircuitBreaker K) : CircuitBreaker K := { b with state := .closed, failures := 0 }

def recordFailure (b : CircuitBreaker K) (now : K) : CircuitBreaker K :=
  let counted := { b with failures := b.failures + 1 }
  if counted.failThreshold ≤ counted.failures ∧ counted.state ≠ .opened then
    { counted with state := .opened, openedAt := now }
  else counted

/-- The answer, and the breaker after it. -/
def allowsAttempt [Sub K] [LE K] [DecidableLE K] (b : CircuitBreaker K) (now : K) :
    Bool × CircuitBreaker K :=
  match b.state with
  | .closed => (true, b)
  | .opened =>
    if b.resetAfter ≤ now - b.openedAt then (true, { b with state := .halfOpen }) else (false, b)
  | .halfOpen => (true, b)

theorem recordFailure_failures (b : CircuitBreaker K) (now : K) :
    (b.recordFailure now).failures = b.failures + 1 := by
  simp only [recordFailure]
  split <;> rfl

/-- Nothing but the state changes when the breaker is asked, and what it lets through is closed or half
open. -/
theorem allowsAttempt_eq [Sub K] [LE K] [DecidableLE K] {b b' : CircuitBreaker K} {now : K}
    {allowed : Bool} (h : b.allowsAttempt now = (allowed, b')) :
    (b.state = .opened ∧ b' = b ∧ allowed = false) ∨
      (b.state = .opened ∧ b' = { b with state := .halfOpen } ∧ allowed = true ∧
        b.resetAfter ≤ now - b.openedAt) ∨
      (b.state ≠ .opened ∧ b' = b ∧ allowed = true) := by
  unfold allowsAttempt at h
  cases hstate : b.state with
  | closed =>
    rw [hstate] at h
    cases h
    exact .inr (.inr ⟨nofun, rfl, rfl⟩)
  | opened =>
    rw [hstate] at h
    dsimp only at h
    split at h
    case isTrue hle =>
      cases h
      exact .inr (.inl ⟨rfl, rfl, rfl, hle⟩)
    case isFalse =>
      cases h
      exact .inl ⟨rfl, rfl, rfl⟩
  | halfOpen =>
    rw [hstate] at h
    cases h
    exact .inr (.inr ⟨nofun, rfl, rfl⟩)

end CircuitBreaker

/-! ## The loop -/

variable {K : Type} [Field K] [LinearOrder K]

/-- One round of the loop, as the world has it: the readings of the clock it takes, in order, how the session
went if there was one, and what the generator answers. -/
structure Round (K : Type) [Field K] [LinearOrder K] where
  /-- In `allows_attempt`. -/
  asked : K
  started : K
  ended : K
  /-- In `record_failure`. -/
  recorded : K
  /-- By `ProviderError` or `OSError`, otherwise a clean return. -/
  failed : Bool
  /-- Whether shutdown or the loss of the lease is set by then. -/
  stopping : Bool
  /-- `rng.random()`. -/
  draw : K
  started_ge : asked ≤ started
  ended_ge : started ≤ ended
  recorded_ge : ended ≤ recorded
  draw_nonneg : 0 ≤ draw
  draw_lt : draw < 1
  deriving DecidableEq

/-- `MIN_HEALTHY_SESSION_S`. -/
def minHealthySession : K := 30

/-- It lasted. -/
def Round.healthy (r : Round K) : Bool := minHealthySession ≤ r.ended - r.started

/-- The breaker, and the local `attempt` of `_run_as_leader`. -/
structure Loop (K : Type) where
  breaker : CircuitBreaker K
  attempt : Nat

/-- What a round sleeps for. -/
inductive Pause (K : Type)
  | none
  /-- The second before the breaker is asked again. -/
  | polled
  | slept (attempt : Nat) (delay : K)

/-- What follows a session: the handler of `ProviderError` and `OSError`, or the `else` of a clean return.
`none` where something it computes raises. -/
def settle (policy : BackoffPolicy K) (s : Loop K) (r : Round K) : Option (Loop K × Pause K) :=
  if r.failed then
    let t : Loop K := if r.healthy then ⟨s.breaker.recordSuccess, 0⟩ else s
    let breaker := t.breaker.recordFailure r.recorded
    (policy.delay t.attempt r.draw).map fun delay => (⟨breaker, t.attempt + 1⟩, .slept t.attempt delay)
  else
    let t : Loop K := if r.healthy then ⟨s.breaker.recordSuccess, 0⟩
      else { s with breaker := s.breaker.recordFailure r.recorded }
    if r.stopping then some (t, .none)
    else (policy.delay t.attempt r.draw).map fun delay =>
      (⟨t.breaker, if r.healthy then t.attempt else t.attempt + 1⟩, .slept t.attempt delay)

/-- One round of `_run_as_leader`. -/
def round (policy : BackoffPolicy K) (s : Loop K) (r : Round K) : Option (Loop K × Pause K) :=
  let asked := s.breaker.allowsAttempt r.asked
  if asked.1 then settle policy { s with breaker := asked.2 } r
  else some ({ s with breaker := asked.2 }, .polled)

/-- `_run_as_leader` is called, or goes through another round. -/
inductive Event (K : Type) [Field K] [LinearOrder K]
  | leads
  | round (r : Round K)

def act (policy : BackoffPolicy K) (s : Loop K) : Event K → Option (Loop K × Pause K)
  | .leads => some ({ s with attempt := 0 }, .none)
  | .round r => round policy s r

/-- The pauses of a run; `none` where it raises. -/
def run (policy : BackoffPolicy K) : Loop K → List (Event K) → Option (List (Pause K))
  | _, [] => some []
  | s, e :: es => do
    let next ← act policy s e
    let pauses ← run policy next.1 es
    some (next.2 :: pauses)

theorem run_cons_of_none {policy : BackoffPolicy K} {s : Loop K} {e : Event K} {es : List (Event K)}
    (h : act policy s e = none) : run policy s (e :: es) = none := by
  simp [run, h]

theorem run_cons_of_some {policy : BackoffPolicy K} {s : Loop K} {e : Event K} {es : List (Event K)}
    {next : Loop K × Pause K} (h : act policy s e = some next) :
    run policy s (e :: es) = (run policy next.1 es).map (next.2 :: ·) := by
  simp [run, h, Option.map_eq_bind]

/-- The session of an event, if there is one. -/
def sessionOf (s : Loop K) : Event K → List (Round K)
  | .leads => []
  | .round r => if (s.breaker.allowsAttempt r.asked).1 then [r] else []

/-- The sessions of a run, up to where it raises. -/
def sessions (policy : BackoffPolicy K) : Loop K → List (Event K) → List (Round K)
  | _, [] => []
  | s, e :: es =>
    sessionOf s e ++ match act policy s e with
      | some next => sessions policy next.1 es
      | none => []

/-- How many sessions ended since the last healthy one. -/
def streak (past : List (Round K)) : Nat := (past.rtakeWhile fun r => !r.healthy).length

/-! ## One session -/

/-- The attempt number a session's delay is drawn with. -/
def drawn (s : Loop K) (r : Round K) : Nat := if r.healthy then 0 else s.attempt

/-- The breaker after a session. -/
def breakerAfter (b : CircuitBreaker K) (r : Round K) : CircuitBreaker K :=
  let b := if r.healthy then b.recordSuccess else b
  if r.failed ∨ ¬ r.healthy then b.recordFailure r.recorded else b

/-- **What a session leaves.** It counts as a failure unless it was healthy and ended cleanly. -/
theorem settle_eq (policy : BackoffPolicy K) (s : Loop K) (r : Round K) :
    settle policy s r =
      if r.stopping ∧ ¬ r.failed then some (⟨breakerAfter s.breaker r, drawn s r⟩, .none)
      else (policy.delay (drawn s r) r.draw).map fun delay =>
        (⟨breakerAfter s.breaker r, if r.failed ∨ ¬ r.healthy then drawn s r + 1 else drawn s r⟩,
          .slept (drawn s r) delay) := by
  cases hfailed : r.failed <;> cases hhealthy : r.healthy <;> cases hstop : r.stopping <;>
    simp [settle, breakerAfter, drawn, hfailed, hhealthy, hstop]

theorem settle_breaker {policy : BackoffPolicy K} {s : Loop K} {r : Round K} {next : Loop K × Pause K}
    (h : settle policy s r = some next) : next.1.breaker = breakerAfter s.breaker r := by
  rw [settle_eq] at h
  split at h
  · cases h
    rfl
  · obtain ⟨delay, -, rfl⟩ := Option.map_eq_some_iff.mp h
    rfl

theorem delay_isSome {policy : BackoffPolicy K} {attempt : Nat} {draw : K} :
    (policy.delay attempt draw).isSome ↔ attempt ≤ 1023 := by
  unfold BackoffPolicy.delay powTwo
  split <;> simp [*]

/-- A healthy session, however it ended, is followed as if none had been before it: the next delay is the first
of the ladder, and the one failure that is counted is its own. -/
theorem settle_of_healthy (policy : BackoffPolicy K) (s : Loop K) {r : Round K} (h : r.healthy = true) :
    ∃ next, settle policy s r = some next ∧
      next.1.breaker.failures = (if r.failed then 1 else 0) ∧
      next.1.attempt = (if r.failed then 1 else 0) ∧
      ∀ attempt delay, next.2 = .slept attempt delay → attempt = 0 := by
  have hfailures : (breakerAfter s.breaker r).failures = if r.failed then 1 else 0 := by
    cases hfailed : r.failed <;>
      simp [breakerAfter, h, hfailed, CircuitBreaker.recordFailure_failures, CircuitBreaker.recordSuccess]
  have hdrawn : drawn s r = 0 := if_pos h
  rw [settle_eq, hdrawn]
  by_cases hstop : r.stopping = true ∧ ¬ r.failed = true
  · refine ⟨_, if_pos hstop, hfailures, (if_neg hstop.2).symm, ?_⟩
    intro _ _ hnone
    cases hnone
  · have hsome : (policy.delay 0 r.draw).isSome = true := delay_isSome.mpr (Nat.zero_le 1023)
    obtain ⟨delay, hdelay⟩ := Option.isSome_iff_exists.mp hsome
    rw [if_neg hstop, hdelay]
    refine ⟨_, rfl, hfailures, ?_, ?_⟩
    · simp [h]
    · intro _ _ hslept
      cases hslept
      rfl

/-! ## The breaker keeps sessions apart -/

theorem streak_concat (past : List (Round K)) (r : Round K) :
    streak (past ++ [r]) = if r.healthy then 0 else streak past + 1 := by
  unfold streak
  rw [List.rtakeWhile_concat]
  cases r.healthy <;> simp

/-- The breaker at the top of the loop: closed, with fewer failures than it takes, or open since after the
last session ended. It has counted every session of the streak. -/
structure Counts (threshold : Nat) (reset : K) (b : CircuitBreaker K) (past : List (Round K)) : Prop where
  config : b.failThreshold = threshold ∧ b.resetAfter = reset
  counted : streak past ≤ b.failures
  phase : (b.state = .closed ∧ b.failures < threshold) ∨
    (b.state = .opened ∧ threshold ≤ b.failures ∧ ∀ r ∈ past.getLast?, r.ended ≤ b.openedAt)

variable {threshold : Nat} {reset : K} {b b' : CircuitBreaker K} {past : List (Round K)} {r : Round K}

theorem counts_fresh (h : 1 ≤ threshold) :
    Counts threshold reset (CircuitBreaker.fresh threshold reset) [] :=
  ⟨⟨rfl, rfl⟩, Nat.zero_le _, .inl ⟨rfl, h⟩⟩

/-- A failure is counted, and opens the breaker from `threshold` on. -/
theorem counts_recordFailure (hconfig : b.failThreshold = threshold ∧ b.resetAfter = reset)
    (hcounted : streak (past ++ [r]) ≤ b.failures + 1) (hstate : b.state ≠ .opened)
    (hphase : b.state = .closed ∨ threshold ≤ b.failures) :
    Counts threshold reset (b.recordFailure r.recorded) (past ++ [r]) := by
  obtain ⟨rfl, rfl⟩ := hconfig
  by_cases htrip : b.failThreshold ≤ b.failures + 1
  · have heq : b.recordFailure r.recorded =
        { b with failures := b.failures + 1, state := .opened, openedAt := r.recorded } :=
      if_pos ⟨htrip, hstate⟩
    rw [heq]
    refine ⟨⟨rfl, rfl⟩, hcounted, .inr ⟨rfl, htrip, ?_⟩⟩
    intro last hlast
    rw [List.getLast?_concat] at hlast
    cases hlast
    exact r.recorded_ge
  · have heq : b.recordFailure r.recorded = { b with failures := b.failures + 1 } :=
      if_neg fun h => htrip h.1
    have hclosed : b.state = .closed := hphase.resolve_right (by omega)
    rw [heq]
    exact ⟨⟨rfl, rfl⟩, hcounted, .inl ⟨hclosed, by dsimp only; omega⟩⟩

/-- **One session keeps the count.** -/
theorem counts_breakerAfter (hthreshold : 1 ≤ threshold)
    (hconfig : b.failThreshold = threshold ∧ b.resetAfter = reset) (hcounted : streak past ≤ b.failures)
    (hstate : b.state ≠ .opened) (hphase : b.state = .closed ∨ threshold ≤ b.failures) (r : Round K) :
    Counts threshold reset (breakerAfter b r) (past ++ [r]) := by
  have hstreak := streak_concat past r
  cases hhealthy : r.healthy with
  | false =>
    rw [hhealthy, if_neg nofun] at hstreak
    have heq : breakerAfter b r = b.recordFailure r.recorded := by simp [breakerAfter, hhealthy]
    rw [heq]
    exact counts_recordFailure hconfig (by omega) hstate hphase
  | true =>
    rw [hhealthy, if_pos rfl] at hstreak
    cases hfailed : r.failed with
    | false =>
      have heq : breakerAfter b r = b.recordSuccess := by simp [breakerAfter, hhealthy, hfailed]
      rw [heq]
      exact ⟨hconfig, by omega, .inl ⟨rfl, hthreshold⟩⟩
    | true =>
      have heq : breakerAfter b r = b.recordSuccess.recordFailure r.recorded := by
        simp [breakerAfter, hhealthy, hfailed]
      rw [heq]
      exact counts_recordFailure hconfig (by omega) nofun (.inl rfl)

/-- What asking the breaker leaves, where it lets a session through. -/
theorem Counts.allowed (h : Counts threshold reset b past) {now : K}
    (hask : b.allowsAttempt now = (true, b')) :
    (b'.failThreshold = threshold ∧ b'.resetAfter = reset) ∧ streak past ≤ b'.failures ∧
      b'.state ≠ .opened ∧ (b'.state = .closed ∨ threshold ≤ b'.failures) := by
  rcases CircuitBreaker.allowsAttempt_eq hask with ⟨-, -, hno⟩ | ⟨hopened, rfl, -, -⟩ | ⟨hstate, rfl, -⟩
  · cases hno
  · rcases h.phase with ⟨hclosed, -⟩ | ⟨-, hfailures, -⟩
    · rw [hclosed] at hopened
      cases hopened
    · exact ⟨h.config, h.counted, nofun, .inr hfailures⟩
  · rcases h.phase with ⟨hclosed, -⟩ | ⟨hopened, -, -⟩
    · exact ⟨h.config, h.counted, hstate, .inl hclosed⟩
    · exact absurd hopened hstate

/-- What asking it leaves, where it does not. -/
theorem Counts.refused (h : Counts threshold reset b past) {now : K}
    (hask : b.allowsAttempt now = (false, b')) : Counts threshold reset b' past := by
  rcases CircuitBreaker.allowsAttempt_eq hask with ⟨-, rfl, -⟩ | ⟨-, -, hyes, -⟩ | ⟨-, -, hyes⟩
  · exact h
  · cases hyes
  · cases hyes

/-- After a streak of `threshold`, the breaker lets a session through `reset` after the last one ended. -/
theorem Counts.spaced (h : Counts threshold reset b past) (hask : (b.allowsAttempt r.asked).1 = true)
    (hstreak : threshold ≤ streak past) {last : Round K} (hlast : last ∈ past.getLast?)
    [IsStrictOrderedRing K] : last.ended + reset ≤ r.started := by
  have hfailures : threshold ≤ b.failures := hstreak.trans h.counted
  rcases h.phase with ⟨-, hlt⟩ | ⟨hopened, -, hended⟩
  · omega
  · rcases CircuitBreaker.allowsAttempt_eq (Prod.ext hask rfl) with
      ⟨-, -, hno⟩ | ⟨-, -, -, hreset⟩ | ⟨hstate, -, -⟩
    · cases hno
    · rw [h.config.2] at hreset
      calc last.ended + reset ≤ b.openedAt + (r.asked - b.openedAt) :=
            add_le_add (hended last hlast) hreset
        _ = r.asked := add_sub_cancel _ _
        _ ≤ r.started := r.started_ge
    · exact absurd hopened hstate

/-- **One event keeps the count**, with the session it brought, if any. -/
theorem counts_act {policy : BackoffPolicy K} {s : Loop K} {e : Event K} {next : Loop K × Pause K}
    (hthreshold : 1 ≤ threshold) (h : Counts threshold reset s.breaker past)
    (hact : act policy s e = some next) :
    Counts threshold reset next.1.breaker (past ++ sessionOf s e) := by
  cases e with
  | leads =>
    cases hact
    simpa [sessionOf] using h
  | round r =>
    obtain ⟨allowed, b', hask⟩ : ∃ allowed b', s.breaker.allowsAttempt r.asked = (allowed, b') :=
      ⟨_, _, rfl⟩
    simp only [act, round, hask] at hact
    simp only [sessionOf, hask]
    cases allowed with
    | true =>
      rw [settle_breaker hact]
      obtain ⟨hconfig, hcounted, hstate, hphase⟩ := h.allowed hask
      exact counts_breakerAfter hthreshold hconfig hcounted hstate hphase r
    | false =>
      cases hact
      simpa using h.refused hask

theorem sessionOf_eq {s : Loop K} {e : Event K} :
    sessionOf s e = [] ∨ ∃ r, sessionOf s e = [r] ∧ (s.breaker.allowsAttempt r.asked).1 = true := by
  cases e with
  | leads => exact .inl rfl
  | round r =>
    by_cases hask : (s.breaker.allowsAttempt r.asked).1 = true
    · exact .inr ⟨r, if_pos hask, hask⟩
    · exact .inl (if_neg hask)

variable [IsStrictOrderedRing K]

/-- From any loop whose breaker has counted the sessions before it. -/
theorem spaced_of_counts (policy : BackoffPolicy K) (hthreshold : 1 ≤ threshold) {events : List (Event K)}
    {s : Loop K} (h : Counts threshold reset s.breaker past) {pre post : List (Round K)} {r : Round K}
    (hsessions : sessions policy s events = pre ++ r :: post) (hstreak : threshold ≤ streak (past ++ pre))
    {last : Round K} (hlast : last ∈ (past ++ pre).getLast?) : last.ended + reset ≤ r.started := by
  induction events generalizing s past pre with
  | nil => cases pre <;> cases hsessions
  | cons e es ih =>
    rw [sessions] at hsessions
    rcases sessionOf_eq (s := s) (e := e) with hnone | ⟨first, hfirst, hask⟩
    · rw [hnone, List.nil_append] at hsessions
      cases hact : act policy s e with
      | none =>
        rw [hact] at hsessions
        cases pre <;> cases hsessions
      | some next =>
        rw [hact] at hsessions
        have hnext := counts_act hthreshold h hact
        rw [hnone, List.append_nil] at hnext
        exact ih hnext hsessions hstreak hlast
    · rw [hfirst, List.singleton_append] at hsessions
      cases pre with
      | nil =>
        rw [List.append_nil] at hstreak hlast
        have heq : first = r := (List.cons.inj hsessions).1
        exact h.spaced (heq ▸ hask) hstreak hlast
      | cons first' pre =>
        obtain ⟨rfl, hrest⟩ := List.cons.inj hsessions
        cases hact : act policy s e with
        | none =>
          rw [hact] at hrest
          cases pre <;> cases hrest
        | some next =>
          rw [hact] at hrest
          have hnext := counts_act hthreshold h hact
          rw [hfirst] at hnext
          rw [List.append_cons] at hstreak hlast
          exact ih hnext hrest hstreak hlast

/-- The ingestor as it is created. -/
def Loop.start (threshold : Nat) (reset : K) : Loop K := ⟨.fresh threshold reset, 0⟩

/-- **An open breaker keeps the sessions apart**, and a healthy session starts everything anew. -/
theorem sessions_spaced (policy : BackoffPolicy K) (hthreshold : 1 ≤ threshold)
    (events : List (Event K)) :
    (∀ pre last r post,
      sessions policy (.start threshold reset) events = pre ++ last :: r :: post →
      threshold ≤ streak (pre ++ [last]) → last.ended + reset ≤ r.started) ∧
    ∀ (s : Loop K) (r : Round K), r.healthy = true →
      ∃ next, settle policy s r = some next ∧
        next.1.breaker.failures = (if r.failed then 1 else 0) ∧
        next.1.attempt = (if r.failed then 1 else 0) ∧
        ∀ attempt delay, next.2 = .slept attempt delay → attempt = 0 := by
  refine ⟨?_, fun s r hr => settle_of_healthy policy s hr⟩
  intro pre last r post hsessions hstreak
  have hpast : sessions policy (.start threshold reset) events = (pre ++ [last]) ++ r :: post := by
    simpa using hsessions
  exact spaced_of_counts policy hthreshold (counts_fresh hthreshold) hpast hstreak (by simp)

/-- A session that starts when the breaker is asked. -/
def lasting (started duration : Nat) (failed : Bool) : Round Rat :=
  ⟨started, started, started + duration, started + duration, failed, false, 1 / 2, le_rfl,
    le_add_of_nonneg_right (Nat.cast_nonneg _), le_rfl, by decide +kernel, by decide +kernel⟩

/-- A hang-up, a failure, a round the open breaker refuses, and the probe. -/
def flaky : List (Event Rat) :=
  [.round (lasting 0 1 false), .round (lasting 2 3 true), .round (lasting 7 1 true),
    .round (lasting 36 54 true)]

theorem sessions_spaced_flaky :
    (lasting 2 3 true).ended + 30 ≤ (lasting 36 54 true).started :=
  (sessions_spaced ⟨1 / 2, 60⟩ (show 1 ≤ 2 by decide) flaky).1 [lasting 0 1 false] (lasting 2 3 true)
    (lasting 36 54 true) [] (by decide +kernel) (by decide +kernel)

/-! ## How long an outage the loop survives -/

/-- A delay that was slept is within the ceiling of its attempt. -/
def Pause.Within (policy : BackoffPolicy K) : Pause K → Prop
  | .slept attempt delay => 0 ≤ delay ∧ delay ≤ min policy.cap (policy.base * 2 ^ attempt)
  | _ => True

/-- Nothing raises, and every delay is as documented. -/
def Survives (policy : BackoffPolicy K) (s : Loop K) (events : List (Event K)) : Prop :=
  ∃ pauses, run policy s events = some pauses ∧ ∀ p ∈ pauses, p.Within policy

/-- Where an event leads. -/
def advance (policy : BackoffPolicy K) (s : Loop K) (e : Event K) : Option (Loop K) :=
  (act policy s e).map Prod.fst

/-- An unhealthy session that a delay follows has at most 1023 before it on the ladder. -/
def Fits (s : Loop K) : Event K → Prop
  | .leads => True
  | .round r =>
    (s.breaker.allowsAttempt r.asked).1 = true → r.healthy = false →
      (r.failed = true ∨ r.stopping = false) → s.attempt ≤ 1023

omit [IsStrictOrderedRing K] in
theorem act_isSome_iff (policy : BackoffPolicy K) {s : Loop K} {e : Event K} :
    (act policy s e).isSome ↔ Fits s e := by
  cases e with
  | leads => exact iff_of_true rfl trivial
  | round r =>
    simp only [act, round, Fits]
    cases (s.breaker.allowsAttempt r.asked).1 with
    | false => simp
    | true =>
      rw [if_pos rfl, settle_eq]
      by_cases hstop : r.stopping = true ∧ ¬ r.failed = true
      · obtain ⟨hstopping, hclean⟩ := hstop
        simp [hstopping, hclean]
      · have hdelays : r.failed = true ∨ r.stopping = false := by
          cases hf : r.failed <;> cases hs : r.stopping <;> simp_all
        rw [if_neg hstop, Option.isSome_map, delay_isSome]
        cases hhealthy : r.healthy <;> simp [drawn, hhealthy, hdelays]

theorem delay_within {policy : BackoffPolicy K} {attempt : Nat} {draw delay : K} (hbase : 0 < policy.base)
    (hcap : 0 < policy.cap) (hnonneg : 0 ≤ draw) (hlt : draw < 1)
    (h : policy.delay attempt draw = some delay) : (Pause.slept attempt delay).Within policy := by
  unfold BackoffPolicy.delay powTwo at h
  split at h
  · cases h
    have hceiling : 0 ≤ min policy.cap (policy.base * 2 ^ attempt) :=
      le_min hcap.le (mul_nonneg hbase.le (pow_nonneg zero_le_two _))
    simp only [pyMin_eq_min, zero_add, sub_zero]
    exact ⟨mul_nonneg hceiling hnonneg, mul_le_of_le_one_right hceiling hlt.le⟩
  · cases h

theorem act_within {policy : BackoffPolicy K} {s : Loop K} {e : Event K} {next : Loop K × Pause K}
    (hbase : 0 < policy.base) (hcap : 0 < policy.cap) (h : act policy s e = some next) :
    next.2.Within policy := by
  cases e with
  | leads =>
    cases h
    trivial
  | round r =>
    simp only [act, round] at h
    split at h
    · rw [settle_eq] at h
      split at h
      · cases h
        trivial
      · obtain ⟨delay, hdelay, rfl⟩ := Option.map_eq_some_iff.mp h
        exact delay_within hbase hcap r.draw_nonneg r.draw_lt hdelay
    · cases h
      trivial

/-- **The loop survives** the outages whose ladders fit, and no others. -/
theorem survives_iff {policy : BackoffPolicy K} (hbase : 0 < policy.base) (hcap : 0 < policy.cap)
    (s : Loop K) (events : List (Event K)) :
    Survives policy s events ↔ Lts.Meets (advance policy) Fits s events := by
  induction events generalizing s with
  | nil => exact iff_of_true ⟨[], rfl, nofun⟩ trivial
  | cons e es ih =>
    simp only [Lts.Meets, ← act_isSome_iff policy, advance]
    cases hact : act policy s e with
    | none => simp [Survives, run_cons_of_none hact]
    | some next =>
      have hhead := act_within hbase hcap hact
      simp only [Option.map_some, Option.mem_some_iff, forall_eq', ← ih, Option.isSome_some, true_and]
      constructor
      · rintro ⟨pauses, hrun, hwithin⟩
        rw [run_cons_of_some hact] at hrun
        obtain ⟨rest, hrest, rfl⟩ := Option.map_eq_some_iff.mp hrun
        exact ⟨rest, hrest, fun p hp => hwithin p (List.mem_cons_of_mem _ hp)⟩
      · rintro ⟨rest, hrest, hwithin⟩
        refine ⟨next.2 :: rest, by rw [run_cons_of_some hact, hrest]; rfl, ?_⟩
        intro p hp
        rcases List.mem_cons.mp hp with rfl | hp
        · exact hhead
        · exact hwithin p hp

omit [IsStrictOrderedRing K] in
theorem act_attempt_le {policy : BackoffPolicy K} {s : Loop K} {e : Event K} {next : Loop K × Pause K}
    (h : act policy s e = some next) : next.1.attempt ≤ s.attempt + 1 := by
  cases e with
  | leads =>
    cases h
    exact Nat.zero_le _
  | round r =>
    simp only [act, round] at h
    split at h
    · have hdrawn : drawn { s with breaker := (s.breaker.allowsAttempt r.asked).2 } r ≤ s.attempt := by
        unfold drawn
        split
        · exact Nat.zero_le _
        · exact le_rfl
      rw [settle_eq] at h
      split at h
      · cases h
        exact hdrawn.trans (Nat.le_succ _)
      · obtain ⟨delay, -, rfl⟩ := Option.map_eq_some_iff.mp h
        dsimp only
        split <;> omega
    · cases h
      exact Nat.le_succ _

omit [IsStrictOrderedRing K] in
/-- Each event climbs the ladder by one attempt at most. -/
theorem meets_of_length (policy : BackoffPolicy K) {events : List (Event K)} {s : Loop K}
    (h : s.attempt + events.length ≤ 1024) : Lts.Meets (advance policy) Fits s events := by
  induction events generalizing s with
  | nil => trivial
  | cons e es ih =>
    rw [List.length_cons] at h
    refine ⟨?_, ?_⟩
    · cases e with
      | leads => trivial
      | round r =>
        intro _ _ _
        omega
    · intro t ht
      obtain ⟨next, hact, rfl⟩ := Option.map_eq_some_iff.mp ht
      have hattempt := act_attempt_le hact
      exact ih (by omega)

/-- The defaults of the settings. -/
def defaultPolicy : BackoffPolicy Rat := ⟨1 / 2, 60⟩

theorem survives_flaky : Survives defaultPolicy (.start 5 30) flaky :=
  (survives_iff (by decide +kernel) (by decide +kernel) _ _).mpr (meets_of_length _ (by decide))

/-- One second, every hundred seconds: a provider that refuses every session. -/
def refused (n : Nat) : Event Rat := .round (lasting (100 * n) 1 true)

/-- The loop before the `n`th of these sessions. -/
def refusedLoop (n : Nat) : Loop Rat :=
  if n < 5 then ⟨⟨5, 30, .closed, n, 0⟩, n⟩ else ⟨⟨5, 30, .opened, n, 100 * (n - 1) + 1⟩, n⟩

theorem act_refusedLoop (n : Nat) :
    act defaultPolicy (refusedLoop n) (refused n) =
      (defaultPolicy.delay n (1 / 2)).map fun delay => (refusedLoop (n + 1), .slept n delay) := by
  have hhealthy : (lasting (100 * n) 1 true).healthy = false := by
    simp [Round.healthy, lasting, minHealthySession]
  have hsettle : ∀ b : CircuitBreaker Rat, settle defaultPolicy ⟨b, n⟩ (lasting (100 * n) 1 true) =
      (defaultPolicy.delay n (1 / 2)).map fun delay =>
        (⟨b.recordFailure (100 * n + 1), n + 1⟩, .slept n delay) := by
    intro b
    have hrecorded : (lasting (100 * n) 1 true).recorded = 100 * n + 1 := by simp [lasting]
    have hbreaker : breakerAfter b (lasting (100 * n) 1 true) = b.recordFailure (100 * n + 1) := by
      rw [← hrecorded]
      simp [breakerAfter, hhealthy]
    have hdrawn : drawn ⟨b, n⟩ (lasting (100 * n) 1 true) = n := by simp [drawn, hhealthy]
    rw [settle_eq, hbreaker, hdrawn]
    rfl
  by_cases hn : n < 5
  · simp only [act, refused, round, refusedLoop, if_pos hn, CircuitBreaker.allowsAttempt, if_true, hsettle]
    congr 1
    ext1 delay
    by_cases htrip : n + 1 < 5
    · simp [CircuitBreaker.recordFailure, htrip, Nat.not_le.mpr htrip]
    · simp [CircuitBreaker.recordFailure, htrip, Nat.not_lt.mp htrip]
  · have hreset : (30 : Rat) ≤ (lasting (100 * n) 1 true).asked - (100 * (n - 1) + 1) := by
      simp only [lasting]
      push_cast
      linarith
    have htrip : 5 ≤ n + 1 := by omega
    simp only [act, refused, round, refusedLoop, if_neg hn, CircuitBreaker.allowsAttempt, if_pos hreset,
      if_true, hsettle]
    congr 1
    ext1 delay
    simp [CircuitBreaker.recordFailure, htrip, Nat.not_lt.mpr htrip]

/-- Whatever the ladder has come to, the rest of 1025 such sessions ends the process. -/
theorem run_refusedLoop (k : Nat) {n : Nat} (h : n + k = 1024) :
    run defaultPolicy (refusedLoop n) ((List.range' n (k + 1)).map refused) = none := by
  induction k generalizing n with
  | zero =>
    have hraises : defaultPolicy.delay n (1 / 2) = none := by
      rw [BackoffPolicy.delay, powTwo, if_neg (by omega)]
      rfl
    exact run_cons_of_none (by rw [act_refusedLoop, hraises]; rfl)
  | succ k ih =>
    rw [List.range'_succ, List.map_cons]
    cases hdelay : defaultPolicy.delay n (1 / 2) with
    | none => exact run_cons_of_none (by rw [act_refusedLoop, hdelay]; rfl)
    | some delay =>
      have hact : act defaultPolicy (refusedLoop n) (refused n) =
          some (refusedLoop (n + 1), .slept n delay) := by
        rw [act_refusedLoop, hdelay]
        rfl
      rw [run_cons_of_some hact, ih (by omega)]
      rfl

/-- **1025 sessions refused in a row** end the process: the last delay is out of range. -/
theorem not_survives_refused :
    ¬ Survives defaultPolicy (.start 5 30) ((List.range' 0 1025).map refused) := by
  rintro ⟨pauses, hrun, -⟩
  have hstart : (.start 5 30 : Loop Rat) = refusedLoop 0 := rfl
  rw [hstart, run_refusedLoop 1024 (by omega)] at hrun
  cases hrun

end FxTracker.Ingestor.Reconnect
