import Mathlib.Algebra.Ring.Nat
import Mathlib.Tactic.Common

/-!
# The watchdog of a stale feed

A socket can stay open while the feed behind it has stopped. `useForexStream` of
`apps/web/src/hooks/useForexStream.ts` looks every fifteen seconds at the age of the feed's `ts` and asks for
a reconnect where it is too old, less and less often.

* `Outage.OnTime` — how many retries there were, from how many stale checks
* `outage_retries` — the k-th retry of an outage comes at its `due k`-th check that counts
-/

namespace FxTracker.Web

/-- `STALE_AFTER_S`, in milliseconds. -/
def staleAfterMs : Int := 75000

/-- `MAX_BACKOFF_CHECKS`. -/
def maxBackoffChecks : Nat := 20

/-- `ticks` and `waitFor`. -/
structure Watchdog where
  ticks : Nat := 0
  waitFor : Nat := 1
  deriving DecidableEq, Repr

/-- What a check sees: the feed's `ts` and the clock in milliseconds, and `document.hidden`. -/
structure Check where
  ts : Option Int
  now : Int
  hidden : Bool

namespace Check

/-- The feed was heard of lately. -/
def fresh (c : Check) : Bool := c.ts.any fun ts => c.now - ts ≤ staleAfterMs

/-- A check that counts: a stale feed before someone's eyes. -/
def counts (c : Check) : Bool := c.ts.any (fun ts => staleAfterMs < c.now - ts) && !c.hidden

end Check

/-- One check of the interval, and whether it asks for a reconnect. -/
def Watchdog.check (w : Watchdog) (c : Check) : Watchdog × Bool :=
  match c.ts with
  | none => (w, false)
  | some ts =>
    if c.now - ts ≤ staleAfterMs then ({}, false)
    -- a backgrounded tab is not a broken feed
    else if c.hidden then (w, false)
    else if w.ticks + 1 < w.waitFor then ({ w with ticks := w.ticks + 1 }, false)
    else (⟨0, min (w.waitFor * 2) maxBackoffChecks⟩, true)

/-- A watchdog, with the retries and the checks that counted since the feed was last fresh. -/
structure Outage where
  dog : Watchdog := {}
  retries : Nat := 0
  missed : Nat := 0
  deriving DecidableEq, Repr

namespace Outage

def step (o : Outage) (c : Check) : Outage :=
  let r := o.dog.check c
  if c.fresh then ⟨r.1, 0, 0⟩
  else ⟨r.1, if r.2 then o.retries + 1 else o.retries, if c.counts then o.missed + 1 else o.missed⟩

/-- After the checks of a page. -/
def after (checks : List Check) : Outage := checks.foldl step {}

/-- The check of the k-th retry: 1, 3, 7, 15, 31, 51, 71, … -/
def due : Nat → Nat
  | 0 => 0
  | k + 1 => due k + min (2 ^ k) maxBackoffChecks

/-- The wait after `k` retries, and how far it is. -/
structure OnTime (o : Outage) : Prop where
  waitFor : o.dog.waitFor = min (2 ^ o.retries) maxBackoffChecks
  ticks : o.dog.ticks < o.dog.waitFor
  missed : o.missed = due o.retries + o.dog.ticks

theorem doubled (k : Nat) :
    min (min (2 ^ k) maxBackoffChecks * 2) maxBackoffChecks = min (2 ^ (k + 1)) maxBackoffChecks := by
  rw [Nat.pow_succ]
  omega

theorem waits (k : Nat) : 0 < min (2 ^ k) maxBackoffChecks := by
  have hpow : 0 < 2 ^ k := Nat.two_pow_pos k
  exact Nat.lt_min.mpr ⟨hpow, by decide⟩

theorem onTime_fresh : OnTime {} := ⟨by decide, by decide, by decide⟩

/-- What a check does, from what it sees. -/
theorem check_cases (w : Watchdog) (c : Check) :
    (c.fresh = true ∧ c.counts = false ∧ w.check c = ({}, false)) ∨
      (c.fresh = false ∧ c.counts = false ∧ w.check c = (w, false)) ∨
      (c.fresh = false ∧ c.counts = true ∧
        w.check c = if w.ticks + 1 < w.waitFor then ({ w with ticks := w.ticks + 1 }, false)
          else (⟨0, min (w.waitFor * 2) maxBackoffChecks⟩, true)) := by
  unfold Watchdog.check Check.fresh Check.counts
  cases hts : c.ts with
  | none => exact .inr (.inl ⟨rfl, rfl, rfl⟩)
  | some ts =>
    by_cases hfresh : c.now - ts ≤ staleAfterMs
    · have hstale : ¬ staleAfterMs < c.now - ts := by omega
      simp only [Option.any_some, hfresh, hstale, decide_true, decide_false, Bool.false_and, if_true]
      exact .inl ⟨trivial, trivial, trivial⟩
    · have hstale : staleAfterMs < c.now - ts := by omega
      simp only [Option.any_some, hfresh, hstale, decide_true, decide_false, Bool.true_and, if_false]
      cases c.hidden with
      | true => simp
      | false => simp

/-- **One check.** -/
theorem OnTime.step {o : Outage} (h : OnTime o) (c : Check) : OnTime (o.step c) := by
  obtain ⟨hwait, hticks, hmissed⟩ := h
  unfold Outage.step
  rcases check_cases o.dog c with ⟨hfresh, -, hcheck⟩ | ⟨hstale, hskip, hcheck⟩ | ⟨hstale, hcounts, hcheck⟩
  · simp only [hfresh, hcheck, if_true]
    exact onTime_fresh
  · simp only [hstale, hskip, hcheck, Bool.false_eq_true, if_false]
    exact ⟨hwait, hticks, hmissed⟩
  · simp only [hstale, hcounts, hcheck, Bool.false_eq_true, if_false, if_true]
    by_cases hlater : o.dog.ticks + 1 < o.dog.waitFor
    · simp only [if_pos hlater, Bool.false_eq_true, if_false]
      exact ⟨hwait, hlater, by simp only [hmissed]; omega⟩
    · simp only [if_neg hlater, if_true]
      refine ⟨?_, ?_, ?_⟩
      · simp only [hwait, doubled]
      · simp only [hwait, doubled]
        exact waits _
      · simp only [hmissed, due, ← hwait]
        omega

theorem onTime_after (checks : List Check) : OnTime (after checks) := by
  have hrun : ∀ (checks : List Check) (o : Outage), OnTime o → OnTime (checks.foldl Outage.step o) := by
    intro checks
    induction checks with
    | nil => exact fun _ h => h
    | cons c checks ih => exact fun o h => ih _ (h.step c)
  exact hrun checks {} onTime_fresh

/--
**The retries of an outage.**

After any checks, of a feed that comes and goes, before a tab that is hidden at times: there were `k` retries
since the feed was last fresh where `due k` is the last due time reached by the checks that counted. The next
check retries exactly where it counts and reaches the next one, which is never more than twenty away.
-/
theorem outage_retries (checks : List Check) :
    due (after checks).retries ≤ (after checks).missed ∧
      (after checks).missed < due ((after checks).retries + 1) ∧
      due ((after checks).retries + 1) ≤ due (after checks).retries + 20 ∧
      ∀ c : Check, ((after checks).dog.check c).2 = true ↔
        c.counts = true ∧ (after checks).missed + 1 = due ((after checks).retries + 1) := by
  obtain ⟨hwait, hticks, hmissed⟩ := onTime_after checks
  generalize after checks = o at hwait hticks hmissed
  have hnext : due (o.retries + 1) = due o.retries + o.dog.waitFor := by rw [due, hwait]
  have hcap : o.dog.waitFor ≤ 20 := by
    rw [hwait]
    exact Nat.min_le_right ..
  refine ⟨by omega, by omega, by omega, ?_⟩
  intro c
  rcases check_cases o.dog c with ⟨-, hskip, hcheck⟩ | ⟨-, hskip, hcheck⟩ | ⟨-, hcounts, hcheck⟩
  · simp [hskip, hcheck]
  · simp [hskip, hcheck]
  · rw [hcheck, hcounts]
    by_cases hlater : o.dog.ticks + 1 < o.dog.waitFor
    · rw [if_pos hlater]
      simp only [Bool.false_eq_true, true_and, false_iff]
      omega
    · rw [if_neg hlater]
      simp only [true_and, true_iff]
      omega

end Outage

end FxTracker.Web
