import Mathlib.Data.Int.Order.Basic
import Mathlib.Order.Basic

/-!
# The trading week

`fx_core/calendar/fx_sessions.py`: the market is open from Sunday 17:00 to Friday 17:00 New York time.
Instants and local times are microseconds. What a zone does to its clock is a parameter: whole-hour
offsets that change at 02:00 on Sundays.

* `Zone.le_toLocal` — the clock never goes back over a weekly boundary
* `Zone.lt_fromLocal_iff` — a boundary is one instant, and splits time as it splits the local times
* `sessions_exact` — `next_open` and `next_close`
-/

namespace FxTracker.Sessions

def hour : Int := 3600000000

def day : Int := 86400000000

/-- `weekday()`: Monday is 0. The first local day is a Thursday. -/
def weekday (wall : Int) : Int := (wall / day + 3) % 7

/-- `time()`. -/
def timeOfDay (wall : Int) : Int := wall % day

/-- `_WEEK_OPEN_DAY`: Sunday. -/
def weekOpenDay : Int := 6

/-- `_WEEK_CLOSE_DAY`: Friday. -/
def weekCloseDay : Int := 4

/-- `_SATURDAY`. -/
def saturday : Int := 5

/-- `_WEEK_BOUNDARY`. -/
def weekBoundary : Int := 17 * hour

/-- The time of one weekday's boundary. -/
def IsBoundary (dow wall : Int) : Prop := weekday wall = dow ∧ timeOfDay wall = weekBoundary

instance (dow wall : Int) : Decidable (IsBoundary dow wall) :=
  inferInstanceAs (Decidable (_ ∧ _))

/-- 02:00 on a Sunday. -/
def IsChange (wall : Int) : Prop := weekday wall = weekOpenDay ∧ timeOfDay wall = 2 * hour

/-- A time zone with whole-hour offsets. They differ by 14 hours at most, and change at 02:00 on Sundays by
the clock before the change. New York's are -5 and -4. -/
structure Zone where
  /-- The offset from UTC at an instant, in hours. -/
  offset : Int → Int
  lo : Int
  offset_mem : ∀ u, lo ≤ offset u ∧ offset u ≤ lo + 14
  changes : ∀ u, offset (u + 1) ≠ offset u → IsChange (u + 1 + offset u * hour)
  /-- `astimezone(UTC)` of a local time. Of one that the clock skips or repeats nothing is assumed. -/
  fromLocal : Int → Int
  fromLocal_eq : ∀ u, (∀ v, v + offset v * hour = u + offset u * hour → v = u) →
    fromLocal (u + offset u * hour) = u

/-- `date()` and `time()` at a local day and its boundary: the next such day, today included, and a week later
where that is not after `wall`. -/
def nextBoundary (dow wall : Int) : Int :=
  let days := (dow - weekday wall) % 7
  let candidate := (wall / day + days) * day + weekBoundary
  if candidate ≤ wall then candidate + 7 * day else candidate

/-- Whether a local time is within the trading week. -/
def openAt (wall : Int) : Bool :=
  if weekday wall = weekCloseDay then timeOfDay wall < weekBoundary
  else if weekday wall = saturday then false
  else if weekday wall = weekOpenDay then weekBoundary ≤ timeOfDay wall
  else true

namespace Zone

variable (z : Zone)

/-- `astimezone(NY)`. -/
def toLocal (u : Int) : Int := u + z.offset u * hour

/-- `is_market_open`. -/
def isMarketOpen (ts : Int) : Bool := openAt (z.toLocal ts)

/-- `next_close`. -/
def nextClose (ts : Int) : Int := z.fromLocal (nextBoundary weekCloseDay (z.toLocal ts))

/-- `next_open`. -/
def nextOpen (ts : Int) : Int :=
  if z.isMarketOpen ts then ts else z.fromLocal (nextBoundary weekOpenDay (z.toLocal ts))

end Zone

/-! ## Local times -/

/-- The time since Monday 00:00. -/
def sinceMonday (wall : Int) : Int := (wall + 3 * day) % (7 * day)

theorem isBoundary_iff {dow wall : Int} (h : 0 ≤ dow ∧ dow < 7) :
    IsBoundary dow wall ↔ sinceMonday wall = dow * day + weekBoundary := by
  unfold IsBoundary sinceMonday weekday timeOfDay weekBoundary day hour
  omega

theorem isChange_iff {wall : Int} : IsChange wall ↔ sinceMonday wall = 6 * day + 2 * hour := by
  unfold IsChange sinceMonday weekday timeOfDay weekOpenDay day hour
  omega

theorem openAt_iff {wall : Int} :
    openAt wall = true ↔ sinceMonday wall < 4 * day + weekBoundary ∨ 6 * day + weekBoundary ≤ sinceMonday wall := by
  unfold openAt sinceMonday weekday timeOfDay weekBoundary weekCloseDay saturday weekOpenDay day hour
  split_ifs <;> simp <;> omega

/-- **The next boundary** is the only one of its weekday within the week after. -/
theorem nextBoundary_spec {dow : Int} (h : 0 ≤ dow ∧ dow < 7) (wall : Int) :
    IsBoundary dow (nextBoundary dow wall) ∧ wall < nextBoundary dow wall ∧
      nextBoundary dow wall ≤ wall + 7 * day := by
  rw [isBoundary_iff h]
  simp only [nextBoundary, sinceMonday, weekday, weekBoundary, day, hour]
  split_ifs <;> omega

/-- The boundaries of the week are more than 14 hours from any change of the clock. -/
theorem far_of_isChange {dow c wall : Int} (hdow : dow = weekCloseDay ∨ dow = weekOpenDay)
    (hc : IsBoundary dow c) (hwall : IsChange wall) : wall + 14 * hour < c ∨ c + 14 * hour < wall := by
  rw [isBoundary_iff (by unfold weekCloseDay weekOpenDay at hdow; omega)] at hc
  rw [isChange_iff] at hwall
  unfold sinceMonday weekBoundary day hour weekCloseDay weekOpenDay at *
  omega

/-- Two boundaries of a weekday are a week apart, or more. -/
theorem le_of_isBoundary {dow b c : Int} (h : 0 ≤ dow ∧ dow < 7) (hb : IsBoundary dow b)
    (hc : IsBoundary dow c) (hlt : b < c) : b + 7 * day ≤ c := by
  rw [isBoundary_iff h] at hb hc
  unfold sinceMonday weekBoundary day hour at *
  omega

/-- In the week before a close, the market is open from the Sunday on. -/
theorem openAt_iff_of_close {c wall : Int} (hc : IsBoundary weekCloseDay c)
    (hwall : wall < c ∧ c ≤ wall + 7 * day) : openAt wall = true ↔ c - 5 * day ≤ wall := by
  rw [isBoundary_iff (by decide)] at hc
  rw [openAt_iff]
  unfold sinceMonday weekBoundary day hour weekCloseDay at *
  omega

/-- In the week before an open, the market is closed from the Friday on. -/
theorem openAt_iff_of_open {c wall : Int} (hc : IsBoundary weekOpenDay c)
    (hwall : wall < c ∧ c ≤ wall + 7 * day) : openAt wall = true ↔ wall < c - 2 * day := by
  rw [isBoundary_iff (by decide)] at hc
  rw [openAt_iff]
  unfold sinceMonday weekBoundary day hour weekOpenDay at *
  omega

theorem isBoundary_open_before {c : Int} (hc : IsBoundary weekCloseDay c) :
    IsBoundary weekOpenDay (c - 5 * day) := by
  rw [isBoundary_iff (by decide)] at hc ⊢
  unfold sinceMonday weekBoundary day hour weekOpenDay weekCloseDay at *
  omega

theorem isBoundary_close_before {c : Int} (hc : IsBoundary weekOpenDay c) :
    IsBoundary weekCloseDay (c - 2 * day) := by
  rw [isBoundary_iff (by decide)] at hc ⊢
  unfold sinceMonday weekBoundary day hour weekOpenDay weekCloseDay at *
  omega

theorem openAt_boundary {c : Int} :
    (IsBoundary weekCloseDay c → openAt c = false) ∧ (IsBoundary weekOpenDay c → openAt c = true) := by
  constructor
  · intro hc
    rw [isBoundary_iff (by decide)] at hc
    rw [← Bool.not_eq_true, openAt_iff, hc]
    decide
  · intro hc
    rw [isBoundary_iff (by decide)] at hc
    rw [openAt_iff, hc]
    decide

/-! ## The clock over a boundary -/

namespace Zone

variable (z : Zone) {dow c u v : Int}

theorem toLocal_eq (u : Int) : z.toLocal u = u + z.offset u * hour := rfl

/-- **The clock never goes back** over a boundary of the week. -/
theorem le_toLocal (hdow : dow = weekCloseDay ∨ dow = weekOpenDay) (hc : IsBoundary dow c) (floor : Int)
    (hfloor : c ≤ floor ∧ floor ≤ c + 1) (hu : floor ≤ z.toLocal u) (huv : u ≤ v) :
    floor ≤ z.toLocal v := by
  obtain ⟨n, rfl⟩ := Int.le.dest huv
  clear huv
  induction n with
  | zero => simpa using hu
  | succ n ih =>
    have hstep : u + (n + 1 : Nat) = u + n + 1 := by omega
    rw [hstep]
    by_cases hsame : z.offset (u + n + 1) = z.offset (u + n)
    · rw [toLocal_eq] at ih ⊢
      rw [hsame]
      omega
    · -- the clock changes, too late after the boundary to go back over it
      have hchange := z.changes (u + n) hsame
      have hold := z.offset_mem (u + n)
      have hnew := z.offset_mem (u + n + 1)
      rw [toLocal_eq] at ih ⊢
      rcases far_of_isChange hdow hc hchange with hfar | hfar
      · unfold hour at *
        omega
      · unfold hour at *
        omega

/-- A boundary comes once: later, the clock is past it. -/
theorem lt_toLocal (hdow : dow = weekCloseDay ∨ dow = weekOpenDay) (hc : IsBoundary dow c)
    (hu : z.toLocal u = c) (huv : u < v) : c < z.toLocal v := by
  have hnext : z.toLocal (u + 1) = c + 1 := by
    by_cases hsame : z.offset (u + 1) = z.offset u
    · rw [toLocal_eq] at hu ⊢
      rw [hsame]
      omega
    · rw [toLocal_eq] at hu
      have hfar := far_of_isChange hdow hc (z.changes u hsame)
      unfold hour at *
      omega
  exact z.le_toLocal hdow hc (c + 1) ⟨by omega, le_rfl⟩ hnext.ge huv

theorem eq_of_toLocal_eq (hdow : dow = weekCloseDay ∨ dow = weekOpenDay) (hc : IsBoundary dow c)
    (hu : z.toLocal u = c) (hv : z.toLocal v = c) : u = v := by
  rcases lt_trichotomy u v with hlt | heq | hlt
  · have hpast := z.lt_toLocal hdow hc hu hlt
    omega
  · exact heq
  · have hpast := z.lt_toLocal hdow hc hv hlt
    omega

/-- And it does come: from 14 hours before, the clock runs up to it unchanged. -/
theorem exists_toLocal_eq (hdow : dow = weekCloseDay ∨ dow = weekOpenDay) (hc : IsBoundary dow c) :
    ∃ u, z.toLocal u = c := by
  obtain ⟨u, hu⟩ : ∃ u, u = c - (z.lo + 14) * hour := ⟨_, rfl⟩
  obtain ⟨left, hleft⟩ : ∃ left, left = z.lo + 14 - z.offset u := ⟨_, rfl⟩
  have hmem := z.offset_mem u
  have hsame : ∀ n : Nat, (n : Int) ≤ left * hour → z.offset (u + n) = z.offset u := by
    intro n
    induction n with
    | zero => simp
    | succ n ih =>
      intro hn
      have hprev := ih (by omega)
      have hstep : u + (n + 1 : Nat) = u + n + 1 := by omega
      rw [hstep, ← hprev]
      by_contra hne
      have hfar := far_of_isChange hdow hc (z.changes (u + n) hne)
      rw [hprev] at hfar
      unfold hour at *
      omega
  obtain ⟨n, hn⟩ := Int.eq_ofNat_of_zero_le (show 0 ≤ left * hour by unfold hour; omega)
  refine ⟨u + left * hour, ?_⟩
  rw [toLocal_eq, hn, hsame n hn.ge]
  unfold hour at *
  omega

/-! ## A boundary as an instant -/

/-- The instant of a boundary. -/
theorem toLocal_fromLocal (hdow : dow = weekCloseDay ∨ dow = weekOpenDay) (hc : IsBoundary dow c) :
    z.toLocal (z.fromLocal c) = c := by
  obtain ⟨u, hu⟩ := z.exists_toLocal_eq hdow hc
  have hfrom : z.fromLocal (z.toLocal u) = u :=
    z.fromLocal_eq u fun v hv => z.eq_of_toLocal_eq hdow hc (hv.trans hu) hu
  rw [hu] at hfrom
  rw [hfrom]
  exact hu

/-- **A boundary splits time** as it splits the local times. -/
theorem lt_fromLocal_iff (hdow : dow = weekCloseDay ∨ dow = weekOpenDay) (hc : IsBoundary dow c) :
    v < z.fromLocal c ↔ z.toLocal v < c := by
  have hcome := z.toLocal_fromLocal hdow hc
  constructor
  · intro hlt
    by_contra hge
    rcases Int.lt_or_eq_of_le (Int.not_lt.mp hge) with hpast | heq
    · have hstay := z.le_toLocal hdow hc (c + 1) ⟨by omega, le_rfl⟩ hpast hlt.le
      omega
    · have hsame := z.eq_of_toLocal_eq hdow hc heq.symm hcome
      omega
  · intro hlt
    by_contra hge
    have hstay := z.le_toLocal hdow hc c ⟨le_rfl, by omega⟩ hcome.ge (Int.not_lt.mp hge)
    omega

/-! ## The next close and the next open -/

/-- What `next_close` and `next_open` look for: the first boundary of a weekday after a time. -/
theorem fromLocal_nextBoundary (hdow : dow = weekCloseDay ∨ dow = weekOpenDay) (ts : Int) :
    ts < z.fromLocal (nextBoundary dow (z.toLocal ts)) ∧
      IsBoundary dow (z.toLocal (z.fromLocal (nextBoundary dow (z.toLocal ts)))) ∧
      ∀ v, ts < v → IsBoundary dow (z.toLocal v) → z.fromLocal (nextBoundary dow (z.toLocal ts)) ≤ v := by
  have hrange : 0 ≤ dow ∧ dow < 7 := by
    unfold weekCloseDay weekOpenDay at hdow
    omega
  obtain ⟨hc, hlt, hle⟩ := nextBoundary_spec hrange (z.toLocal ts)
  refine ⟨(z.lt_fromLocal_iff hdow hc).mpr hlt, ?_, ?_⟩
  · rw [z.toLocal_fromLocal hdow hc]
    exact hc
  · intro v hv hboundary
    by_contra hbefore
    have hearlier := (z.lt_fromLocal_iff hdow hc).mp (Int.not_le.mp hbefore)
    have hsame : z.fromLocal (z.toLocal v) = v :=
      z.eq_of_toLocal_eq hdow hboundary (z.toLocal_fromLocal hdow hboundary) rfl
    rw [← hsame, z.lt_fromLocal_iff hdow hboundary] at hv
    have hweek := le_of_isBoundary hrange hboundary hc hearlier
    omega

/-- Open now, the market stays open until the close. -/
theorem open_until_close {ts : Int} (hopen : z.isMarketOpen ts = true) :
    (∀ v, ts ≤ v → v < z.nextClose ts → z.isMarketOpen v = true) ∧
      z.isMarketOpen (z.nextClose ts) = false := by
  obtain ⟨hc, hlt, hle⟩ := nextBoundary_spec (show 0 ≤ weekCloseDay ∧ weekCloseDay < 7 by decide) (z.toLocal ts)
  have hfrom := (openAt_iff_of_close hc ⟨hlt, hle⟩).mp hopen
  constructor
  · intro v hv hbefore
    have hlocal := (z.lt_fromLocal_iff (.inl rfl) hc).mp hbefore
    have hstay := z.le_toLocal (.inr rfl) (isBoundary_open_before hc) _ ⟨le_rfl, by omega⟩ hfrom hv
    exact (openAt_iff_of_close hc ⟨hlocal, by unfold day at *; omega⟩).mpr hstay
  · unfold isMarketOpen nextClose
    rw [z.toLocal_fromLocal (.inl rfl) hc]
    exact openAt_boundary.1 hc

/-- Closed now, it stays closed until the open. -/
theorem closed_until_open {ts : Int} (hclosed : z.isMarketOpen ts = false) :
    ts < z.nextOpen ts ∧ z.isMarketOpen (z.nextOpen ts) = true ∧
      ∀ v, ts ≤ v → v < z.nextOpen ts → z.isMarketOpen v = false := by
  obtain ⟨hc, hlt, hle⟩ := nextBoundary_spec (show 0 ≤ weekOpenDay ∧ weekOpenDay < 7 by decide) (z.toLocal ts)
  have hnext : z.nextOpen ts = z.fromLocal (nextBoundary weekOpenDay (z.toLocal ts)) := by
    simp [nextOpen, hclosed]
  have hfrom : nextBoundary weekOpenDay (z.toLocal ts) - 2 * day ≤ z.toLocal ts := by
    by_contra hbefore
    have hopen := (openAt_iff_of_open hc ⟨hlt, hle⟩).mpr (Int.not_le.mp hbefore)
    rw [isMarketOpen, hopen] at hclosed
    cases hclosed
  rw [hnext]
  refine ⟨(z.lt_fromLocal_iff (.inr rfl) hc).mpr hlt, ?_, ?_⟩
  · unfold isMarketOpen
    rw [z.toLocal_fromLocal (.inr rfl) hc]
    exact openAt_boundary.2 hc
  · intro v hv hbefore
    have hlocal := (z.lt_fromLocal_iff (.inr rfl) hc).mp hbefore
    have hstay := z.le_toLocal (.inl rfl) (isBoundary_close_before hc) _ ⟨le_rfl, by omega⟩ hfrom hv
    unfold isMarketOpen
    rw [← Bool.not_eq_true, openAt_iff_of_open hc ⟨hlocal, by unfold day at *; omega⟩]
    omega

end Zone

/--
**The boundaries are exact.**

`next_open` is the earliest instant from `ts` on at which the market is open, `next_close` the earliest
Friday 17:00 after it. A market that is open stays open until then, and is closed at that instant.
-/
theorem sessions_exact (z : Zone) (ts : Int) :
    (ts ≤ z.nextOpen ts ∧ z.isMarketOpen (z.nextOpen ts) = true ∧
        ∀ v, ts ≤ v → z.isMarketOpen v = true → z.nextOpen ts ≤ v) ∧
      (ts < z.nextClose ts ∧ IsBoundary weekCloseDay (z.toLocal (z.nextClose ts)) ∧
        ∀ v, ts < v → IsBoundary weekCloseDay (z.toLocal v) → z.nextClose ts ≤ v) ∧
      (z.isMarketOpen ts = true →
        (∀ v, ts ≤ v → v < z.nextClose ts → z.isMarketOpen v = true) ∧
          z.isMarketOpen (z.nextClose ts) = false) := by
  refine ⟨?_, z.fromLocal_nextBoundary (.inl rfl) ts, z.open_until_close⟩
  cases hopen : z.isMarketOpen ts with
  | true =>
    have hnext : z.nextOpen ts = ts := by simp [Zone.nextOpen, hopen]
    rw [hnext]
    exact ⟨le_rfl, hopen, fun v hv _ => hv⟩
  | false =>
    obtain ⟨hlt, hnext, hclosed⟩ := z.closed_until_open hopen
    refine ⟨hlt.le, hnext, ?_⟩
    intro v hv hopenv
    by_contra hbefore
    rw [hclosed v hv (Int.not_le.mp hbefore)] at hopenv
    cases hopenv

/-- New York in 2026: summer time from 8 March 07:00 to 1 November 06:00 UTC. Of a local time that comes
twice `fromLocal` takes the first. -/
def newYork2026 : Zone where
  offset u := if 1772953200 * 1000000 ≤ u ∧ u < 1793512800 * 1000000 then -4 else -5
  lo := -5
  offset_mem u := by split <;> decide
  changes u h := by
    rw [isChange_iff]
    unfold sinceMonday day hour
    split at h <;> split at h <;> omega
  fromLocal wall :=
    if 1772938800 * 1000000 ≤ wall ∧ wall < 1793498400 * 1000000 then wall + 4 * hour else wall + 5 * hour
  fromLocal_eq u h := by
    -- in the hour that comes twice, `h` fails at the first time
    have hfirst := h (u - hour)
    unfold hour at *
    split at hfirst <;> split <;> split <;> omega

/-- The weekends of both changes: from Saturday 12:00 UTC the market opens at 21:00 and at 22:00. -/
example : newYork2026.nextOpen (1772884800 * 1000000) = 1773003600 * 1000000 ∧
    newYork2026.nextOpen (1793448000 * 1000000) = 1793570400 * 1000000 := by decide +kernel

end FxTracker.Sessions
