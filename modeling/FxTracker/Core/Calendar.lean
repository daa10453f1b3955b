import FxTracker.Core.Intervals
import Mathlib.Tactic.Ring

/-!
# Buckets on the time line

The buckets of `bucket_start` follow one another and each is at most as long as `base_count` takes
it. Of a calendar this says that a month is followed by the next one after at most 31 days.

* `dayOfMonth_succ` — the day after is the next of the same month, or the first of one
* `leftEdge_mono`, `leftEdge_bounds` — later times are in later buckets, and where a bucket ends
* `leftEdge_leftEdge` — a bucket that ends with a shorter one
-/

namespace FxTracker.Intervals

/-! ## Days of a month -/

/-- The day of a year that begins in March, from a day of an era of 400 years. -/
def dayOfYear (dayOfEra : Int) : Int :=
  let yearOfEra := (dayOfEra - dayOfEra / 1460 + dayOfEra / 36524 - dayOfEra / 146096) / 365
  dayOfEra - (365 * yearOfEra + yearOfEra / 4 - yearOfEra / 100)

/-- The day of its month, from a day of a year that begins in March. -/
def dayInMonth (dayOfYear : Int) : Int :=
  dayOfYear - (153 * ((5 * dayOfYear + 2) / 153) + 2) / 5 + 1

theorem dayOfMonth_eq (day : Int) :
    dayOfMonth day = dayInMonth (dayOfYear ((day + 719468) % 146097)) := rfl

theorem dayInMonth_bounds (r : Int) : 1 ≤ dayInMonth r ∧ dayInMonth r ≤ 31 := by
  unfold dayInMonth
  omega

theorem dayInMonth_succ (r : Int) :
    dayInMonth (r + 1) = dayInMonth r + 1 ∨ dayInMonth (r + 1) = 1 := by
  unfold dayInMonth
  obtain ⟨m, hm⟩ : ∃ m, m = (5 * r + 2) / 153 := ⟨_, rfl⟩
  obtain ⟨n, hn⟩ : ∃ n, n = (5 * (r + 1) + 2) / 153 := ⟨_, rfl⟩
  rw [← hm, ← hn]
  rcases (by omega : n = m ∨ n = m + 1) with rfl | rfl
  · omega
  · -- a month begins
    omega

/-- A day of an era: centuries, groups of four years, years and days. -/
structure EraDay (e c q s r : Int) : Prop where
  century : 0 ≤ c ∧ c ≤ 3
  group : 0 ≤ q ∧ q ≤ 24
  year : 0 ≤ s ∧ s ≤ 3
  day : 0 ≤ r ∧ r ≤ 365
  leap : r = 365 → s = 3 ∧ (q < 24 ∨ c = 3)
  sum : e = 36524 * c + 1461 * q + 365 * s + r

theorem exists_eraDay {e : Int} (h0 : 0 ≤ e) (h1 : e < 146097) : ∃ c q s r, EraDay e c q s r := by
  obtain ⟨c, hc⟩ : ∃ c, c = min (e / 36524) 3 := ⟨_, rfl⟩
  obtain ⟨q, hq⟩ : ∃ q, q = (e - 36524 * c) / 1461 := ⟨_, rfl⟩
  obtain ⟨s, hs⟩ : ∃ s, s = min ((e - 36524 * c - 1461 * q) / 365) 3 := ⟨_, rfl⟩
  refine ⟨c, q, s, e - 36524 * c - 1461 * q - 365 * s, ?_, ?_, ?_, ?_, ?_, ?_⟩ <;> omega

theorem EraDay.dayOfYear_eq {e c q s r : Int} (h : EraDay e c q s r) : dayOfYear e = r := by
  obtain ⟨hc, hq, hs, hr, hl, he⟩ := h
  -- the leap days of the years before, where the last day of four years counts as one
  obtain ⟨x, hx⟩ : ∃ x, e / 1460 = 25 * c + q + x := ⟨e / 1460 - 25 * c - q, by omega⟩
  have hx0 : 0 ≤ x ∧ x ≤ r := by omega
  have hlast : r = 365 → 1 ≤ x := by omega
  have hcentury : e / 36524 - e / 146096 = c := by
    clear hx hx0 hlast
    rcases (by omega : 1461 * q + 365 * s + r < 36524 ∨ e = 146096 ∧ c = 3) with h | ⟨rfl, rfl⟩
    · have hin : e / 36524 = c := by omega
      have hera : e / 146096 = 0 := by omega
      omega
    · rfl
  have hyear : (e - e / 1460 + e / 36524 - e / 146096) / 365 = 100 * c + 4 * q + s := by
    have hnum : e - e / 1460 + e / 36524 - e / 146096 =
        r - x + 365 * (100 * c + 4 * q + s) := by
      rw [hx, add_sub_assoc, hcentury, he]
      ring
    rw [hnum, Int.add_mul_ediv_left _ _ (by decide), Int.ediv_eq_zero_of_lt (by omega) (by omega),
      zero_add]
  have h4 : (100 * c + 4 * q + s) / 4 = 25 * c + q := by omega
  have h100 : (100 * c + 4 * q + s) / 100 = c := by omega
  have hsub : dayOfYear e = e - (365 * (100 * c + 4 * q + s) + (25 * c + q) - c) := by
    unfold dayOfYear
    rw [hyear]
    dsimp only
    rw [h4, h100]
  rw [hsub, he]
  ring

/-- The day after is the next of the same year, or the first of one. -/
theorem dayOfYear_succ {e : Int} (h0 : 0 ≤ e) (h1 : e < 146096) :
    dayOfYear (e + 1) = dayOfYear e + 1 ∨ dayOfYear (e + 1) = 0 := by
  obtain ⟨c, q, s, r, h⟩ := exists_eraDay h0 (by omega)
  rw [h.dayOfYear_eq]
  obtain ⟨hc, hq, hs, hr, hl, he⟩ := h
  by_cases hin : r + 1 ≤ 364 ∨ r = 364 ∧ s = 3 ∧ (q < 24 ∨ c = 3)
  · exact .inl (EraDay.dayOfYear_eq ⟨hc, hq, hs, by omega, by omega, by omega⟩)
  · refine .inr ?_
    by_cases hs3 : s < 3
    · exact EraDay.dayOfYear_eq (s := s + 1) ⟨hc, hq, by omega, by omega, by omega, by omega⟩
    · by_cases hq24 : q < 24
      · exact EraDay.dayOfYear_eq (q := q + 1) (s := 0)
          ⟨hc, by omega, by omega, by omega, by omega, by omega⟩
      · exact EraDay.dayOfYear_eq (c := c + 1) (q := 0) (s := 0)
          ⟨by omega, by omega, by omega, by omega, by omega, by omega⟩

theorem dayOfMonth_bounds (day : Int) : 1 ≤ dayOfMonth day ∧ dayOfMonth day ≤ 31 :=
  dayInMonth_bounds _

/-- **The day after** is the next of the same month, or the first of one. -/
theorem dayOfMonth_succ (day : Int) :
    dayOfMonth (day + 1) = dayOfMonth day + 1 ∨ dayOfMonth (day + 1) = 1 := by
  obtain ⟨e, he⟩ : ∃ e, e = (day + 719468) % 146097 := ⟨_, rfl⟩
  rw [dayOfMonth_eq, dayOfMonth_eq, ← he]
  by_cases hlast : e < 146096
  · have hnext : (day + 1 + 719468) % 146097 = e + 1 := by omega
    rw [hnext]
    rcases dayOfYear_succ (by omega) hlast with h | h
    · rw [h]
      exact dayInMonth_succ _
    · rw [h]
      exact .inr rfl
  · have hnext : (day + 1 + 719468) % 146097 = 0 := by omega
    rw [hnext]
    exact .inr rfl

/-! ## Left edges -/

/-- `bucket_start` without the bounds of `datetime`. -/
def leftEdge (spec : Interval) (epoch : Int) : Int :=
  match spec.seconds with
  | some seconds => epoch - epoch.fmod seconds
  | none =>
    let day := epoch / 86400
    86400 * (if spec.code = "1w" then day - weekday day else day - (dayOfMonth day - 1))

theorem bucketStart_eq_leftEdge (epoch : Int) (spec : Interval) :
    bucketStart epoch spec =
      if spec.seconds = none → representable epoch = true then some (leftEdge spec epoch) else none := by
  unfold bucketStart leftEdge
  cases spec.seconds <;> simp

/-- What a listed interval is: as long as its base bars, or a week or a month over daily bars. -/
theorem cases_of_mem_intervals {spec : Interval} (h : spec ∈ intervals) :
    spec.seconds = some (perCandle spec * baseSeconds spec.base) ∧ 0 < perCandle spec ∨
      spec.seconds = none ∧ spec.base = .day ∧ perCandle spec = 7 ∧ spec.code = "1w" ∨
      spec.seconds = none ∧ spec.base = .day ∧ perCandle spec = 31 ∧ spec.code ≠ "1w" := by
  have hall : ∀ spec ∈ intervals,
      spec.seconds = some (perCandle spec * baseSeconds spec.base) ∧ 0 < perCandle spec ∨
      spec.seconds = none ∧ spec.base = .day ∧ perCandle spec = 7 ∧ spec.code = "1w" ∨
      spec.seconds = none ∧ spec.base = .day ∧ perCandle spec = 31 ∧ spec.code ≠ "1w" := by
    decide
  exact hall spec h

theorem baseSeconds_pos (base : Base) : 0 < baseSeconds base := by
  cases base <;> decide

theorem leftEdge_of_seconds {spec : Interval} {seconds : Int} (h : spec.seconds = some seconds)
    (hpos : 0 < seconds) (epoch : Int) : leftEdge spec epoch = seconds * (epoch / seconds) := by
  unfold leftEdge
  rw [h]
  dsimp only
  rw [Int.fmod_eq_emod_of_nonneg _ (le_of_lt hpos)]
  have hdiv := Int.emod_add_mul_ediv epoch seconds
  omega

theorem leftEdge_week {spec : Interval} (h : spec.seconds = none) (hcode : spec.code = "1w")
    (epoch : Int) : leftEdge spec epoch = 86400 * (epoch / 86400 - weekday (epoch / 86400)) := by
  unfold leftEdge
  rw [h, hcode]
  rfl

theorem leftEdge_month {spec : Interval} (h : spec.seconds = none) (hcode : spec.code ≠ "1w")
    (epoch : Int) :
    leftEdge spec epoch = 86400 * (epoch / 86400 - (dayOfMonth (epoch / 86400) - 1)) := by
  unfold leftEdge
  rw [h]
  dsimp only
  rw [if_neg hcode]

/-- The first day of a later day's month is no earlier. -/
theorem monthStart_mono {a b : Int} (h : a ≤ b) :
    a - (dayOfMonth a - 1) ≤ b - (dayOfMonth b - 1) := by
  obtain ⟨n, rfl⟩ := Int.le.dest h
  induction n with
  | zero => simp
  | succ n ih =>
    have hprev := ih (by omega)
    have hpos := (dayOfMonth_bounds (a + n)).1
    have hsucc := dayOfMonth_succ (a + n)
    rw [Nat.cast_succ, ← add_assoc]
    omega

/-- **Later times are in later buckets.** -/
theorem leftEdge_mono {spec : Interval} (hspec : spec ∈ intervals) {a b : Int} (h : a ≤ b) :
    leftEdge spec a ≤ leftEdge spec b := by
  rcases cases_of_mem_intervals hspec with ⟨hsec, hper⟩ | ⟨hsec, -, -, hcode⟩ | ⟨hsec, -, -, hcode⟩
  · have hpos : 0 < perCandle spec * baseSeconds spec.base :=
      Int.mul_pos (by exact_mod_cast hper) (baseSeconds_pos _)
    rw [leftEdge_of_seconds hsec hpos, leftEdge_of_seconds hsec hpos]
    exact Int.mul_le_mul_of_nonneg_left (Int.ediv_le_ediv hpos h) (le_of_lt hpos)
  · rw [leftEdge_week hsec hcode, leftEdge_week hsec hcode]
    unfold weekday
    omega
  · rw [leftEdge_month hsec hcode, leftEdge_month hsec hcode]
    have hday : a / 86400 ≤ b / 86400 := by omega
    have hmono := monthStart_mono hday
    omega

/-- **Where a bucket begins and ends**: within as many base bars as `base_count` takes it for. -/
theorem leftEdge_bounds {spec : Interval} (hspec : spec ∈ intervals) (epoch : Int) :
    leftEdge spec epoch ≤ epoch ∧
      epoch < leftEdge spec epoch + perCandle spec * baseSeconds spec.base := by
  rcases cases_of_mem_intervals hspec with ⟨hsec, hper⟩ | ⟨hsec, hbase, hper, hcode⟩ |
    ⟨hsec, hbase, hper, hcode⟩
  · have hpos : 0 < perCandle spec * baseSeconds spec.base :=
      Int.mul_pos (by exact_mod_cast hper) (baseSeconds_pos _)
    rw [leftEdge_of_seconds hsec hpos]
    have hdiv := Int.emod_add_mul_ediv epoch (perCandle spec * baseSeconds spec.base)
    have hnn := Int.emod_nonneg epoch (ne_of_gt hpos)
    have hlt := Int.emod_lt_of_pos epoch hpos
    omega
  · rw [leftEdge_week hsec hcode, hbase, hper]
    simp only [weekday, baseSeconds]
    omega
  · rw [leftEdge_month hsec hcode, hbase, hper]
    have hmonth := dayOfMonth_bounds (epoch / 86400)
    simp only [baseSeconds]
    omega

/-! ## Shorter buckets within longer ones -/

/-- The length of `a` divides that of `b`, or a day where `b` is of the calendar. -/
def Finer (a b : Interval) : Prop :=
  ∃ seconds, a.seconds = some seconds ∧ seconds ∣ b.seconds.getD 86400

theorem pos_of_mem_intervals {spec : Interval} (hspec : spec ∈ intervals) {seconds : Int}
    (hsec : spec.seconds = some seconds) : 0 < seconds := by
  have hall : ∀ spec ∈ intervals, ∀ seconds ∈ spec.seconds, 0 < seconds := by decide
  exact hall spec hspec seconds hsec

/-- Rounding down to a divisor first. -/
theorem floor_ediv {s n : Int} (hs : 0 < s) (h : s ∣ n) (t : Int) : s * (t / s) / n = t / n := by
  obtain ⟨k, rfl⟩ := h
  rw [Int.mul_ediv_mul_of_pos _ _ hs, Int.ediv_ediv_of_nonneg (le_of_lt hs)]

/-- **A bucket of a finer interval** is within one. -/
theorem leftEdge_leftEdge {a b : Interval} (ha : a ∈ intervals) (hb : b ∈ intervals)
    (h : Finer a b) (epoch : Int) : leftEdge b (leftEdge a epoch) = leftEdge b epoch := by
  obtain ⟨s, hs, hdvd⟩ := h
  have hpos := pos_of_mem_intervals ha hs
  rw [leftEdge_of_seconds hs hpos]
  rcases hsec : b.seconds with _ | n
  · rw [hsec, Option.getD_none] at hdvd
    unfold leftEdge
    rw [hsec]
    dsimp only
    rw [floor_ediv hpos hdvd]
  · rw [hsec, Option.getD_some] at hdvd
    have hn := pos_of_mem_intervals hb hsec
    rw [leftEdge_of_seconds hsec hn, leftEdge_of_seconds hsec hn, floor_ediv hpos hdvd]

/-- Its left edge is as much within `datetime` as any time in it. -/
theorem representable_leftEdge {a : Interval} {s : Int} (ha : a ∈ intervals) (hs : a.seconds = some s)
    (hdvd : s ∣ 86400) (epoch : Int) :
    representable (leftEdge a epoch) = representable epoch := by
  have hday := floor_ediv (pos_of_mem_intervals ha hs) hdvd epoch
  rw [← leftEdge_of_seconds hs (pos_of_mem_intervals ha hs)] at hday
  unfold representable
  refine decide_eq_decide.mpr ?_
  omega

end FxTracker.Intervals
