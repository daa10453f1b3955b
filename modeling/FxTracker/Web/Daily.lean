import FxTracker.Lib.Ascending
import FxTracker.Lib.Blocks
import FxTracker.Web.Forming
import Mathlib.Algebra.BigOperators.Ring.Finset

/-!
# The 1D series

`apps/web/src/lib/candles.ts`: `dailySeries`. Days before the first minute held are the provider's, the days
since are joined with the minutes, and today is given with how much of it was observed.

* `dayCandle_spec` — the candle of a day, over all that is known of it
* `dailySeries_sound` — no day and no extreme is lost, and the coverage is that of the open minutes that ended
-/

namespace FxTracker.Web.Chart

/-- How much of today's trading there is a minute for. -/
structure Coverage where
  observed : Int
  expected : Int
  deriving DecidableEq, Repr

/-- `openHours`: the market turns on the hour. -/
def openHours (isMarketOpen : Int → Bool) (day : Int) : List Bool :=
  (List.range 24).map fun h : Nat => isMarketOpen (day + h * 3600)

/-- `hours[Math.floor((t - today) / 3_600)]`. -/
def openAt (hours : List Bool) (today t : Int) : Bool :=
  match (t - today) / 3600 with
  | .ofNat h => hours[h]?.getD false
  | .negSucc _ => false

/-- The loop over the hours of today. -/
def expectedOf (hours : List Bool) (today elapsed : Int) : Int :=
  ((List.range 24).map fun h : Nat =>
    let start := today + h * 3600
    if hours[h]?.getD false = true ∧ start < elapsed then (min (start + 3600) elapsed - start) / 60 else 0).sum

variable {K : Type}

/-- The loop over the minutes of today. -/
def observedOf (hours : List Bool) (minutes : List (Candle K)) (today elapsed : Int) : Nat :=
  ((minutes.drop (lowerBound minutes today)).takeWhile fun m => m.t < elapsed).countP fun m => openAt hours today m.t

/-- The forming minute counts where it is over, and not held yet. -/
def formingCounts (hours : List Bool) (minutes : List (Candle K)) (today elapsed : Int) (f : Candle K) : Bool :=
  today ≤ f.t && f.t < elapsed && openAt hours today f.t &&
    (minutes[lowerBound minutes f.t]?.map Candle.t) ≠ some f.t

/-- `for (let day = held; day < today; day += DAY_S)`. -/
def daysFrom (held today : Int) : List Int :=
  (List.range ((today - held + dayS - 1) / dayS).toNat).map fun i : Nat => held + i * dayS

/-- The day of the first minute held, or today. -/
def heldFrom (minutes : List (Candle K)) (today : Int) : Int :=
  minutes.head?.elim today fun m => bucketStart m.t dayS

section

variable [LT K] [DecidableLT K]

/-- `dailySeries`. -/
def dailySeries (isMarketOpen : Int → Bool) (daily minutes : List (Candle K)) (now : Int)
    (forming : Option (Candle K)) : List (Candle K) × Option Coverage :=
  let today := bucketStart now dayS
  let held := heldFrom minutes today
  let past := (daily.filter fun b => b.t < min held today) ++
    (daysFrom held today).filterMap fun day => dayCandle isMarketOpen daily minutes day none true
  let candle := dayCandle isMarketOpen daily minutes today none false
  let elapsed := bucketStart now 60
  let hours := openHours isMarketOpen today
  let expected := expectedOf hours today elapsed
  let observed := observedOf hours minutes today elapsed +
    if forming.any (formingCounts hours minutes today elapsed) then 1 else 0
  (past ++ candle.toList, if candle.isSome || 0 < expected then some ⟨observed, expected⟩ else none)

end

variable {minutes daily : List (Candle K)} {start seconds t : Int}

/-! ## Extremes -/

section Extremes

variable [LinearOrder K] {b c m : Candle K}

/-- All that `b` saw is between the low and the high of `c`. -/
def Covers (c b : Candle K) : Prop := b.h ≤ c.h ∧ c.l ≤ b.l

theorem Covers.rfl : Covers c c := ⟨le_rfl, le_rfl⟩

theorem Covers.trans {a : Candle K} (h : Covers a b) (h' : Covers b c) : Covers a c :=
  ⟨h'.1.trans h.1, h.2.trans h'.2⟩

theorem covers_extend : Covers (Intervals.extend c b) c ∧ Covers (Intervals.extend c b) b := by
  simp [Covers, Intervals.extend, pyMax_eq_max, pyMin_eq_min]

theorem covers_union (hh : c.h = if b.h < m.h then m.h else b.h) (hl : c.l = if m.l < b.l then m.l else b.l) :
    Covers c b ∧ Covers c m := by
  have hmax : c.h = max b.h m.h := hh.trans (pyMax_eq_max b.h m.h)
  have hmin : c.l = min b.l m.l := hl.trans (pyMin_eq_min b.l m.l)
  rw [Covers, Covers, hmax, hmin]
  exact ⟨⟨le_max_left .., min_le_left ..⟩, le_max_right .., min_le_right ..⟩

theorem covers_foldl_extend (c : Candle K) (rest : List (Candle K)) :
    Covers (rest.foldl Intervals.extend c) c ∧ ∀ m ∈ rest, Covers (rest.foldl Intervals.extend c) m := by
  induction rest generalizing c with
  | nil => exact ⟨Covers.rfl, by simp⟩
  | cons m rest ih =>
    obtain ⟨hc, hrest⟩ := ih (Intervals.extend c m)
    refine ⟨hc.trans covers_extend.1, fun x hx => ?_⟩
    rcases List.mem_cons.mp hx with rfl | hx
    · exact hc.trans covers_extend.2
    · exact hrest x hx

/-- The candle of a bucket, over all that is in it. -/
theorem bucketOf_spec (hasc : minutes.Pairwise fun a b => a.t < b.t) (hpos : 0 < seconds) (hne : seconds ≠ 60)
    (hdvd : seconds ∣ start) :
    (bucketOf minutes start seconds none = none → ∀ m ∈ minutes, ¬ (start ≤ m.t ∧ m.t < start + seconds)) ∧
      ∀ c ∈ bucketOf minutes start seconds none, ∀ m ∈ minutes, start ≤ m.t → m.t < start + seconds → Covers c m := by
  have hmem : ∀ m, m ∈ minutes.filter (fun m => start ≤ m.t ∧ m.t < start + seconds) ↔
      m ∈ minutes ∧ start ≤ m.t ∧ m.t < start + seconds := fun m => by simp
  have hfilter : bucketOf minutes start seconds none
      = (foldMinutes (minutes.filter fun m => start ≤ m.t ∧ m.t < start + seconds) seconds).head?.map
          fun candle => { candle with t := start } := bucketOf_eq_filter hasc
  rw [hfilter]
  cases hin : minutes.filter fun m => start ≤ m.t ∧ m.t < start + seconds with
  | nil =>
    rw [hin] at hmem
    simp only [List.not_mem_nil, false_iff] at hmem
    have hfold : foldMinutes ([] : List (Candle K)) seconds = [] := by
      unfold foldMinutes
      split <;> rfl
    rw [hfold]
    exact ⟨fun _ m hm hin => hmem m ⟨hm, hin⟩, by simp⟩
  | cons first rest =>
    rw [hin] at hmem
    have hbucket : ∀ m ∈ first :: rest, m.t - m.t.fmod seconds = start := by
      intro m hm
      obtain ⟨-, hlow, hhigh⟩ := (hmem m).mp hm
      exact sub_fmod_eq hpos hdvd hlow hhigh
    obtain ⟨hfirst, hrest⟩ := covers_foldl_extend { first with t := start } rest
    rw [foldMinutes_bucket hpos hne hbucket, List.head?_cons, Option.map_some]
    refine ⟨by simp, fun c hc m hm hlow hhigh => ?_⟩
    obtain rfl := Option.some.inj hc
    rcases List.mem_cons.mp ((hmem m).mpr ⟨hm, hlow, hhigh⟩) with rfl | hm
    · exact hfirst
    · exact hrest m hm

/-- The candle of a day, over the provider's bar and all minutes of that day. -/
theorem dayCandle_spec {isMarketOpen : Int → Bool} {day : Int} {ended : Bool}
    (hdaily : daily.Pairwise fun a b => a.t < b.t) (hasc : minutes.Pairwise fun a b => a.t < b.t)
    (hday : dayS ∣ day) :
    (dayCandle isMarketOpen daily minutes day none ended = none →
      (∀ b ∈ daily, b.t ≠ day) ∧ ∀ m ∈ minutes, ¬ (day ≤ m.t ∧ m.t < day + dayS)) ∧
    ∀ c ∈ dayCandle isMarketOpen daily minutes day none ended,
      (∀ b ∈ daily, b.t = day → Covers c b) ∧ ∀ m ∈ minutes, day ≤ m.t → m.t < day + dayS → Covers c m := by
  obtain ⟨hnone, hsome⟩ := bucketOf_spec hasc (show 0 < dayS by decide) (by decide) hday
  have hprovider : ∀ b ∈ daily, b.t = day → (daily.find? fun x => x.t = day) = some b := by
    rintro b hb rfl
    exact find?_of_mem hdaily hb
  unfold dayCandle
  dsimp only
  rw [getElem?_lowerBound hdaily day]
  cases hfind : daily.find? fun x => x.t = day with
  | none =>
    have habsent : ∀ b ∈ daily, b.t ≠ day := fun b hb hbt => by
      rw [hprovider b hb hbt] at hfind
      cases hfind
    exact ⟨fun h => ⟨habsent, hnone h⟩, fun c hc => ⟨fun b hb hbt => absurd hbt (habsent b hb), hsome c hc⟩⟩
  | some provider =>
    rw [hfind] at hprovider
    have honly : ∀ b ∈ daily, b.t = day → b = provider := fun b hb hbt => (Option.some.inj (hprovider b hb hbt)).symm
    cases hbucket : bucketOf minutes day dayS none with
    | none =>
      refine ⟨(nomatch ·), fun c hc => ?_⟩
      obtain rfl := Option.some.inj hc
      refine ⟨fun b hb hbt => honly b hb hbt ▸ Covers.rfl, fun m hm hlow hhigh => ?_⟩
      exact absurd ⟨hlow, hhigh⟩ (hnone hbucket m hm)
    | some observed =>
      refine ⟨(nomatch ·), fun c hc => ?_⟩
      replace hc := Option.some.inj hc
      obtain ⟨htheirs, hours⟩ := covers_union (c := c) (b := provider) (m := observed) (hc ▸ rfl) (hc ▸ rfl)
      exact ⟨fun b hb hbt => honly b hb hbt ▸ htheirs,
        fun m hm hlow hhigh => hours.trans (hsome observed hbucket m hm hlow hhigh)⟩

end Extremes

/-! ## The days -/

theorem sixty_dvd_of_day {day : Int} (hday : dayS ∣ day) : 60 ∣ day :=
  (show (60 : Int) ∣ dayS by decide).trans hday

theorem bucketStart_spec (hpos : 0 < seconds) (t : Int) :
    seconds ∣ bucketStart t seconds ∧ bucketStart t seconds ≤ t ∧ t < bucketStart t seconds + seconds := by
  rw [bucketStart_eq_sub_fmod hpos, Int.fmod_eq_emod_of_nonneg _ hpos.le]
  refine ⟨Int.dvd_self_sub_emod, ?_, ?_⟩
  · have := Int.emod_nonneg t hpos.ne'
    omega
  · have := Int.emod_lt_of_pos t hpos
    omega

theorem mem_daysFrom {held today day : Int} (hheld : dayS ∣ held) (htoday : dayS ∣ today) :
    day ∈ daysFrom held today ↔ dayS ∣ day ∧ held ≤ day ∧ day < today := by
  simp only [daysFrom, List.mem_map, List.mem_range, dayS] at *
  constructor
  · rintro ⟨i, hi, rfl⟩
    omega
  · rintro ⟨hday, hlow, hhigh⟩
    exact ⟨((day - held) / 86400).toNat, by omega, by omega⟩

theorem pairwise_daysFrom (held today : Int) : (daysFrom held today).Pairwise (· < ·) := by
  refine List.pairwise_map.mpr (List.pairwise_lt_range.imp fun hlt => ?_)
  simp only [dayS]
  omega

/-- Multiples of a day that differ are a day apart. -/
theorem add_dayS_le {a b : Int} (ha : dayS ∣ a) (hb : dayS ∣ b) (h : a < b) : a + dayS ≤ b := by
  simp only [dayS] at *
  omega

theorem dvd_heldFrom {today : Int} (htoday : dayS ∣ today) : dayS ∣ heldFrom minutes today := by
  unfold heldFrom
  cases minutes with
  | nil => exact htoday
  | cons m rest => exact (bucketStart_spec (by decide) m.t).1

theorem heldFrom_le {today : Int} {m : Candle K} (hasc : minutes.Pairwise fun a b => a.t < b.t) (hm : m ∈ minutes) :
    heldFrom minutes today ≤ m.t := by
  cases minutes with
  | nil => cases hm
  | cons first rest =>
    have hfirst : heldFrom (first :: rest) today ≤ first.t := (bucketStart_spec (by decide) first.t).2.1
    rcases List.mem_cons.mp hm with rfl | hm
    · exact hfirst
    · exact hfirst.trans ((List.pairwise_cons.mp hasc).1 m hm).le

/-! ## The coverage -/

/-- The open minutes of today that are over. -/
def endedMinutes (isMarketOpen : Int → Bool) (today elapsed : Int) : Finset Int :=
  ((Finset.range ((elapsed - today) / 60).toNat).image fun i : Nat => today + 60 * i).filter fun t => isMarketOpen t

section Coverage

variable {isMarketOpen : Int → Bool} {today elapsed : Int}

theorem mem_endedMinutes (htoday : 60 ∣ today) (helapsed : 60 ∣ elapsed) :
    t ∈ endedMinutes isMarketOpen today elapsed ↔ 60 ∣ t ∧ today ≤ t ∧ t < elapsed ∧ isMarketOpen t = true := by
  simp only [endedMinutes, Finset.mem_filter, Finset.mem_image, Finset.mem_range]
  constructor
  · rintro ⟨⟨i, hi, rfl⟩, hopen⟩
    exact ⟨by omega, by omega, by omega, hopen⟩
  · rintro ⟨hminute, hlow, hhigh, hopen⟩
    exact ⟨⟨((t - today) / 60).toNat, by omega, by omega⟩, hopen⟩

theorem getElem?_openHours {h : Nat} (hh : h < 24) :
    (openHours isMarketOpen today)[h]? = some (isMarketOpen (today + h * 3600)) := by
  rw [openHours, List.getElem?_map, List.getElem?_range hh]
  rfl

/-- The minutes of an hour are as many as the hour has, or as are over of it. -/
theorem expectedOf_eq_sum :
    expectedOf (openHours isMarketOpen today) today elapsed = ∑ h ∈ Finset.range 24,
      if isMarketOpen (today + (h : Int) * 3600) = true ∧ today + (h : Int) * 3600 < elapsed then
        (min (today + h * 3600 + 3600) elapsed - (today + h * 3600)) / 60
      else 0 := by
  have hsum : expectedOf (openHours isMarketOpen today) today elapsed = ∑ h ∈ Finset.range 24,
      if (openHours isMarketOpen today)[h]?.getD false = true ∧ today + (h : Int) * 3600 < elapsed then
        (min (today + h * 3600 + 3600) elapsed - (today + h * 3600)) / 60
      else 0 := rfl
  rw [hsum]
  refine Finset.sum_congr rfl fun h hh => ?_
  rw [getElem?_openHours (Finset.mem_range.mp hh), Option.getD_some]

variable (hcalendar : ∀ t, isMarketOpen t = isMarketOpen (t - t % 3600))
include hcalendar

theorem openAt_eq (htoday : dayS ∣ today) (hlow : today ≤ t) (hhigh : t < today + dayS) :
    openAt (openHours isMarketOpen today) today t = isMarketOpen t := by
  simp only [dayS] at htoday hhigh
  obtain ⟨h, hh⟩ : ∃ h : Nat, (t - today) / 3600 = Int.ofNat h := Int.eq_ofNat_of_zero_le (by omega)
  have hof : (Int.ofNat h : Int) = h := rfl
  have hhour : t - t % 3600 = today + h * 3600 := by omega
  unfold openAt
  rw [hh]
  dsimp only
  rw [getElem?_openHours (by omega), Option.getD_some, hcalendar t, hhour]

/-- **What is expected** are the open minutes that are over. -/
theorem card_endedMinutes (htoday : dayS ∣ today) (helapsed : 60 ∣ elapsed) (hlow : today ≤ elapsed)
    (hhigh : elapsed < today + dayS) :
    ((endedMinutes isMarketOpen today elapsed).card : Int) =
      expectedOf (openHours isMarketOpen today) today elapsed := by
  simp only [dayS] at htoday hhigh
  obtain ⟨n, hn⟩ : ∃ n : Nat, elapsed = today + 60 * n := ⟨((elapsed - today) / 60).toNat, by omega⟩
  have hcount : ((elapsed - today) / 60).toNat = n := by omega
  have hinjective : Function.Injective fun i : Nat => today + 60 * (i : Int) := by
    intro i j hij
    dsimp only at hij
    omega
  have hhour : ∀ i : Nat, isMarketOpen (today + 60 * i) = isMarketOpen (today + (i / 60 : Nat) * 3600) := by
    intro i
    rw [hcalendar (today + 60 * i)]
    congr 1
    omega
  have hblocks := card_filter_div (n := n) (k := 24) (show 0 < 60 by decide) (by omega)
    fun h => isMarketOpen (today + h * 3600)
  rw [endedMinutes, hcount, Finset.filter_image, Finset.card_image_of_injective _ hinjective]
  simp only [hhour]
  rw [hblocks, expectedOf_eq_sum, Nat.cast_sum]
  refine Finset.sum_congr rfl fun h _ => ?_
  by_cases hopen : isMarketOpen (today + h * 3600) = true
  · rw [if_pos hopen]
    by_cases hstart : today + (h : Int) * 3600 < elapsed
    · rw [if_pos ⟨hopen, hstart⟩]
      omega
    · rw [if_neg (fun hand => hstart hand.2)]
      omega
  · rw [if_neg hopen, if_neg (fun hand => hopen hand.1)]
    rfl

variable {f : Candle K} {forming : Option (Candle K)} (hasc : minutes.Pairwise fun a b => a.t < b.t)
  (haligned : ∀ m ∈ minutes, 60 ∣ m.t) (htoday : dayS ∣ today) (helapsed : 60 ∣ elapsed)
  (hhigh : elapsed < today + dayS)
include hasc htoday helapsed hhigh

include haligned in
theorem observedOf_eq :
    observedOf (openHours isMarketOpen today) minutes today elapsed
      = ((endedMinutes isMarketOpen today elapsed).filter fun t => t ∈ minutes.map Candle.t).card := by
  obtain ⟨counted, hcounted⟩ : ∃ counted, counted =
      minutes.filter fun m => today ≤ m.t ∧ m.t < elapsed ∧ isMarketOpen m.t = true := ⟨_, rfl⟩
  have hlength : observedOf (openHours isMarketOpen today) minutes today elapsed = counted.length := by
    rw [observedOf, drop_lowerBound hasc, takeWhile_eq_filter elapsed ((hasc.filter _).imp fun hlt => hlt.le),
      List.countP_eq_length_filter, List.filter_filter, List.filter_filter, hcounted]
    congr 1
    refine List.filter_congr fun m _ => ?_
    rw [Bool.eq_iff_iff]
    simp only [Bool.and_eq_true, decide_eq_true_eq]
    constructor
    · rintro ⟨⟨hopen, hend⟩, hlow⟩
      exact ⟨hlow, hend, openAt_eq hcalendar htoday hlow (hend.trans hhigh) ▸ hopen⟩
    · rintro ⟨hlow, hend, hopen⟩
      exact ⟨⟨(openAt_eq hcalendar htoday hlow (hend.trans hhigh)).trans hopen, hend⟩, hlow⟩
  have hnodup : (counted.map Candle.t).Nodup := by
    rw [hcounted]
    exact nodup_keys (hasc.filter _)
  rw [hlength, ← List.length_map (f := Candle.t), ← List.toFinset_card_of_nodup hnodup]
  congr 1
  ext t
  simp only [hcounted, List.mem_toFinset, List.mem_map, List.mem_filter, Finset.mem_filter,
    mem_endedMinutes (sixty_dvd_of_day htoday) helapsed, decide_eq_true_eq]
  constructor
  · rintro ⟨m, ⟨hm, hlow, hhigh, hopen⟩, rfl⟩
    exact ⟨⟨haligned m hm, hlow, hhigh, hopen⟩, m, hm, rfl⟩
  · rintro ⟨⟨-, hlow, hhigh, hopen⟩, m, hm, rfl⟩
    exact ⟨m, ⟨hm, hlow, hhigh, hopen⟩, rfl⟩

theorem formingCounts_iff (hf : 60 ∣ f.t) :
    formingCounts (openHours isMarketOpen today) minutes today elapsed f = true ↔
      f.t ∈ endedMinutes isMarketOpen today elapsed ∧ f.t ∉ minutes.map Candle.t := by
  have hheld : (minutes[lowerBound minutes f.t]?.map Candle.t) ≠ some f.t ↔ f.t ∉ minutes.map Candle.t := by
    refine not_congr ?_
    rw [Option.map_eq_some_iff, List.mem_map]
    constructor
    · rintro ⟨m, hm, ht⟩
      exact ⟨m, List.mem_of_getElem? hm, ht⟩
    · rintro ⟨m, hm, ht⟩
      have hfind := getElem?_lowerBound hasc m.t
      rw [find?_of_mem hasc hm, ht] at hfind
      exact ⟨m, (Option.filter_eq_some_iff.mp hfind).1, ht⟩
  simp only [formingCounts, Bool.and_eq_true, decide_eq_true_eq, hheld,
    mem_endedMinutes (sixty_dvd_of_day htoday) helapsed]
  constructor
  · rintro ⟨⟨⟨hlow, hend⟩, hopen⟩, hnew⟩
    exact ⟨⟨hf, hlow, hend, openAt_eq hcalendar htoday hlow (hend.trans hhigh) ▸ hopen⟩, hnew⟩
  · rintro ⟨⟨-, hlow, hend, hopen⟩, hnew⟩
    exact ⟨⟨⟨hlow, hend⟩, (openAt_eq hcalendar htoday hlow (hend.trans hhigh)).trans hopen⟩, hnew⟩

include haligned in
/-- **What is observed** are the open minutes that are over, and held or the forming one. -/
theorem observed_eq (hforming : ∀ f ∈ forming, 60 ∣ f.t) :
    observedOf (openHours isMarketOpen today) minutes today elapsed +
        (if forming.any (formingCounts (openHours isMarketOpen today) minutes today elapsed) = true then 1 else 0)
      = ((endedMinutes isMarketOpen today elapsed).filter fun t =>
          t ∈ minutes.map Candle.t ∨ forming.map Candle.t = some t).card := by
  rw [observedOf_eq hcalendar hasc haligned htoday helapsed hhigh]
  cases forming with
  | none => simp
  | some f =>
    have hiff := formingCounts_iff hcalendar hasc htoday helapsed hhigh (hforming f rfl)
    rw [Option.any_some, Option.map_some]
    by_cases hcounts : formingCounts (openHours isMarketOpen today) minutes today elapsed f = true
    · obtain ⟨hin, hnew⟩ := hiff.mp hcounts
      rw [if_pos hcounts, ← Finset.card_insert_of_notMem fun h => hnew (Finset.mem_filter.mp h).2]
      congr 1
      ext t
      simp only [Finset.mem_insert, Finset.mem_filter, Option.some.injEq]
      constructor
      · rintro (rfl | ⟨ht, hheld⟩)
        · exact ⟨hin, .inr rfl⟩
        · exact ⟨ht, .inl hheld⟩
      · rintro ⟨ht, hheld | rfl⟩
        · exact .inr ⟨ht, hheld⟩
        · exact .inl rfl
    · rw [if_neg hcounts, Nat.add_zero]
      congr 1
      refine Finset.filter_congr fun t ht => ⟨.inl, ?_⟩
      rintro (hheld | heq)
      · exact hheld
      · by_contra hnew
        obtain rfl := Option.some.inj heq
        exact hcounts (hiff.mpr ⟨ht, hnew⟩)

end Coverage

section Series

variable [LinearOrder K] {isMarketOpen : Int → Bool} {now : Int} {forming : Option (Candle K)} {c : Candle K}

theorem mem_bars :
    c ∈ (dailySeries isMarketOpen daily minutes now forming).1 ↔
      (c ∈ daily ∧ c.t < min (heldFrom minutes (bucketStart now dayS)) (bucketStart now dayS)) ∨
      (∃ day, (dayS ∣ day ∧ heldFrom minutes (bucketStart now dayS) ≤ day ∧ day < bucketStart now dayS) ∧
        dayCandle isMarketOpen daily minutes day none true = some c) ∨
      dayCandle isMarketOpen daily minutes (bucketStart now dayS) none false = some c := by
  have htoday : dayS ∣ bucketStart now dayS := (bucketStart_spec (by decide) now).1
  simp only [dailySeries, List.mem_append, List.mem_filter, List.mem_filterMap, Option.mem_toList,
    mem_daysFrom (dvd_heldFrom htoday) htoday, decide_eq_true_eq, or_assoc]

variable (hdaily : daily.Pairwise fun a b => a.t < b.t) (hmidnight : ∀ b ∈ daily, dayS ∣ b.t)
  (hasc : minutes.Pairwise fun a b => a.t < b.t)

include hmidnight in
/-- Every candle is of one day. -/
theorem dvd_of_mem_bars (hc : c ∈ (dailySeries isMarketOpen daily minutes now forming).1) : dayS ∣ c.t := by
  rcases mem_bars.mp hc with ⟨hmem, -⟩ | ⟨day, ⟨hday, -⟩, hcandle⟩ | hcandle
  · exact hmidnight c hmem
  · exact dayCandle_t hcandle ▸ hday
  · exact dayCandle_t hcandle ▸ (bucketStart_spec (by decide) now).1

include hdaily in
/-- The candles ascend. -/
theorem pairwise_bars : (dailySeries isMarketOpen daily minutes now forming).1.Pairwise fun a b => a.t < b.t := by
  have htoday : dayS ∣ bucketStart now dayS := (bucketStart_spec (by decide) now).1
  have hmem : ∀ day, day ∈ daysFrom (heldFrom minutes (bucketStart now dayS)) (bucketStart now dayS) ↔ _ :=
    fun day => mem_daysFrom (dvd_heldFrom htoday) htoday
  have hearlier : ∀ a ∈ daily.filter
      (fun b => b.t < min (heldFrom minutes (bucketStart now dayS)) (bucketStart now dayS)),
      a.t < heldFrom minutes (bucketStart now dayS) ∧ a.t < bucketStart now dayS := fun a ha => by
    simpa using (List.mem_filter.mp ha).2
  refine List.pairwise_append.mpr ⟨List.pairwise_append.mpr ⟨hdaily.filter _, ?_, ?_⟩, ?_, ?_⟩
  · refine (pairwise_daysFrom _ _).filterMap _ ?_
    intro a b hlt x hx y hy
    rwa [dayCandle_t hx, dayCandle_t hy]
  · intro a ha b hb
    obtain ⟨day, hday, hcandle⟩ := List.mem_filterMap.mp hb
    rw [dayCandle_t hcandle]
    exact (hearlier a ha).1.trans_le ((hmem day).mp hday).2.1
  · cases dayCandle isMarketOpen daily minutes (bucketStart now dayS) none false <;> simp
  · intro a ha b hb
    rw [dayCandle_t (Option.mem_toList.mp hb)]
    rcases List.mem_append.mp ha with ha | ha
    · exact (hearlier a ha).2
    · obtain ⟨day, hday, hcandle⟩ := List.mem_filterMap.mp ha
      rw [dayCandle_t hcandle]
      exact ((hmem day).mp hday).2.2

include hdaily hasc

/-- A day up to today that anything is known of has its candle. -/
theorem exists_bar {day : Int} (hday : dayS ∣ day) (hle : day ≤ bucketStart now dayS)
    (hknown : (∃ b ∈ daily, b.t = day) ∨ ∃ m ∈ minutes, day ≤ m.t ∧ m.t < day + dayS) :
    ∃ c ∈ (dailySeries isMarketOpen daily minutes now forming).1, c.t = day := by
  have hcandle : ∀ ended, ∃ c, dayCandle isMarketOpen daily minutes day none ended = some c := by
    intro ended
    cases h : dayCandle isMarketOpen daily minutes day none ended with
    | some c => exact ⟨c, rfl⟩
    | none =>
      obtain ⟨hnobar, hnominute⟩ := (dayCandle_spec hdaily hasc hday).1 h
      rcases hknown with ⟨b, hb, hbt⟩ | ⟨m, hm, hin⟩
      · exact absurd hbt (hnobar b hb)
      · exact absurd hin (hnominute m hm)
  rcases hle.lt_or_eq with hlt | rfl
  · by_cases hheld : heldFrom minutes (bucketStart now dayS) ≤ day
    · obtain ⟨c, hc⟩ := hcandle true
      exact ⟨c, mem_bars.mpr (.inr (.inl ⟨day, ⟨hday, hheld, hlt⟩, hc⟩)), dayCandle_t hc⟩
    · -- a day before the first minute
      rcases hknown with ⟨b, hb, rfl⟩ | ⟨m, hm, -, hhigh⟩
      · exact ⟨b, mem_bars.mpr (.inl ⟨hb, lt_min (not_le.mp hheld) hlt⟩), rfl⟩
      · have hheldday := add_dayS_le hday (dvd_heldFrom (bucketStart_spec (by decide) now).1) (not_le.mp hheld)
        exact absurd (heldFrom_le hasc hm) (not_le.mpr (hhigh.trans_le hheldday))
  · obtain ⟨c, hc⟩ := hcandle false
    exact ⟨c, mem_bars.mpr (.inr (.inr hc)), dayCandle_t hc⟩

include hmidnight

/-- A candle is over all that is known of its day. -/
theorem covers_of_mem_bars (hc : c ∈ (dailySeries isMarketOpen daily minutes now forming).1) :
    (∀ b ∈ daily, b.t = c.t → Covers c b) ∧ ∀ m ∈ minutes, c.t ≤ m.t → m.t < c.t + dayS → Covers c m := by
  have htoday : dayS ∣ bucketStart now dayS := (bucketStart_spec (by decide) now).1
  rcases mem_bars.mp hc with ⟨hmem, hlt⟩ | ⟨day, ⟨hday, -⟩, hcandle⟩ | hcandle
  · refine ⟨fun b hb hbt => ?_, fun m hm _ hhigh => ?_⟩
    · have hfind := find?_of_mem hdaily hmem
      rw [← hbt, find?_of_mem hdaily hb] at hfind
      exact Option.some.inj hfind ▸ Covers.rfl
    · have hheldday := add_dayS_le (hmidnight c hmem) (dvd_heldFrom htoday) (lt_min_iff.mp hlt).1
      exact absurd (heldFrom_le hasc hm) (not_le.mpr (hhigh.trans_le hheldday))
  · rw [dayCandle_t hcandle]
    exact (dayCandle_spec hdaily hasc hday).2 c hcandle
  · rw [dayCandle_t hcandle]
    exact (dayCandle_spec hdaily hasc htoday).2 c hcandle

omit hdaily hmidnight in
/-- The coverage counts the open minutes of today that are over. -/
theorem coverage_spec (hcalendar : ∀ t, isMarketOpen t = isMarketOpen (t - t % 3600))
    (haligned : ∀ m ∈ minutes, 60 ∣ m.t) (hforming : ∀ f ∈ forming, 60 ∣ f.t) {coverage : Coverage}
    (hcoverage : (dailySeries isMarketOpen daily minutes now forming).2 = some coverage) :
    coverage.observed ≤ coverage.expected ∧
      (coverage.observed = coverage.expected ↔
        ∀ t, 60 ∣ t → bucketStart now dayS ≤ t → t + 60 ≤ now → isMarketOpen t = true →
          (∃ m ∈ minutes, m.t = t) ∨ ∃ f ∈ forming, f.t = t) := by
  obtain ⟨htoday, hnow, hbefore⟩ := bucketStart_spec (show 0 < dayS by decide) now
  obtain ⟨helapsed, hended, hforming'⟩ := bucketStart_spec (show (0 : Int) < 60 by decide) now
  have hminute := sixty_dvd_of_day htoday
  have hlow : bucketStart now dayS ≤ bucketStart now 60 := by omega
  have hhigh : bucketStart now 60 < bucketStart now dayS + dayS := hended.trans_lt hbefore
  have hobserved := observed_eq hcalendar hasc haligned htoday helapsed hhigh hforming
  have hexpected := card_endedMinutes hcalendar htoday helapsed hlow hhigh
  rw [dailySeries] at hcoverage
  dsimp only at hcoverage
  rw [hobserved, ← hexpected] at hcoverage
  have heq := Option.ite_none_right_eq_some.mp hcoverage
  obtain rfl := Option.some.inj heq.2
  dsimp only
  refine ⟨Int.ofNat_le.mpr (Finset.card_filter_le _ _), ?_⟩
  rw [Int.natCast_inj, Finset.card_filter_eq_iff]
  constructor
  · intro h t ht hstart hend hopen
    have hcounted := h t ((mem_endedMinutes hminute helapsed).mpr ⟨ht, hstart, by omega, hopen⟩)
    exact hcounted.imp List.mem_map.mp Option.map_eq_some_iff.mp
  · intro h t ht
    obtain ⟨hdvd, hstart, hend, hopen⟩ := (mem_endedMinutes hminute helapsed).mp ht
    exact (h t hdvd hstart (by omega) hopen).imp List.mem_map.mpr Option.map_eq_some_iff.mpr

/-- **The daily series**: its candles ascend and there is one a day at most, every day of the provider has one, a
candle is over all that is known of its day, and the coverage is complete exactly where every open minute of
today that ended is held or forming. -/
theorem dailySeries_sound (hcalendar : ∀ t, isMarketOpen t = isMarketOpen (t - t % 3600))
    (hpast : ∀ b ∈ daily, b.t ≤ bucketStart now dayS)
    (haligned : ∀ m ∈ minutes, 60 ∣ m.t) (hforming : ∀ f ∈ forming, 60 ∣ f.t) :
    (dailySeries isMarketOpen daily minutes now forming).1.Pairwise (fun a b => a.t < b.t) ∧
    ((dailySeries isMarketOpen daily minutes now forming).1.map fun c => c.t / dayS).Nodup ∧
    (∀ b ∈ daily, ∃ c ∈ (dailySeries isMarketOpen daily minutes now forming).1, c.t = b.t) ∧
    (∀ m ∈ minutes, m.t / dayS ≤ now / dayS →
      ∃ c ∈ (dailySeries isMarketOpen daily minutes now forming).1, c.t / dayS = m.t / dayS) ∧
    (∀ c ∈ (dailySeries isMarketOpen daily minutes now forming).1,
      (∀ b ∈ daily, b.t = c.t → b.h ≤ c.h ∧ c.l ≤ b.l) ∧
      ∀ m ∈ minutes, m.t / dayS = c.t / dayS → m.h ≤ c.h ∧ c.l ≤ m.l) ∧
    ∀ coverage ∈ (dailySeries isMarketOpen daily minutes now forming).2,
      coverage.observed ≤ coverage.expected ∧
        (coverage.observed = coverage.expected ↔
          ∀ t, 60 ∣ t → bucketStart now dayS ≤ t → t + 60 ≤ now → isMarketOpen t = true →
            (∃ m ∈ minutes, m.t = t) ∨ ∃ f ∈ forming, f.t = t) := by
  have hascending : (dailySeries isMarketOpen daily minutes now forming).1.Pairwise fun a b => a.t < b.t :=
    pairwise_bars hdaily
  refine ⟨hascending, ?_, fun b hb => ?_, fun m hm hle => ?_, fun c hc => ?_, fun coverage hcoverage => ?_⟩
  · refine List.pairwise_map.mpr ((List.Pairwise.and_mem.mp hascending).imp ?_)
    intro a b ⟨ha, hb, hlt⟩
    have hapart := add_dayS_le (dvd_of_mem_bars hmidnight ha) (dvd_of_mem_bars hmidnight hb) hlt
    simp only [dayS] at *
    omega
  · exact exists_bar hdaily hasc (hmidnight b hb) (hpast b hb) (.inl ⟨b, hb, rfl⟩)
  · obtain ⟨htoday, hnow, hbefore⟩ := bucketStart_spec (show 0 < dayS by decide) now
    obtain ⟨hday, hlow, hhigh⟩ := bucketStart_spec (show 0 < dayS by decide) m.t
    have hpassed : bucketStart m.t dayS ≤ bucketStart now dayS := by
      simp only [dayS] at *
      omega
    obtain ⟨c, hc, hct⟩ := exists_bar hdaily hasc hday hpassed (.inr ⟨m, hm, hlow, hhigh⟩)
    refine ⟨c, hc, ?_⟩
    simp only [dayS] at *
    omega
  · obtain ⟨htheirs, hours⟩ := covers_of_mem_bars hdaily hmidnight hasc hc
    have hday := dvd_of_mem_bars hmidnight hc
    refine ⟨htheirs, fun m hm hsame => hours m hm ?_ ?_⟩ <;> simp only [dayS] at * <;> omega
  · exact coverage_spec hasc hcalendar haligned hforming hcoverage

end Series

/-- `isMarketOpen` of `lib/market.ts` while New York is five hours behind: from Sunday to Friday, 17:00. -/
def openInWinter (t : Int) : Bool :=
  let dow := ((t - 18000) / 86400 + 4) % 7
  let minutes := (t - 18000) % 86400 / 60
  if dow = 5 then minutes < 17 * 60 else if dow = 6 then false else if dow = 0 then 17 * 60 ≤ minutes else true

theorem openInWinter_hour (t : Int) : openInWinter t = openInWinter (t - t % 3600) := by
  have hday : (t - t % 3600 - 18000) / 86400 = (t - 18000) / 86400 := by omega
  have hbefore : (t - t % 3600 - 18000) % 86400 / 60 < 17 * 60 ↔ (t - 18000) % 86400 / 60 < 17 * 60 := by omega
  have hafter : 17 * 60 ≤ (t - t % 3600 - 18000) % 86400 / 60 ↔ 17 * 60 ≤ (t - 18000) % 86400 / 60 := by omega
  simp only [openInWinter, hday, hbefore, hafter]

def fridayMinutes : List (Candle Int) :=
  [⟨86280, 2, 9, 2, 3, 5, "stream"⟩, ⟨86400, 3, 3, 3, 3, 1, "stream"⟩, ⟨86460, 3, 4, 3, 4, 2, "stream"⟩,
    ⟨86580, 4, 4, 2, 2, 3, "stream"⟩]

/-- The second day of 1970, a Friday, at 0:05: of its five minutes one is missing. -/
theorem dailySeries_friday :
    dailySeries openInWinter [⟨0, 1, 4, 1, 2, 0, "backfill"⟩] fridayMinutes 86700
        (some ⟨86640, 2, 2, 2, 2, 1, "stream"⟩)
      = ([⟨0, 1, 9, 1, 2, 5, "mixed"⟩, ⟨86400, 3, 4, 2, 2, 6, "stream"⟩], some ⟨4, 5⟩) ∧
    ∀ coverage ∈ (dailySeries openInWinter [⟨0, 1, 4, 1, 2, 0, "backfill"⟩] fridayMinutes 86700
        (some ⟨86640, 2, 2, 2, 2, 1, "stream"⟩)).2, coverage.observed ≤ coverage.expected :=
  ⟨by decide +kernel, fun coverage hcoverage =>
    ((dailySeries_sound (by decide) (by decide) (by decide) openInWinter_hour (by decide) (by decide)
      (by decide)).2.2.2.2.2 coverage hcoverage).1⟩

end FxTracker.Web.Chart
