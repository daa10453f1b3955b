import FxTracker.Core.Welford
import FxTracker.Lib.Ascending

/-!
# The rolling window

`RollingWindow` of `fx_core/volatility/buckets.py`: sealed bars, the old ones dropped as later ones
arrive.

* `pushAll_bars` — what is left after a sequence of bars
* `pushAll_exact_iff` — a bar that starts exactly one window before the newest is not dropped
-/

namespace FxTracker

/-- A deque of sealed bars, and how far it reaches back. -/
structure RollingWindow (K : Type) where
  windowSeconds : Int
  bars : List (Bar K)

namespace RollingWindow

variable {K : Type}

/-- `RollingWindow(window_seconds)`. -/
def new (windowSeconds : Int) : RollingWindow K := ⟨windowSeconds, []⟩

/-- `evict`; `none` where the subtraction leaves the years of a `datetime`. -/
def evict (w : RollingWindow K) (now : Int) : Option (RollingWindow K) :=
  let cutoff := now - w.windowSeconds
  if representable cutoff then some { w with bars := w.bars.dropWhile fun bar => bar.bucket < cutoff }
  else none

def push (w : RollingWindow K) (bar : Bar K) : Option (RollingWindow K) :=
  { w with bars := w.bars ++ [bar] }.evict bar.bucket

/-- One push after the other. -/
def pushAll (w : RollingWindow K) (bars : List (Bar K)) : Option (RollingWindow K) := bars.foldlM push w

/-- `welford`: the bars' accumulators, combined. -/
def welford [Zero K] [Add K] [Sub K] [Mul K] [Div K] [NatCast K] [LT K] [DecidableLT K]
    (w : RollingWindow K) : Welford K :=
  w.bars.foldl (fun acc bar => acc.merge (.fromSums bar.tickCount bar.sumRet bar.sumRetSq)) .empty

/-- `sigma`: realised volatility per tick over the window. -/
def sigma [FloatMath K] [LT K] [DecidableLT K] (w : RollingWindow K) : K := w.welford.stdev

/-! ## What a window holds -/

theorem push_eq_some {w w' : RollingWindow K} {bar : Bar K} :
    w.push bar = some w' ↔ representable (bar.bucket - w.windowSeconds) = true ∧
      w' = ⟨w.windowSeconds, (w.bars ++ [bar]).dropWhile fun b => b.bucket < bar.bucket - w.windowSeconds⟩ := by
  unfold push evict
  dsimp only
  split
  · next hdate => rw [Option.some.injEq, eq_comm, and_iff_right hdate]
  · next hdate => simp [hdate]

theorem pushAll_concat (w : RollingWindow K) (bars : List (Bar K)) (bar : Bar K) :
    w.pushAll (bars ++ [bar]) = (w.pushAll bars).bind fun w => w.push bar := by
  simp [pushAll, List.foldlM_append]

variable {seconds : Int} {bars : List (Bar K)} {bar : Bar K}

/-- The window after a sequence of bars: those that start no earlier than the window before the last. -/
theorem pushAll_bars (hascending : (bars ++ [bar]).Pairwise fun x y => x.bucket < y.bucket) :
    (∀ x ∈ bars ++ [bar], representable (x.bucket - seconds) = true) →
    (new seconds).pushAll (bars ++ [bar]) =
      some ⟨seconds, (bars ++ [bar]).filter fun x => bar.bucket - seconds ≤ x.bucket⟩ := by
  intro hdates
  have hlast := hdates bar (by simp)
  have hsorted : (bars ++ [bar]).Pairwise fun x y => x.bucket ≤ y.bucket := hascending.imp fun h => h.le
  rw [pushAll_concat]
  induction bars using List.reverseRecOn generalizing bar with
  | nil =>
    refine push_eq_some.mpr ⟨hlast, ?_⟩
    exact congrArg _ (dropWhile_eq_filter (bar.bucket - seconds) hsorted).symm
  | append_singleton bars prev ih =>
    have hbefore : (bars ++ [prev]).Pairwise fun x y => x.bucket < y.bucket := (List.pairwise_append.mp hascending).1
    have hlt : prev.bucket < bar.bucket := (List.pairwise_append.mp hascending).2.2 prev (by simp) bar (by simp)
    have hdates' : ∀ x ∈ bars ++ [prev], representable (x.bucket - seconds) = true :=
      fun x hx => hdates x (List.mem_append_left _ hx)
    have hkept := ih hbefore hdates' (hdates' prev (by simp)) (hbefore.imp fun h => h.le)
    rw [pushAll_concat, hkept, Option.bind_some]
    refine push_eq_some.mpr ⟨hlast, congrArg _ ?_⟩
    -- what an earlier push has dropped is below the new bound, too
    have hall : (((bars ++ [prev]).filter fun x => prev.bucket - seconds ≤ x.bucket) ++ [bar]).Pairwise
        fun x y => x.bucket ≤ y.bucket := hsorted.sublist (List.filter_sublist.append_right [bar])
    dsimp only
    rw [dropWhile_eq_filter _ hall, List.filter_append, List.filter_append _ [bar], List.filter_filter]
    congr 1
    refine List.filter_congr fun x _ => ?_
    rw [Bool.and_eq_decide, decide_eq_decide, decide_eq_true_eq, decide_eq_true_eq]
    omega

/-- A date that cannot be computed stops the run. -/
theorem representable_of_pushAll {w : RollingWindow K} (h : (new seconds).pushAll bars = some w) :
    w.windowSeconds = seconds ∧ ∀ x ∈ bars, representable (x.bucket - seconds) = true := by
  induction bars using List.reverseRecOn generalizing w with
  | nil => cases h; exact ⟨rfl, fun x hx => absurd hx List.not_mem_nil⟩
  | append_singleton bars bar ih =>
    rw [pushAll_concat] at h
    obtain ⟨w', hw', hpush⟩ := Option.bind_eq_some_iff.mp h
    obtain ⟨hseconds, hdates⟩ := ih hw'
    obtain ⟨hdate, rfl⟩ := push_eq_some.mp hpush
    refine ⟨hseconds, fun x hx => ?_⟩
    rcases List.mem_append.mp hx with hx | hx
    · exact hdates x hx
    · rw [List.mem_singleton.mp hx, ← hseconds]
      exact hdate

/-- **The window holds the last `60 * k` seconds**, and no more than `k` bars, exactly if no bar starts
`60 * k` seconds before the last. -/
theorem pushAll_exact_iff {k : Nat} (hminutes : ∀ x ∈ bars ++ [bar], 60 ∣ x.bucket)
    (hascending : (bars ++ [bar]).Pairwise fun x y => x.bucket < y.bucket) :
    (∃ w, (new (60 * k)).pushAll (bars ++ [bar]) = some w ∧
      w.bars = (bars ++ [bar]).filter (fun x => bar.bucket - 60 * k < x.bucket ∧ x.bucket ≤ bar.bucket) ∧
      w.bars.length ≤ k) ↔
    (∀ x ∈ bars ++ [bar], representable (x.bucket - 60 * k) = true) ∧
      ∀ x ∈ bars ++ [bar], x.bucket ≠ bar.bucket - 60 * k := by
  constructor
  · rintro ⟨w, hw, hbars, -⟩
    have hdates := (representable_of_pushAll hw).2
    refine ⟨hdates, fun x hx heq => ?_⟩
    rw [pushAll_bars hascending hdates, Option.some.injEq] at hw
    subst hw
    dsimp only at hbars
    have hkept : x ∈ (bars ++ [bar]).filter fun x => bar.bucket - 60 * k ≤ x.bucket :=
      List.mem_filter.mpr ⟨hx, by simp [heq]⟩
    rw [hbars, List.mem_filter] at hkept
    simp [heq] at hkept
  · rintro ⟨hdates, hnone⟩
    have hlast : ∀ x ∈ bars ++ [bar], x.bucket ≤ bar.bucket := by
      intro x hx
      rcases List.mem_append.mp hx with hx | hx
      · exact ((List.pairwise_append.mp hascending).2.2 x hx bar (by simp)).le
      · rw [List.mem_singleton.mp hx]
    have hsame : ((bars ++ [bar]).filter fun x => bar.bucket - 60 * k ≤ x.bucket) =
        (bars ++ [bar]).filter fun x => bar.bucket - 60 * k < x.bucket ∧ x.bucket ≤ bar.bucket := by
      refine List.filter_congr fun x hx => ?_
      have hle := hlast x hx
      have hne := hnone x hx
      rw [decide_eq_decide]
      omega
    refine ⟨_, pushAll_bars hascending hdates, hsame, ?_⟩
    have hcutoff : (60 : Int) ∣ bar.bucket - 60 * k := Int.dvd_sub (hminutes bar (by simp)) (Int.dvd_mul_right 60 k)
    refine length_le_of_ascending (by omega : (0 : Int) < 60) (hascending.sublist List.filter_sublist)
      (fun x hx => hminutes x (List.mem_of_mem_filter hx)) hcutoff ?_
    · intro x hx
      have hin := (List.mem_filter.mp (hsame ▸ hx)).2
      simp only [decide_eq_true_eq] at hin
      omega

/-- A minute without a move. -/
def quietMinute (bucket : Int) : Bar Int where
  symbol := "EURUSD"
  bucket
  opening := 1
  high := 1
  low := 1
  close := 1
  tickCount := 1
  sumRet := 0
  sumRetSq := 0
  source := .stream

theorem pushAll_exact_after_pause :
    ∃ w, (new (60 * (1 : Nat))).pushAll ([quietMinute 0] ++ [quietMinute 120]) = some w ∧
      w.bars = ([quietMinute 0] ++ [quietMinute 120]).filter
        (fun x => (quietMinute 120).bucket - 60 * (1 : Nat) < x.bucket ∧ x.bucket ≤ (quietMinute 120).bucket) ∧
      w.bars.length ≤ 1 :=
  (pushAll_exact_iff (by decide) (by decide)).mpr ⟨by decide, by decide⟩

/-- Sixty-one minutes without a pause: the one-hour window drops none of them. -/
theorem hour_keeps_sixty_one :
    let bars := (List.range 61).map fun i => quietMinute (60 * i)
    ((new (60 * 60)).pushAll bars).map RollingWindow.bars = some bars ∧ bars.length = 61 ∧
      (bars.filter fun x => 3600 - 60 * 60 < x.bucket ∧ x.bucket ≤ 3600).length = 60 := by
  decide +kernel

end RollingWindow

end FxTracker
