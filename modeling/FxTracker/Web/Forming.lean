import FxTracker.Web.LiveCandle
import FxTracker.Lib.Ascending
import FxTracker.Lib.Grouping
import Mathlib.Data.List.Find

/-!
# The candle it will seal as

`paintLive` draws `extend(bucketOf(minutes, start, seconds, f.t), f, start)` where a full fold of the
minutes and the forming one would have its last candle. The slice of the binary search holds the
minutes of that candle, whatever was before them.

* `lowerBound_spec` — the minutes before an index are earlier, the others are not
* `bucketOf_eq_filter` — the slice of a bucket is its minutes
* `extend_bucketOf` — the live candle is the last one of the full fold
-/

namespace FxTracker.Web.Chart

variable {K : Type} {minutes : List (Candle K)} {start seconds t : Int}

/-! ## The binary search -/

/-- One round keeps what is known of both sides. -/
theorem search_spec (hasc : minutes.Pairwise fun a b => a.t < b.t) (t : Int) {rounds lo hi : Nat}
    (hrounds : hi ≤ lo + rounds) (hhi : hi ≤ minutes.length)
    (hbefore : ∀ i < lo, ∀ m ∈ minutes[i]?, m.t < t)
    (hafter : ∀ i, hi ≤ i → ∀ m ∈ minutes[i]?, t ≤ m.t) :
    (∀ i < search minutes t rounds lo hi, ∀ m ∈ minutes[i]?, m.t < t) ∧
      ∀ i, search minutes t rounds lo hi ≤ i → ∀ m ∈ minutes[i]?, t ≤ m.t := by
  induction rounds generalizing lo hi with
  | zero => exact ⟨hbefore, fun i hi => hafter i (hrounds.trans hi)⟩
  | succ rounds ih =>
    unfold search
    by_cases hlt : lo < hi
    · obtain ⟨mid, hmid⟩ : ∃ mid, mid = (lo + hi) / 2 := ⟨_, rfl⟩
      have hin : mid < minutes.length := by omega
      have hget : minutes[mid]? = some minutes[mid] := List.getElem?_eq_getElem hin
      have hsorted : ∀ (i j : Nat) (m m' : Candle K), i ≤ j → m ∈ minutes[i]? → m' ∈ minutes[j]? →
          m.t ≤ m'.t := by
        intro i j m m' hij hm hm'
        rcases Nat.eq_or_lt_of_le hij with rfl | hij
        · rw [Option.some.inj (hm.symm.trans hm')]
        · obtain ⟨hi, rfl⟩ := List.getElem?_eq_some_iff.mp hm
          obtain ⟨hj, rfl⟩ := List.getElem?_eq_some_iff.mp hm'
          exact le_of_lt (List.pairwise_iff_getElem.mp hasc i j hi hj hij)
      rw [if_pos hlt]
      dsimp only
      rw [← hmid, hget, Option.any_some]
      by_cases hless : minutes[mid].t < t
      · rw [if_pos (decide_eq_true hless)]
        refine ih (by omega) hhi (fun i hi m hm => ?_) hafter
        exact lt_of_le_of_lt (hsorted i mid _ _ (by omega) hm hget) hless
      · rw [if_neg (by simpa using hless)]
        refine ih (by omega) (by omega) hbefore fun i hi m hm => ?_
        exact (not_lt.mp hless).trans (hsorted mid i _ _ hi hget hm)
    · rw [if_neg hlt]
      exact ⟨hbefore, fun i hi => hafter i (by omega)⟩

/-- **The index of the first minute** at or after `t`: the minutes before it are earlier. -/
theorem lowerBound_spec (hasc : minutes.Pairwise fun a b => a.t < b.t) (t : Int) :
    (∀ m ∈ minutes.take (lowerBound minutes t), m.t < t) ∧
      ∀ m ∈ minutes.drop (lowerBound minutes t), t ≤ m.t := by
  obtain ⟨hbefore, hafter⟩ := search_spec hasc t (show minutes.length ≤ 0 + minutes.length by omega) le_rfl
    (fun i hi => absurd hi (Nat.not_lt_zero i))
    (fun i hi m hm => by rw [List.getElem?_eq_none hi] at hm; cases hm)
  refine ⟨fun m hm => ?_, fun m hm => ?_⟩
  · obtain ⟨i, hi, rfl⟩ := List.mem_take_iff_getElem.mp hm
    obtain ⟨hlow, hin⟩ := Nat.lt_min.mp hi
    exact hbefore i hlow _ (List.getElem?_eq_getElem hin)
  · obtain ⟨i, hi, rfl⟩ := List.mem_drop_iff_getElem.mp hm
    exact hafter (lowerBound minutes t + i) (Nat.le_add_right ..) _ (List.getElem?_eq_getElem _)

/-! ## Slices -/

section Slices

variable (hasc : minutes.Pairwise fun a b => a.t < b.t)
include hasc

theorem take_lowerBound (t : Int) : minutes.take (lowerBound minutes t) = minutes.filter fun m => m.t < t := by
  obtain ⟨hbefore, hafter⟩ := lowerBound_spec hasc t
  conv_rhs => rw [← List.take_append_drop (lowerBound minutes t) minutes]
  have hnone : (minutes.drop (lowerBound minutes t)).filter (fun m => m.t < t) = [] := by
    refine List.filter_eq_nil_iff.mpr fun m hm => ?_
    simpa using hafter m hm
  rw [List.filter_append, hnone, List.append_nil, List.filter_eq_self.mpr]
  exact fun m hm => decide_eq_true (hbefore m hm)

theorem drop_lowerBound (t : Int) : minutes.drop (lowerBound minutes t) = minutes.filter fun m => t ≤ m.t := by
  obtain ⟨hbefore, hafter⟩ := lowerBound_spec hasc t
  conv_rhs => rw [← List.take_append_drop (lowerBound minutes t) minutes]
  have hnone : (minutes.take (lowerBound minutes t)).filter (fun m => t ≤ m.t) = [] := by
    refine List.filter_eq_nil_iff.mpr fun m hm => ?_
    simpa using hbefore m hm
  rw [List.filter_append, hnone, List.nil_append, List.filter_eq_self.mpr]
  exact fun m hm => decide_eq_true (hafter m hm)

/-- The one of a time, if there is one. -/
theorem getElem?_lowerBound (t : Int) :
    (minutes[lowerBound minutes t]?.filter fun m => m.t = t) = minutes.find? fun m => m.t = t := by
  have hfind : minutes.find? (fun m => m.t = t) = (minutes.filter fun m => t ≤ m.t).find? fun m => m.t = t := by
    rw [List.find?_filter]
    refine List.find?_congr fun m _ => ?_
    rw [Bool.eq_iff_iff]
    simpa using fun heq => heq.ge
  have hhead : minutes[lowerBound minutes t]? = (minutes.filter fun m => t ≤ m.t).head? := by
    rw [← drop_lowerBound hasc, List.head?_drop]
  rw [hfind, hhead]
  have hlater := hasc.filter fun m => decide (t ≤ m.t)
  have hle : ∀ m ∈ minutes.filter fun m => t ≤ m.t, t ≤ m.t := fun m hm => by simpa using (List.mem_filter.mp hm).2
  cases hrest : minutes.filter fun m => t ≤ m.t with
  | nil => rfl
  | cons m rest =>
    rw [hrest] at hlater hle
    by_cases hm : m.t = t
    · simp [hm]
    · have hnone : rest.find? (fun m => m.t = t) = none := by
        refine List.find?_eq_none.mpr fun x hx => ?_
        have hlt := (List.pairwise_cons.mp hlater).1 x hx
        have hmt := hle m List.mem_cons_self
        simp only [decide_eq_true_eq]
        omega
      simp [hm, hnone]

theorem find?_of_mem {m : Candle K} (hm : m ∈ minutes) : (minutes.find? fun x => x.t = m.t) = some m := by
  cases hfind : minutes.find? fun x => x.t = m.t with
  | none => exact absurd (decide_eq_true rfl) (List.find?_eq_none.mp hfind m hm)
  | some x =>
    have hx : x.t = m.t := by simpa using List.find?_some hfind
    rw [eq_of_key_eq hasc (List.mem_of_find?_eq_some hfind) hm hx]

variable [LT K] [DecidableLT K]

/-- **The slice of a bucket** is its minutes. -/
theorem bucketOf_eq_filter {before : Option Int} :
    bucketOf minutes start seconds before =
      (foldMinutes (minutes.filter fun m => start ≤ m.t ∧ m.t < endOf start seconds before) seconds).head?.map
        fun candle => { candle with t := start } := by
  obtain ⟨last, hlast⟩ : ∃ last, last = lowerBound minutes (endOf start seconds before) := ⟨_, rfl⟩
  have htake := take_lowerBound hasc (endOf start seconds before)
  rw [← hlast] at htake
  have hslice : minutes.extract (lowerBound minutes start) last
      = minutes.filter fun m => start ≤ m.t ∧ m.t < endOf start seconds before := by
    obtain ⟨hbefore, hafter⟩ := lowerBound_spec hasc start
    have hsplit := List.take_append_drop (lowerBound minutes start) (minutes.take last)
    have hearlier : ((minutes.take last).take (lowerBound minutes start)).filter (fun m => start ≤ m.t) = [] := by
      refine List.filter_eq_nil_iff.mpr fun m hm => ?_
      rw [List.take_take, Nat.min_comm, ← List.take_take] at hm
      simpa using hbefore m (List.mem_of_mem_take hm)
    have hinside : ((minutes.take last).drop (lowerBound minutes start)).filter (fun m => start ≤ m.t)
        = (minutes.take last).drop (lowerBound minutes start) := by
      refine List.filter_eq_self.mpr fun m hm => ?_
      rw [List.drop_take] at hm
      exact decide_eq_true (hafter m (List.mem_of_mem_take hm))
    calc minutes.extract (lowerBound minutes start) last
        = (minutes.take last).drop (lowerBound minutes start) := by rw [List.extract_eq_take_drop, List.drop_take]
      _ = (minutes.take last).filter fun m => start ≤ m.t := by
        conv_rhs => rw [← hsplit, List.filter_append, hearlier, hinside, List.nil_append]
      _ = minutes.filter fun m => start ≤ m.t ∧ m.t < endOf start seconds before := by
        rw [htake, List.filter_filter]
        exact List.filter_congr fun m _ => by simp
  unfold bucketOf
  dsimp only
  rw [← hlast, ← hslice]
  split
  · next hle =>
    rw [List.extract_eq_take_drop, Nat.sub_eq_zero_of_le hle, List.take_zero]
    unfold foldMinutes
    split <;> rfl
  · rfl

end Slices

section

variable [LT K] [DecidableLT K]

/-- The slice, where all the minutes are before its end. -/
theorem bucketOf_eq (hasc : minutes.Pairwise fun a b => a.t < b.t) {before : Option Int}
    (hend : ∀ m ∈ minutes, m.t < endOf start seconds before) :
    bucketOf minutes start seconds before =
      (foldMinutes (minutes.drop (lowerBound minutes start)) seconds).head?.map fun candle =>
        { candle with t := start } := by
  have hinside : (minutes.filter fun m => start ≤ m.t ∧ m.t < endOf start seconds before)
      = minutes.filter fun m => start ≤ m.t :=
    List.filter_congr fun m hm => by simp [hend m hm]
  rw [bucketOf_eq_filter hasc, drop_lowerBound hasc, hinside]

/-- The times of a bucket. -/
theorem sub_fmod_eq (hpos : 0 < seconds) (hdvd : seconds ∣ start) (hle : start ≤ t)
    (hlt : t < start + seconds) : t - t.fmod seconds = start := by
  have hmod : t.fmod seconds = t - start := by
    rw [Int.fmod_eq_emod_of_nonneg _ (le_of_lt hpos)]
    calc t % seconds = (t - start) % seconds := by
          rw [Int.sub_emod, Int.emod_eq_zero_of_dvd hdvd, Int.sub_zero, Int.emod_emod]
      _ = t - start := Int.emod_eq_of_lt (by omega) (by omega)
  omega

theorem t_foldl_extend (c : Candle K) (rest : List (Candle K)) :
    (rest.foldl Intervals.extend c).t = c.t := by
  induction rest generalizing c with
  | nil => rfl
  | cons m rest ih => exact ih (Intervals.extend c m)

/-- Minutes of one bucket fold to one candle. -/
theorem foldMinutes_bucket (hpos : 0 < seconds) (hne : seconds ≠ 60) {m : Candle K}
    {rest : List (Candle K)} (h : ∀ b ∈ m :: rest, b.t - b.t.fmod seconds = start) :
    foldMinutes (m :: rest) seconds = [rest.foldl Intervals.extend { m with t := start }] := by
  have hm := h m (List.mem_cons_self ..)
  have hkeys : ∀ b ∈ rest.map (Intervals.restamp seconds),
      b.t = (Intervals.restamp seconds m).t := by
    intro b hb
    obtain ⟨r, hr, rfl⟩ := List.mem_map.mp hb
    exact (h r (List.mem_cons_of_mem _ hr)).trans hm.symm
  rw [foldMinutes_eq_rollup hpos hne, List.map_cons, rollup_of_forall Intervals.t_extend hkeys,
    List.foldl_map]
  unfold Intervals.restamp
  rw [hm]
  rfl

/-- Minutes with a bucket beginning between them fold separately. -/
theorem foldMinutes_append (hpos : 0 < seconds) (hne : seconds ≠ 60) {xs ys : List (Candle K)}
    (hxs : ∀ m ∈ xs, m.t < start) (hys : ∀ m ∈ ys, m.t - m.t.fmod seconds = start) :
    foldMinutes (xs ++ ys) seconds = foldMinutes xs seconds ++ foldMinutes ys seconds := by
  rw [foldMinutes_eq_rollup hpos hne, foldMinutes_eq_rollup hpos hne, foldMinutes_eq_rollup hpos hne,
    List.map_append]
  refine rollup_append Intervals.t_extend fun a ha b hb => ?_
  obtain ⟨x, hx, rfl⟩ := List.mem_map.mp (List.mem_of_getLast? ha)
  obtain ⟨y, hy, rfl⟩ := List.mem_map.mp (List.mem_of_mem_head? hb)
  have hlt := hxs x hx
  have heq := hys y hy
  have hmod := Int.fmod_nonneg_of_pos x.t hpos
  show x.t - x.t.fmod seconds ≠ y.t - y.t.fmod seconds
  omega

/-- A candle from the minutes and the forming one, as the fold extends it. -/
theorem extend_eq_extend {f : Candle K} (hsrc : f.src = "stream") (base : Candle K) (start : Int) :
    extend (some base) f start = Intervals.extend { base with t := start } f := by
  unfold extend Intervals.extend pyMax pyMin
  rw [hsrc]
  by_cases h : base.src = "stream"
  · simp [h]
  · simp [h]

/-- **The live candle** is the last candle of the minutes and the forming one. -/
theorem extend_bucketOf (hasc : minutes.Pairwise fun a b => a.t < b.t) {f : Candle K}
    (hnew : ∀ m ∈ minutes, m.t < f.t) (hf : 60 ∣ f.t) (hsrc : f.src = "stream")
    (hpos : 0 < seconds) :
    (foldMinutes (minutes ++ [f]) seconds).getLast? =
      some (extend (bucketOf minutes (bucketStart f.t seconds) seconds (some f.t)) f
        (bucketStart f.t seconds)) := by
  obtain ⟨start, hstart⟩ : ∃ start, start = f.t - f.t.fmod seconds := ⟨_, rfl⟩
  have hmod := Int.fmod_nonneg_of_pos f.t hpos
  have hmodlt := Int.fmod_lt_of_pos f.t hpos
  have hdvd : seconds ∣ start := by
    rw [hstart, Int.fmod_eq_emod_of_nonneg _ (le_of_lt hpos)]
    exact Int.dvd_self_sub_emod
  have hend : endOf start seconds (some f.t) = f.t := by
    show min (start + seconds) f.t = f.t
    exact min_eq_right (by omega)
  rw [bucketStart_eq_sub_fmod hpos, ← hstart, bucketOf_eq hasc fun m hm => by rw [hend]; exact hnew m hm]
  -- the minutes before the bucket fold on their own
  obtain ⟨hbefore, hafter⟩ := lowerBound_spec hasc start
  have hsplit := List.take_append_drop (lowerBound minutes start) minutes
  generalize minutes.take (lowerBound minutes start) = older at hbefore hsplit
  generalize minutes.drop (lowerBound minutes start) = inside at hafter hsplit ⊢
  subst hsplit
  have hlater : ∀ m ∈ inside, m.t < f.t := fun m hm => hnew m (List.mem_append_right _ hm)
  by_cases hminute : seconds = 60
  · -- one minute a candle, and none but the forming one is in its bucket
    subst hminute
    have hft : start = f.t := by
      rw [hstart, Int.fmod_eq_emod_of_nonneg _ (by decide)]
      omega
    have hnone : inside = [] := by
      refine List.eq_nil_iff_forall_not_mem.mpr fun m hm => ?_
      exact absurd (hlater m hm) (not_lt.mpr (hft ▸ hafter m hm))
    rw [hnone, foldMinutes, if_pos rfl, List.getLast?_concat, hft]
    simp only [foldMinutes, if_pos, List.head?_nil, Option.map_none, extend, ← hsrc]
  · have hbucket : ∀ m ∈ inside ++ [f], m.t - m.t.fmod seconds = start := by
      intro m hm
      rcases List.mem_append.mp hm with hm | hm
      · have hlow := hafter m hm
        have hhigh := hlater m hm
        exact sub_fmod_eq hpos hdvd hlow (by omega)
      · rw [List.mem_singleton.mp hm, hstart]
    rw [List.append_assoc, foldMinutes_append hpos hminute hbefore hbucket]
    cases inside with
    | nil =>
      rw [List.nil_append, foldMinutes_bucket hpos hminute hbucket, List.getLast?_concat]
      simp only [foldMinutes, if_neg hminute, List.foldl_nil, List.nil_append, Option.toList_none,
        List.head?_nil, Option.map_none, extend, ← hsrc]
    | cons m rest =>
      have hclosed := foldMinutes_bucket hpos hminute fun b (hb : b ∈ m :: rest) =>
        hbucket b (List.mem_append_left _ hb)
      have hwhole : foldMinutes (m :: (rest ++ [f])) seconds = _ :=
        foldMinutes_bucket hpos hminute hbucket
      rw [List.cons_append, hwhole, hclosed, List.getLast?_concat, List.foldl_concat,
        List.head?_cons, Option.map_some]
      have ht : (rest.foldl Intervals.extend { m with t := start }).t = start := t_foldl_extend _ rest
      generalize rest.foldl Intervals.extend { m with t := start } = base at ht
      rw [extend_eq_extend hsrc]
      cases base
      cases ht
      rfl

/-- The second minute of three is provider history, the first is of another candle. -/
def sampleMinutes : List (Candle Int) :=
  [⟨120, 1, 1, 1, 1, 1, "stream"⟩, ⟨180, 2, 3, 2, 2, 0, "backfill"⟩]

theorem extend_bucketOf_sample :
    extend (bucketOf sampleMinutes 180 180 (some 300)) ⟨300, 4, 5, 1, 5, 7, "stream"⟩ 180 =
      ⟨180, 2, 5, 1, 5, 7, "mixed"⟩ ∧
    (foldMinutes (sampleMinutes ++ [⟨300, 4, 5, 1, 5, 7, "stream"⟩]) 180).getLast? =
      some (extend (bucketOf sampleMinutes (bucketStart 300 180) 180 (some 300))
        ⟨300, 4, 5, 1, 5, 7, "stream"⟩ (bucketStart 300 180)) :=
  ⟨by decide, extend_bucketOf (f := ⟨300, 4, 5, 1, 5, 7, "stream"⟩) (by decide) (by decide)
    (by decide) rfl (by decide)⟩

end

end FxTracker.Web.Chart
