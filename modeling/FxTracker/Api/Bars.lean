import FxTracker.Core.Folding
import FxTracker.Lib.Newest
import Mathlib.Algebra.Order.BigOperators.Group.Finset
import Mathlib.Algebra.BigOperators.Group.Finset.Piecewise

/-!
# Candles of the newest rows

`_base_bars` and `bars` of `fx_api/routers/market.py`. The route reads the newest `base_count` rows
of the stored series and serves the last candles they fold to.

A cut through the series only touches the bucket of the last row before it. What `base_count` reads
beyond that bucket has rows of as many buckets as were asked for.

* `mem_fold_newest_iff` — the candles after the bucket of the cut
* `card_le_perCandle` — the aligned times of a bucket
* `bars_eq` — the candles served are the last ones of the whole series
-/

namespace FxTracker.Api

open Intervals

variable {K : Type}

/-- `_base_bars`: the newest stored rows, oldest first. -/
def baseBars (rows : List (Candle K)) (count : Nat) : List (Candle K) := rows.rtake count

/-- `bars`: the candles the route serves. -/
def bars [LT K] [DecidableLT K] (rows : List (Candle K)) (interval : String) (limit : Nat) :
    Option (List (Candle K)) := do
  let count ← baseCount interval limit
  let candles ← fold (baseBars rows count) interval
  return candles.rtake limit

/-- A stored base series: in the order of time, and no more rows are second ones of their time than
a candle has base bars. -/
structure Stored (spec : Interval) (rows : List (Candle K)) : Prop where
  ordered : rows.Pairwise fun a b => a.t ≤ b.t
  aligned : ∀ row ∈ rows, baseSeconds spec.base ∣ row.t
  repeats : rows.length ≤ (rows.map Candle.t).toFinset.card + perCandle spec

/-! ## Counting -/

/-- The aligned times of a bucket. -/
theorem card_le_perCandle {spec : Interval} (hspec : spec ∈ intervals) {times : Finset Int}
    (haligned : ∀ t ∈ times, baseSeconds spec.base ∣ t) (start : Int) :
    (times.filter fun t => leftEdge spec t = start).card ≤ perCandle spec := by
  have hpos := baseSeconds_pos spec.base
  rw [← Finset.card_range (perCandle spec)]
  refine Finset.card_le_card_of_injOn (fun t => ((t - start) / baseSeconds spec.base).toNat) ?_ ?_
  · intro t ht
    obtain ⟨-, rfl⟩ := Finset.mem_filter.mp ht
    obtain ⟨hle, hlt⟩ := leftEdge_bounds hspec t
    have hnn : 0 ≤ (t - leftEdge spec t) / baseSeconds spec.base :=
      Int.ediv_nonneg (by omega) (le_of_lt hpos)
    have hdiv : (t - leftEdge spec t) / baseSeconds spec.base < perCandle spec :=
      Int.ediv_lt_of_lt_mul hpos (by omega)
    simp only [Finset.coe_range, Set.mem_Iio]
    omega
  · intro t ht u hu heq
    obtain ⟨htin, hts⟩ := Finset.mem_filter.mp ht
    obtain ⟨huin, hus⟩ := Finset.mem_filter.mp hu
    have htle := (leftEdge_bounds hspec t).1
    have hule := (leftEdge_bounds hspec u).1
    have htnn : 0 ≤ (t - start) / baseSeconds spec.base :=
      Int.ediv_nonneg (by omega) (le_of_lt hpos)
    have hunn : 0 ≤ (u - start) / baseSeconds spec.base :=
      Int.ediv_nonneg (by omega) (le_of_lt hpos)
    have heq : (t - start) / baseSeconds spec.base = (u - start) / baseSeconds spec.base := by
      simp only at heq
      omega
    have ht := haligned t htin
    have hu := haligned u huin
    cases hbase : spec.base <;> rw [hbase] at heq ht hu <;> simp only [baseSeconds] at heq ht hu <;>
      omega

/-- Aligned times are of at least as many buckets as they fill. -/
theorem card_le_buckets {spec : Interval} (hspec : spec ∈ intervals) {times : Finset Int}
    (haligned : ∀ t ∈ times, baseSeconds spec.base ∣ t) :
    times.card ≤ perCandle spec * (times.image (leftEdge spec)).card :=
  Finset.card_le_mul_card_image _ _ fun start _ => card_le_perCandle hspec haligned start

/-! ## After the bucket of the cut -/

section Cut

variable [LT K] [DecidableLT K] {spec : Interval} {older newest out out' : List (Candle K)}
  {edge : Int}

/-- The candles after the bucket the cut is in. -/
theorem mem_fold_newest_iff (hspec : spec ∈ intervals)
    (hout : fold (older ++ newest) spec.code = some out) (hout' : fold newest spec.code = some out')
    (hedge : ∀ row ∈ older, leftEdge spec row.t ≤ edge) {c : Candle K} (hc : edge < c.t) :
    c ∈ out ↔ c ∈ out' := by
  have hnone : older.filter (fun row => bucketStart row.t spec = some c.t) = [] := by
    refine List.filter_eq_nil_iff.mpr fun row hrow => ?_
    rw [decide_eq_true_iff, bucketStart_eq_some_iff]
    rintro ⟨-, ht⟩
    have hle := hedge row hrow
    omega
  have hgroup : group (older ++ newest) spec c.t = group newest spec c.t := by
    rw [group, List.filter_append, hnone, List.nil_append]
    rfl
  rw [mem_fold_iff hspec hout, mem_fold_iff hspec hout', hgroup]

theorem filter_fold_newest (hspec : spec ∈ intervals)
    (hout : fold (older ++ newest) spec.code = some out) (hout' : fold newest spec.code = some out')
    (hedge : ∀ row ∈ older, leftEdge spec row.t ≤ edge) :
    out.filter (fun c => edge < c.t) = out'.filter fun c => edge < c.t := by
  refine eq_of_mem_iff ((pairwise_fold hspec hout).filter _) ((pairwise_fold hspec hout').filter _)
    fun c => ?_
  rw [List.mem_filter, List.mem_filter]
  refine and_congr_left fun hc => ?_
  exact mem_fold_newest_iff hspec hout hout' hedge (of_decide_eq_true hc)

omit [LT K] [DecidableLT K] in
/-- Candles in ascending order are past an edge from some place on. -/
theorem past_edge (h : out.Pairwise fun c d => c.t < d.t) (edge : Int) :
    out.Pairwise fun c d => decide (edge < c.t) = true → decide (edge < d.t) = true := by
  refine h.imp fun hlt hc => ?_
  rw [decide_eq_true_iff] at hc ⊢
  omega

/-- The newest rows, where they are as many as `base_count` says, have candles enough after the bucket
of the row before them. -/
theorem limit_le_length (hspec : spec ∈ intervals) {init : List (Candle K)} {last : Candle K}
    (hrows : Stored spec (init ++ last :: newest)) {limit : Nat}
    (hlen : newest.length = limit * perCandle spec + perCandle spec)
    (hout' : fold newest spec.code = some out') :
    limit ≤ (out'.filter fun c => leftEdge spec last.t < c.t).length := by
  obtain ⟨-, htail, -⟩ := List.pairwise_append.mp hrows.ordered
  have hafter := (List.pairwise_cons.mp htail).1
  obtain ⟨times, htimes⟩ : ∃ times, times = ((last :: newest).map Candle.t).toFinset := ⟨_, rfl⟩
  obtain ⟨past, hpast⟩ : ∃ past, past = out'.filter fun c => leftEdge spec last.t < c.t := ⟨_, rfl⟩
  rw [← hpast]
  -- the rows from the last one on are of its bucket and of those of the candles past it
  have hbuckets : (times.image (leftEdge spec)).card ≤ 1 + past.length := by
    have hsub : times.image (leftEdge spec) ⊆
        insert (leftEdge spec last.t) (past.map Candle.t).toFinset := by
      intro start hstart
      obtain ⟨t, ht, rfl⟩ := Finset.mem_image.mp hstart
      rw [htimes, List.mem_toFinset] at ht
      obtain ⟨row, hrow, rfl⟩ := List.mem_map.mp ht
      rw [Finset.mem_insert, List.mem_toFinset, List.mem_map]
      rcases List.mem_cons.mp hrow with rfl | hrow
      · exact .inl rfl
      · rcases eq_or_lt_of_le (leftEdge_mono hspec (hafter row hrow)) with heq | hlt
        · exact .inl heq.symm
        · obtain ⟨-, rfl⟩ := (fold_eq_some_iff hspec).mp hout'
          obtain ⟨c, hc, hct⟩ := exists_mem_rollup t_extend (pairwise_under hspec newest)
            (List.mem_map_of_mem (f := under spec) (mem_ordered.mpr hrow))
          have hpastc : leftEdge spec last.t < c.t := by
            rw [hct]
            exact hlt
          rw [hpast]
          exact .inr ⟨c, List.mem_filter.mpr ⟨hc, decide_eq_true hpastc⟩, hct⟩
    have hins := (Finset.card_le_card hsub).trans (Finset.card_insert_le _ _)
    have hmap := (past.map Candle.t).toFinset_card_le
    rw [List.length_map] at hmap
    omega
  have hfill : times.card ≤ perCandle spec * (1 + past.length) := by
    refine (card_le_buckets hspec fun t ht => ?_).trans (Nat.mul_le_mul_left _ hbuckets)
    rw [htimes, List.mem_toFinset] at ht
    obtain ⟨row, hrow, rfl⟩ := List.mem_map.mp ht
    exact hrows.aligned row (List.mem_append_right _ hrow)
  -- all times are those and the ones of the rows before
  have hall : ((init ++ last :: newest).map Candle.t).toFinset.card ≤ init.length + times.card := by
    rw [List.map_append, List.toFinset_append, ← htimes]
    refine (Finset.card_union_le _ _).trans ?_
    have hinit := (init.map Candle.t).toFinset_card_le
    rw [List.length_map] at hinit
    omega
  have hrepeats := hrows.repeats
  rw [List.length_append, List.length_cons, hlen] at hrepeats
  have hmul : limit * perCandle spec < perCandle spec * (1 + past.length) := by omega
  rw [Nat.mul_comm] at hmul
  have hlt := Nat.lt_of_mul_lt_mul_left hmul
  omega

end Cut

theorem baseCount_eq {spec : Interval} (hspec : spec ∈ intervals) (limit : Nat) :
    baseCount spec.code limit = some (limit * perCandle spec + perCandle spec) := by
  rw [baseCount, find?_code hspec]
  rfl

/-- **The candles served** are the last ones the whole series folds to. -/
theorem bars_eq [LT K] [DecidableLT K] {spec : Interval} (hspec : spec ∈ intervals)
    {rows : List (Candle K)} (hrows : Stored spec rows) {candles : List (Candle K)}
    (hall : fold rows spec.code = some candles) (limit : Nat) :
    bars rows spec.code limit = some (candles.rtake limit) := by
  have hin := ((fold_eq_some_iff hspec).mp hall).1
  obtain ⟨count, hcount⟩ : ∃ count, count = limit * perCandle spec + perCandle spec := ⟨_, rfl⟩
  obtain ⟨newest, hnewest⟩ : ∃ newest, newest = rows.rtake count := ⟨_, rfl⟩
  obtain ⟨out, hout⟩ : ∃ out, fold newest spec.code = some out :=
    ⟨_, (fold_eq_some_iff hspec).mpr
      ⟨fun bar hbar => hin bar ((rtake_suffix rows count).subset (hnewest ▸ hbar)), rfl⟩⟩
  have hbars : bars rows spec.code limit = some (out.rtake limit) := by
    unfold bars baseBars
    simp only [baseCount_eq hspec, ← hcount, ← hnewest, hout, Option.bind_eq_bind, Option.bind_some,
      Option.pure_def]
  rw [hbars]
  congr 1
  by_cases hfits : rows.length ≤ count
  · rw [rtake_eq_self hfits] at hnewest
    rw [hnewest, hall] at hout
    rw [Option.some.inj hout]
  · obtain ⟨older, hsplit⟩ : ∃ older, older ++ newest = rows := hnewest ▸ rtake_suffix rows count
    have hlen : newest.length = count := by
      rw [hnewest, length_rtake]
      omega
    rcases List.eq_nil_or_concat older with rfl | ⟨init, last, rfl⟩
    · rw [List.nil_append] at hsplit
      rw [← hsplit, hlen] at hfits
      exact absurd le_rfl hfits
    · rw [List.concat_eq_append] at hsplit
      subst hsplit
      have hedge : ∀ row ∈ init ++ [last], leftEdge spec row.t ≤ leftEdge spec last.t := by
        intro row hrow
        refine leftEdge_mono hspec ?_
        obtain ⟨hinit, -, -⟩ := List.pairwise_append.mp hrows.ordered
        rcases List.mem_append.mp hrow with hrow | hrow
        · exact (List.pairwise_append.mp hinit).2.2 row hrow last (List.mem_singleton_self last)
        · rw [List.mem_singleton.mp hrow]
      have hsame := filter_fold_newest hspec hall hout hedge
      have hstored : Stored spec (init ++ last :: newest) := by simpa using hrows
      have henough := limit_le_length hspec hstored (hlen.trans hcount) hout
      rw [← rtake_filter (past_edge (pairwise_fold hspec hout) _) henough,
        ← rtake_filter (past_edge (pairwise_fold hspec hall) _) (hsame ▸ henough), hsame]

/-- Eight minutes, the third of them stored twice: the cut for one candle is between its two rows. -/
def sampleRows : List (Candle Int) :=
  [⟨0, 1, 1, 1, 1, 1, "stream"⟩, ⟨60, 2, 2, 2, 2, 1, "stream"⟩, ⟨120, 3, 5, 2, 4, 0, "backfill"⟩,
    ⟨120, 4, 4, 4, 4, 1, "stream"⟩, ⟨180, 6, 6, 6, 6, 1, "stream"⟩, ⟨240, 7, 7, 7, 7, 1, "stream"⟩,
    ⟨300, 8, 8, 8, 8, 1, "stream"⟩, ⟨360, 9, 9, 9, 9, 1, "stream"⟩, ⟨420, 5, 5, 5, 5, 1, "stream"⟩]

theorem bars_eq_sample : bars sampleRows "3m" 1 = some [⟨360, 9, 9, 5, 5, 2, "stream"⟩] := by
  have hall : fold sampleRows "3m" = some [⟨0, 1, 5, 1, 4, 3, "mixed"⟩, ⟨180, 6, 8, 6, 8, 3, "stream"⟩,
      ⟨360, 9, 9, 5, 5, 2, "stream"⟩] := by decide +kernel
  have hspec : (⟨"3m", some 180, .minute⟩ : Interval) ∈ intervals := by decide
  exact bars_eq hspec ⟨by decide, by decide, by decide⟩ hall 1

end FxTracker.Api
