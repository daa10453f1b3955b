import FxTracker.Core.Buckets
import FxTracker.Ingestor.Recovery
import Mathlib.Data.List.Dedup

/-!
# Refreshing the rollups

`refresh_range` and `_refresh_rollups` of `fx_ingestor/recovery.py`: after a run, the five-minute and
hourly views are refreshed over the minutes that changed and over what was found stale, but never
over a bucket that their own policies would still leave alone.

* `refreshRange_covers` — every closed bucket from the first to the last minute is in the range
* `staleRollups_closed` — what the run finds stale ends where the closed buckets do
* `refreshRollups_spec` — the range refreshed for each view
-/

namespace FxTracker.Ingestor.Recovery

/-- One of `ROLLUPS`: a view, its bucket width in seconds, and the `end_offset` of its policy in
microseconds. -/
structure Rollup where
  view : String
  width : Int
  endOffset : Int
  pos : 0 < width
  divides : width ∣ 86400
  deriving DecidableEq

def ROLLUPS : List Rollup :=
  [⟨"bars_5m", 300, 60 * 1000000, by decide, by decide⟩,
   ⟨"bars_1h", 3600, 300 * 1000000, by decide, by decide⟩]

/-- `floor_bucket`. -/
def floorBucket (ts width : Int) : Int := epochSeconds ts / width * width

/-- `refresh_range`: from `start` up to, but not including, `end`. -/
def refreshRange (first last width endOffset now : Int) : Option (Int × Int) :=
  let start := floorBucket (first * 1000000) width
  let stop := min (floorBucket (last * 1000000) width + width) (floorBucket (now - endOffset) width)
  if start < stop then some (start, stop) else none

/-- A view, and the range of it to refresh. -/
structure Target where
  view : String
  start : Int
  stop : Int
  deriving DecidableEq

/-- `stale_rollups`. `find` is the query: the first and the last bucket it found, if any. -/
def staleRollups (rollups : List Rollup) (find : String → Int × Int → Int → Option (Int × Int))
    (window : Window) (now : Int) : List Target :=
  rollups.filterMap fun r => do
    let bounds ← refreshRange window.start window.last r.width r.endOffset now
    let row ← find r.view bounds r.width
    let found ← refreshRange row.1 row.2 r.width r.endOffset now
    some ⟨r.view, found.1, found.2⟩

/-- What the changed minutes ask of one view. -/
def changedTarget (changed : List Int) (now : Int) (r : Rollup) : Option Target := do
  let first ← changed.min?
  let last ← changed.max?
  let bounds ← refreshRange first last r.width r.endOffset now
  some ⟨r.view, bounds.1, bounds.2⟩

/-- `targets`, as `_refresh_rollups` has them before it refreshes anything. -/
def refreshTargets (rollups : List Rollup) (changed : List Int) (stale : List Target) (now : Int) :
    List Target :=
  stale ++ rollups.filterMap (changedTarget changed now)

/-- One round of the second loop: one range for all of the targets of a view. -/
def union (targets : List Target) (view : String) : Option Target := do
  let mine := targets.filter (·.view = view)
  let start ← (mine.map Target.start).min?
  let stop ← (mine.map Target.stop).max?
  some ⟨view, start, stop⟩

/-- `_refresh_rollups`: what it refreshes. The views come in no particular order. -/
def refreshRollups (rollups : List Rollup) (changed : List Int) (stale : List Target) (now : Int) :
    List Target :=
  let targets := refreshTargets rollups changed stale now
  (targets.map Target.view).dedup.filterMap (union targets)

/-! ## Buckets -/

theorem dvd_floorBucket (ts width : Int) : width ∣ floorBucket ts width :=
  Int.dvd_mul_left ..

/-- A whole second is in the one bucket that starts no later and ends after it. -/
theorem floorBucket_eq {width m b : Int} (hw : 0 < width) (hb : width ∣ b) (hle : b ≤ m)
    (hlt : m < b + width) : floorBucket (m * 1000000) width = b := by
  obtain ⟨k, rfl⟩ := hb
  rw [Int.mul_comm] at hle hlt
  have hlow : k ≤ m / width := (Int.le_ediv_iff_mul_le hw).mpr hle
  have hhigh : m / width < k + 1 := by
    rw [Int.ediv_lt_iff_lt_mul hw, Int.add_mul, Int.one_mul]
    exact hlt
  have heq : m / width = k := by omega
  unfold floorBucket
  rw [epochSeconds_mul, heq, Int.mul_comm]

theorem floorBucket_mono {width a b : Int} (hw : 0 < width) (h : a ≤ b) :
    floorBucket a width ≤ floorBucket b width :=
  Int.mul_le_mul_of_nonneg_right (Int.ediv_le_ediv hw (epochSeconds_mono h)) (by omega)

/-! ## One range -/

/-- On bucket boundaries, and no bucket of it ends after the last closed one. -/
structure Target.Closed (r : Rollup) (now : Int) (t : Target) : Prop where
  start : r.width ∣ t.start
  stop : r.width ∣ t.stop
  closed : t.stop ≤ floorBucket (now - r.endOffset) r.width

instance (r : Rollup) (now : Int) (t : Target) : Decidable (t.Closed r now) :=
  decidable_of_iff
    (r.width ∣ t.start ∧ r.width ∣ t.stop ∧ t.stop ≤ floorBucket (now - r.endOffset) r.width)
    ⟨fun h => ⟨h.1, h.2.1, h.2.2⟩, fun h => ⟨h.start, h.stop, h.closed⟩⟩

theorem refreshRange_eq_some {first last width endOffset now : Int} {bounds : Int × Int}
    (h : refreshRange first last width endOffset now = some bounds) :
    bounds = (floorBucket (first * 1000000) width,
        min (floorBucket (last * 1000000) width + width) (floorBucket (now - endOffset) width)) ∧
      bounds.1 < bounds.2 := by
  simp only [refreshRange] at h
  split at h
  case isTrue hlt =>
    cases h
    exact ⟨rfl, hlt⟩
  case isFalse => cases h

theorem refreshRange_closed {r : Rollup} {first last now : Int} {bounds : Int × Int}
    (h : refreshRange first last r.width r.endOffset now = some bounds) :
    Target.Closed r now ⟨r.view, bounds.1, bounds.2⟩ := by
  obtain ⟨rfl, -⟩ := refreshRange_eq_some h
  refine ⟨dvd_floorBucket .., ?_, min_le_right ..⟩
  dsimp only
  rcases min_choice (floorBucket (last * 1000000) r.width + r.width)
    (floorBucket (now - r.endOffset) r.width) with hmin | hmin
  · rw [hmin]
    exact Int.dvd_add (dvd_floorBucket ..) (Int.dvd_refl _)
  · rw [hmin]
    exact dvd_floorBucket ..

/-- A bucket that ends no later than the last closed one, and holds a minute from the first to the
last, is in the range. -/
theorem refreshRange_covers {width endOffset first last now m b : Int} (hw : 0 < width)
    (hfirst : first ≤ m) (hlast : m ≤ last) (hb : width ∣ b) (hle : b ≤ m) (hlt : m < b + width)
    (hclosed : b + width ≤ floorBucket (now - endOffset) width) :
    ∃ bounds, refreshRange first last width endOffset now = some bounds ∧
      bounds.1 ≤ b ∧ b + width ≤ bounds.2 := by
  have hbucket : floorBucket (m * 1000000) width = b := floorBucket_eq hw hb hle hlt
  have hstart : floorBucket (first * 1000000) width ≤ b := by
    rw [← hbucket]
    exact floorBucket_mono hw (by omega)
  have hstop : b + width ≤ floorBucket (last * 1000000) width + width := by
    have hmono := floorBucket_mono hw (show m * 1000000 ≤ last * 1000000 by omega)
    omega
  refine ⟨_, if_pos ?_, hstart, le_min hstop hclosed⟩
  have hstop' := le_min hstop hclosed
  omega

/-- **What a run finds stale is closed**, whatever the query answers. -/
theorem staleRollups_closed {rollups : List Rollup} (hnames : (rollups.map Rollup.view).Nodup)
    {find : String → Int × Int → Int → Option (Int × Int)} {window : Window} {now : Int} {t : Target}
    (h : t ∈ staleRollups rollups find window now) {r : Rollup} (hr : r ∈ rollups)
    (hview : t.view = r.view) : t.Closed r now := by
  obtain ⟨r', hr', ht⟩ := List.mem_filterMap.mp h
  simp only [Option.bind_eq_bind, Option.bind_eq_some_iff, Option.some.injEq] at ht
  obtain ⟨_, -, _, -, found, hfound, rfl⟩ := ht
  have hsame : r' = r := List.inj_on_of_nodup_map hnames hr' hr hview
  rw [← hsame]
  exact refreshRange_closed hfound

/-! ## The targets -/

theorem changedTarget_eq_some {changed : List Int} {now : Int} {r : Rollup} {t : Target}
    (h : changedTarget changed now r = some t) : t.view = r.view ∧ t.Closed r now := by
  simp only [changedTarget, Option.bind_eq_bind, Option.bind_eq_some_iff, Option.some.injEq] at h
  obtain ⟨_, -, _, -, bounds, hbounds, rfl⟩ := h
  exact ⟨rfl, refreshRange_closed hbounds⟩

theorem changedTarget_covers {changed : List Int} {now m b : Int} {r : Rollup} (hm : m ∈ changed)
    (hb : r.width ∣ b) (hle : b ≤ m) (hlt : m < b + r.width)
    (hclosed : b + r.width ≤ floorBucket (now - r.endOffset) r.width) :
    ∃ t, changedTarget changed now r = some t ∧ t.start ≤ b ∧ b + r.width ≤ t.stop := by
  obtain ⟨first, hfirst⟩ := Option.isSome_iff_exists.mp (List.isSome_min?_of_mem hm)
  obtain ⟨last, hlast⟩ := Option.isSome_iff_exists.mp (List.isSome_max?_of_mem hm)
  have hlow : first ≤ m := (List.min?_eq_some_iff.mp hfirst).2 m hm
  have hhigh : m ≤ last := (List.max?_eq_some_iff.mp hlast).2 m hm
  obtain ⟨bounds, hbounds, hcover⟩ := refreshRange_covers r.pos hlow hhigh hb hle hlt hclosed
  refine ⟨⟨r.view, bounds.1, bounds.2⟩, ?_, hcover⟩
  simp [changedTarget, hfirst, hlast, hbounds]

theorem mem_refreshTargets {rollups : List Rollup} {changed : List Int} {stale : List Target}
    {now : Int} {t : Target} :
    t ∈ refreshTargets rollups changed stale now ↔
      t ∈ stale ∨ ∃ r ∈ rollups, changedTarget changed now r = some t := by
  simp [refreshTargets]

/-! ## One range for each view -/

/-- The least start and the greatest end of the view's targets. -/
theorem union_eq_some {targets : List Target} {view : String} {t : Target}
    (h : union targets view = some t) :
    t.view = view ∧ (∃ a ∈ targets, a.view = view ∧ t.start = a.start) ∧
      (∃ b ∈ targets, b.view = view ∧ t.stop = b.stop) ∧
      ∀ s ∈ targets, s.view = view → t.start ≤ s.start ∧ s.stop ≤ t.stop := by
  simp only [union, Option.bind_eq_bind, Option.bind_eq_some_iff, Option.some.injEq] at h
  obtain ⟨start, hstart, stop, hstop, rfl⟩ := h
  obtain ⟨hmin, hle⟩ := List.min?_eq_some_iff.mp hstart
  obtain ⟨hmax, hge⟩ := List.max?_eq_some_iff.mp hstop
  obtain ⟨a, ha, rfl⟩ := List.mem_map.mp hmin
  obtain ⟨b, hb, rfl⟩ := List.mem_map.mp hmax
  obtain ⟨hamem, haview⟩ := List.mem_filter.mp ha
  obtain ⟨hbmem, hbview⟩ := List.mem_filter.mp hb
  refine ⟨rfl, ⟨a, hamem, of_decide_eq_true haview, rfl⟩,
    ⟨b, hbmem, of_decide_eq_true hbview, rfl⟩, ?_⟩
  intro s hs hview
  have hmine : s ∈ targets.filter (·.view = view) := List.mem_filter.mpr ⟨hs, decide_eq_true hview⟩
  exact ⟨hle _ (List.mem_map_of_mem hmine), hge _ (List.mem_map_of_mem hmine)⟩

/-- A view with a target is refreshed. -/
theorem exists_union {targets : List Target} {s : Target} (hs : s ∈ targets) :
    ∃ t, union targets s.view = some t := by
  have hmine : s ∈ targets.filter (·.view = s.view) := List.mem_filter.mpr ⟨hs, decide_eq_true rfl⟩
  obtain ⟨start, hstart⟩ := Option.isSome_iff_exists.mp
    (List.isSome_min?_of_mem (List.mem_map_of_mem (f := Target.start) hmine))
  obtain ⟨stop, hstop⟩ := Option.isSome_iff_exists.mp
    (List.isSome_max?_of_mem (List.mem_map_of_mem (f := Target.stop) hmine))
  exact ⟨⟨s.view, start, stop⟩, by simp [union, hstart, hstop]⟩

variable {rollups : List Rollup} {changed : List Int} {stale : List Target} {now : Int}

theorem mem_refreshRollups {t : Target} :
    t ∈ refreshRollups rollups changed stale now ↔
      ∃ s ∈ refreshTargets rollups changed stale now,
        union (refreshTargets rollups changed stale now) s.view = some t := by
  simp [refreshRollups]

theorem nodup_refreshRollups : ((refreshRollups rollups changed stale now).map Target.view).Nodup := by
  have hviews : ∀ views : List String, views.Nodup →
      ((views.filterMap (union (refreshTargets rollups changed stale now))).map Target.view).Nodup := by
    intro views hnodup
    refine List.Nodup.sublist ?_ hnodup
    induction views with
    | nil => exact List.nil_sublist _
    | cons view rest ih =>
      have hrest := ih (List.nodup_cons.mp hnodup).2
      cases hunion : union (refreshTargets rollups changed stale now) view with
      | none =>
        rw [List.filterMap_cons_none hunion]
        exact hrest.cons _
      | some t =>
        rw [List.filterMap_cons_some hunion, List.map_cons, (union_eq_some hunion).1]
        exact hrest.cons_cons _
  exact hviews _ (List.nodup_dedup _)

/-- What a target asks for is refreshed. -/
theorem refreshRollups_covers {s : Target} (hs : s ∈ refreshTargets rollups changed stale now) :
    ∃ t ∈ refreshRollups rollups changed stale now,
      t.view = s.view ∧ t.start ≤ s.start ∧ s.stop ≤ t.stop := by
  obtain ⟨t, ht⟩ := exists_union hs
  obtain ⟨hview, -, -, hcover⟩ := union_eq_some ht
  exact ⟨t, mem_refreshRollups.mpr ⟨s, hs, ht⟩, hview, hcover s hs rfl⟩

/-- Only closed buckets are refreshed, where only closed ones are called stale. -/
theorem refreshRollups_closed (hnames : (rollups.map Rollup.view).Nodup) {r : Rollup}
    (hr : r ∈ rollups) (hstale : ∀ s ∈ stale, s.view = r.view → s.Closed r now) {t : Target}
    (ht : t ∈ refreshRollups rollups changed stale now) (hview : t.view = r.view) :
    t.Closed r now := by
  have hclosed : ∀ s ∈ refreshTargets rollups changed stale now, s.view = r.view → s.Closed r now := by
    intro s hs hsview
    rcases mem_refreshTargets.mp hs with hold | ⟨r', hr', hnew⟩
    · exact hstale s hold hsview
    · obtain ⟨hname, hok⟩ := changedTarget_eq_some hnew
      have hsame : r' = r := List.inj_on_of_nodup_map hnames hr' hr (hname.symm.trans hsview)
      rw [← hsame]
      exact hok
  obtain ⟨s, -, hunion⟩ := mem_refreshRollups.mp ht
  obtain ⟨hname, ⟨a, ha, hav, hstart⟩, ⟨b, hb, hbv, hstop⟩, -⟩ := union_eq_some hunion
  have hsview : s.view = r.view := hname.symm.trans hview
  have haclosed := hclosed a ha (hav.trans hsview)
  have hbclosed := hclosed b hb (hbv.trans hsview)
  exact ⟨hstart ▸ haclosed.start, hstop ▸ hbclosed.stop, hstop ▸ hbclosed.closed⟩

/-- **One range for each view**: it is made of closed buckets, and covers all of the closed ones with
a changed minute, and all that was stale. -/
theorem refreshRollups_spec (hnames : (rollups.map Rollup.view).Nodup)
    (hstale : ∀ r ∈ rollups, ∀ s ∈ stale, s.view = r.view → s.Closed r now) :
    ((refreshRollups rollups changed stale now).map Target.view).Nodup ∧
      ∀ r ∈ rollups,
        (∀ t ∈ refreshRollups rollups changed stale now, t.view = r.view → t.Closed r now) ∧
        (∀ m ∈ changed, ∀ b, r.width ∣ b → b ≤ m → m < b + r.width →
          b + r.width ≤ floorBucket (now - r.endOffset) r.width →
          ∃ t ∈ refreshRollups rollups changed stale now,
            t.view = r.view ∧ t.start ≤ b ∧ b + r.width ≤ t.stop) ∧
        ∀ s ∈ stale, s.view = r.view →
          ∃ t ∈ refreshRollups rollups changed stale now,
            t.view = r.view ∧ t.start ≤ s.start ∧ s.stop ≤ t.stop := by
  refine ⟨nodup_refreshRollups, fun r hr => ⟨?_, ?_, ?_⟩⟩
  · intro t ht hview
    exact refreshRollups_closed hnames hr (hstale r hr) ht hview
  · intro m hm b hb hle hlt hclosed
    obtain ⟨s, hs, hlow, hhigh⟩ := changedTarget_covers hm hb hle hlt hclosed
    obtain ⟨t, ht, hview, hstart, hstop⟩ :=
      refreshRollups_covers (mem_refreshTargets.mpr (.inr ⟨r, hr, hs⟩))
    exact ⟨t, ht, hview.trans (changedTarget_eq_some hs).1, by omega, by omega⟩
  · intro s hs hview
    obtain ⟨t, ht, htview, hcover⟩ := refreshRollups_covers (mem_refreshTargets.mpr (.inl hs))
    exact ⟨t, ht, htview.trans hview, hcover⟩

/-- Of the views, the query finds the five-minute bucket of 11:00 stale. -/
def sampleStale : List Target :=
  staleRollups ROLLUPS (fun view _ _ => if view = "bars_5m" then some (39600, 39600) else none)
    ⟨38400, 45840⟩ (46020 * 1000000)

/-- A run at 12:47 that inserted the minutes 11:58 and 12:31. The hour of 12:31 is still open. -/
theorem refreshRollups_at_noon :
    refreshRollups ROLLUPS [43080, 45060] sampleStale (46020 * 1000000) =
        [⟨"bars_5m", 39600, 45300⟩, ⟨"bars_1h", 39600, 43200⟩] ∧
      ∀ r ∈ ROLLUPS, ∀ t ∈ refreshRollups ROLLUPS [43080, 45060] sampleStale (46020 * 1000000),
        t.view = r.view → t.Closed r (46020 * 1000000) :=
  ⟨by decide +kernel, fun r hr => ((refreshRollups_spec (by decide) fun _ hr' _ hs hview =>
    staleRollups_closed (by decide) hs hr' hview).2 r hr).1⟩

end FxTracker.Ingestor.Recovery
