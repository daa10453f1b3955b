import FxTracker.Alerts.Hysteresis
import FxTracker.Lib.Ascending
import FxTracker.Lib.Lts
import FxTracker.Lib.Newest
import Mathlib.Data.List.Sort

/-!
# The z series on both sides

The server writes one point per evaluated bar, at the bar's minute (`_queue_zhist` in
`fx_ingestor/pipeline.py`), and publishes a volatility frame per bar (`_queue_vol_snapshot`). The
browser takes the points of a snapshot (`setZHist`) and adds one per frame (`pushZ` in
`apps/web/src/lib/stream/store.ts`), at the minute of the frame's `ts`. That is the clock when the
frame was built, not the bar's minute.

Everything published is delivered, in order. A snapshot is read and sent under the send lock, so it
stands in the socket behind what was sent before, and may be newer than frames that follow it.

* `synced_step` — the browser's series is the server's up to what was delivered, step by step
* `zseries_synced` — so, with everything delivered, the series is the server's, as long as each
  evaluated frame has its bar's minute and is no older than the newest point held
-/

namespace FxTracker.Web

open Alerts (Regime)

variable {Z : Type}

/-- One evaluated bar's z: its minute in seconds, and the committed regime. -/
structure ZPoint (Z : Type) where
  t : Int
  z : Z
  r : Regime
  deriving DecidableEq, Repr

/-- A sealed bar, as far as the series goes: its bucket, its z where it was evaluated, the regime
after it, and when its frame was built, in milliseconds. -/
structure SealedBar (Z : Type) where
  bucket : Int
  z : Option Z
  r : Regime
  ts : Int
  deriving DecidableEq, Repr

/-- `ZHIST_MAXLEN`, and `Z_CAP` in the browser. -/
def zCap : Nat := 1440

namespace SealedBar

/-- `_queue_zhist`: a gated bar has no point. -/
def point (bar : SealedBar Z) : Option (ZPoint Z) := bar.z.map fun z => ⟨bar.bucket, z, bar.r⟩

/-- `Math.floor(new Date(frame.ts).getTime() / 60_000) * 60`. -/
def frameMinute (bar : SealedBar Z) : Int := bar.ts.fdiv 60000 * 60

/-- The point the browser makes of the bar's frame. The server's regime is never "unknown". -/
def framePoint (bar : SealedBar Z) : Option (ZPoint Z) :=
  bar.z.map fun z => ⟨bar.frameMinute, z, bar.r⟩

end SealedBar

/-! ## The two sides -/

/-- The points `zrevrange(key, 0, bars - 1)` reads, oldest first. -/
def newestPoints (zhist : List (ZPoint Z)) (bars : Nat) : List (ZPoint Z) :=
  if bars = 0 then zhist else zhist.rtake bars

/-- `setZHist`. -/
def setZHist (points : List (ZPoint Z)) : List (ZPoint Z) :=
  points.insertionSort fun a b => a.t ≤ b.t

/-- `pushZ`: the last point is replaced by one of the same minute. -/
def pushZ (prior : List (ZPoint Z)) (p : ZPoint Z) : List (ZPoint Z) :=
  let kept := if prior.getLast?.any (·.t = p.t) then prior.dropLast else prior
  (kept ++ [p]).rtake zCap

/-- What stands in the socket. -/
inductive ZItem (Z : Type)
  | vol (bar : SealedBar Z)
  | snapshot (points : List (ZPoint Z))
  deriving DecidableEq, Repr

structure ZSystem (Z : Type) where
  /-- Every bar sealed so far. -/
  sealed : List (SealedBar Z)
  zhist : List (ZPoint Z)
  /-- Frames published and not sent to the client yet. -/
  channel : List (SealedBar Z)
  /-- What was sent and not applied yet. -/
  socket : List (ZItem Z)
  series : List (ZPoint Z)
  /-- The points of the latest snapshot applied. -/
  latest : Option (List (ZPoint Z))
  deriving DecidableEq

namespace ZSystem

def init : ZSystem Z := ⟨[], [], [], [], [], none⟩

inductive Action (Z : Type)
  | sealBar (bar : SealedBar Z)
  | send
  | snapshot (bars : Nat)
  | deliver
  deriving DecidableEq

/-- One step. Minutes are sealed in order, so a ZADD appends. -/
def step (s : ZSystem Z) : Action Z → Option (ZSystem Z)
  | .sealBar bar =>
    if s.sealed.getLast?.all (·.bucket < bar.bucket) then
      some { s with
        sealed := s.sealed ++ [bar]
        zhist := (s.zhist ++ bar.point.toList).rtake zCap
        channel := s.channel ++ [bar] }
    else none
  | .send =>
    match s.channel with
    | bar :: rest => some { s with channel := rest, socket := s.socket ++ [.vol bar] }
    | [] => none
  | .snapshot bars => some { s with socket := s.socket ++ [.snapshot (newestPoints s.zhist bars)] }
  | .deliver =>
    match s.socket with
    | .vol bar :: rest => some { s with
        socket := rest
        series := bar.framePoint.elim s.series (pushZ s.series) }
    | .snapshot points :: rest => some { s with
        socket := rest
        series := setZHist points
        latest := some points }
    | [] => none

end ZSystem

def zLts (Z : Type) : Lts (ZSystem Z) (ZSystem.Action Z) := .ofFn .init ZSystem.step

/-- An evaluated frame that is applied has its bar's minute, and the bar is no older than the newest
point held. -/
def Timely (s : ZSystem Z) : ZSystem.Action Z → Prop
  | .deliver =>
    match s.socket with
    | .vol bar :: _ => bar.z.isSome = true →
        bar.frameMinute = bar.bucket ∧ ∀ p ∈ s.series.getLast?, p.t ≤ bar.bucket
    | _ => True
  | _ => True

/-- The span of a snapshot: from its oldest point on, or everything where it has none. -/
def inSpan (points : List (ZPoint Z)) (p : ZPoint Z) : Bool :=
  points.head?.all fun oldest => oldest.t ≤ p.t

/-- The points of bars, in order. -/
def pointsOf (bars : List (SealedBar Z)) : List (ZPoint Z) := bars.filterMap SealedBar.point

/-! ## Points -/

/-- Strictly increasing in time. -/
def Ascending (points : List (ZPoint Z)) : Prop := points.Pairwise fun a b => a.t < b.t

theorem mem_pointsOf {bars : List (SealedBar Z)} {p : ZPoint Z} :
    p ∈ pointsOf bars ↔ ∃ bar ∈ bars, bar.point = some p := by
  simp [pointsOf]

theorem point_t {bar : SealedBar Z} {p : ZPoint Z} (h : bar.point = some p) : p.t = bar.bucket := by
  obtain ⟨z, -, rfl⟩ := Option.map_eq_some_iff.mp h
  rfl

theorem pointsOf_concat (bars : List (SealedBar Z)) (bar : SealedBar Z) :
    pointsOf (bars ++ [bar]) = pointsOf bars ++ bar.point.toList := by
  unfold pointsOf
  rw [List.filterMap_append]
  cases h : bar.point <;> simp [h]

theorem ascending_pointsOf {bars : List (SealedBar Z)}
    (h : bars.Pairwise fun a b => a.bucket < b.bucket) : Ascending (pointsOf bars) := by
  refine h.filterMap _ fun a b hab p hp q hq => ?_
  rw [point_t hp, point_t hq]
  exact hab

theorem Ascending.eq_of_t {points : List (ZPoint Z)} (h : Ascending points) {p q : ZPoint Z}
    (hp : p ∈ points) (hq : q ∈ points) (ht : p.t = q.t) : p = q :=
  eq_of_key_eq h hp hq ht

/-- A span is closed towards later points. -/
theorem Ascending.inSpan {points : List (ZPoint Z)} (h : Ascending points)
    (snap : List (ZPoint Z)) :
    points.Pairwise fun a b => Web.inSpan snap a = true → Web.inSpan snap b = true := by
  refine h.imp fun {a b} hab ha => ?_
  unfold Web.inSpan at *
  cases hs : snap.head? with
  | none => rfl
  | some oldest =>
    rw [hs] at ha
    simp only [Option.all_some, decide_eq_true_eq] at ha ⊢
    omega

/-! ## What is in flight -/

/-- The items behind `done`: the frames of the bars after it in order, and snapshots each read no
earlier than what stands before it. -/
inductive Flight (sealed : List (SealedBar Z)) : List (SealedBar Z) → List (ZItem Z) → Prop
  | nil : Flight sealed sealed []
  | vol {done : List (SealedBar Z)} {bar : SealedBar Z} {items : List (ZItem Z)} :
    Flight sealed (done ++ [bar]) items → Flight sealed done (.vol bar :: items)
  | snapshot {done read : List (SealedBar Z)} {items : List (ZItem Z)} (bars : Nat) :
    done <+: read → read <+: sealed → Flight sealed done items →
    Flight sealed done (.snapshot (newestPoints ((pointsOf read).rtake zCap) bars) :: items)

variable {sealed done : List (SealedBar Z)} {items items' : List (ZItem Z)}

theorem Flight.done_prefix (h : Flight sealed done items) : done <+: sealed := by
  induction h with
  | nil => exact List.prefix_rfl
  | vol _ ih => exact (List.prefix_append ..).trans ih
  | snapshot _ _ _ _ ih => exact ih

/-- One more bar is sealed and its frame published. -/
theorem Flight.sealBar (h : Flight sealed done items) (bar : SealedBar Z) :
    Flight (sealed ++ [bar]) done (items ++ [.vol bar]) := by
  induction h with
  | nil => exact .vol .nil
  | vol _ ih => exact .vol ih
  | snapshot bars hdone hread _ ih =>
    exact .snapshot bars hdone (hread.trans (List.prefix_append ..)) ih

/-- A snapshot read now is sent ahead of the frames not sent yet. -/
theorem Flight.insert (h : Flight sealed done (items ++ items')) (bars : Nat) :
    Flight sealed done
      (items ++ .snapshot (newestPoints ((pointsOf sealed).rtake zCap) bars) :: items') := by
  induction items generalizing done with
  | nil => exact .snapshot bars h.done_prefix List.prefix_rfl h
  | cons item items ih =>
    cases h with
    | vol h => exact .vol (ih h)
    | snapshot k hdone hread h => exact .snapshot k hdone hread (ih h)

/-! ## The browser's series -/

/-- What the series shows of `seen`, over the span of a snapshot. -/
def shownOf (snap : List (ZPoint Z)) (seen : List (SealedBar Z)) : List (ZPoint Z) :=
  ((pointsOf seen).filter (inSpan snap)).rtake zCap

/-- The state of both sides. -/
structure Synced (s : ZSystem Z) : Prop where
  ordered : s.sealed.Pairwise fun a b => a.bucket < b.bucket
  zhist : s.zhist = (pointsOf s.sealed).rtake zCap
  /-- The series shows the bars of the latest snapshot and those of the frames applied since. -/
  series : ∃ done, Flight s.sealed done (s.socket ++ s.channel.map .vol) ∧
    ∀ snap, s.latest = some snap → ∃ seen, done <+: seen ∧ seen <+: s.sealed ∧
      s.series = shownOf snap seen ∧ ∀ p ∈ snap.head?, p ∈ pointsOf seen

theorem synced_init : Synced (ZSystem.init : ZSystem Z) where
  ordered := .nil
  zhist := by
    show [] = ([] : List (ZPoint Z)).rtake zCap
    rw [List.rtake_nil]
  series := ⟨[], .nil, fun _ h => by cases h⟩

variable {snap : List (ZPoint Z)} {seen : List (SealedBar Z)} {bar : SealedBar Z} {p : ZPoint Z}

/-- The newest points of an ascending list are its span from the oldest of them on. -/
theorem shownOf_rtake (h : Ascending (pointsOf seen)) {n : Nat} (hn : 0 < n) (hcap : n ≤ zCap) :
    shownOf ((pointsOf seen).rtake n) seen = (pointsOf seen).rtake n ∧
      ∀ p ∈ ((pointsOf seen).rtake n).head?, p ∈ pointsOf seen := by
  have hlen := length_rtake (pointsOf seen) n
  obtain ⟨older, hsplit⟩ := rtake_suffix (pointsOf seen) n
  unfold shownOf
  generalize (pointsOf seen).rtake n = c at hlen hsplit ⊢
  have hfilter : (pointsOf seen).filter (inSpan c) = c := by
    cases c with
    | nil =>
      have hnil : (pointsOf seen).length = 0 := by
        rw [List.length_nil] at hlen
        omega
      rw [List.length_eq_zero_iff.mp hnil]
      rfl
    | cons oldest rest =>
      have hasc : Ascending (older ++ oldest :: rest) := hsplit ▸ h
      obtain ⟨-, hc, hcross⟩ := List.pairwise_append.mp hasc
      have holder : older.filter (inSpan (oldest :: rest)) = [] := by
        rw [List.filter_eq_nil_iff]
        intro x hx
        have := hcross x hx oldest (List.mem_cons_self ..)
        simp only [inSpan, List.head?_cons, Option.all_some, decide_eq_true_eq]
        omega
      have hnewer : (oldest :: rest).filter (inSpan (oldest :: rest)) = oldest :: rest := by
        rw [List.filter_eq_self]
        intro x hx
        simp only [inSpan, List.head?_cons, Option.all_some, decide_eq_true_eq]
        rcases List.mem_cons.mp hx with rfl | hx
        · exact Int.le_refl _
        · exact Int.le_of_lt ((List.pairwise_cons.mp hc).1 x hx)
      rw [← hsplit, List.filter_append, holder, hnewer, List.nil_append]
  refine ⟨?_, fun p hp => ?_⟩
  · rw [hfilter]
    exact rtake_eq_self (by omega)
  · rw [← hsplit]
    exact List.mem_append_right _ (List.mem_of_mem_head? hp)

/-- A snapshot shows what it carries. -/
theorem setZHist_eq (h : Ascending (pointsOf seen)) (bars : Nat) :
    setZHist (newestPoints ((pointsOf seen).rtake zCap) bars)
        = shownOf (newestPoints ((pointsOf seen).rtake zCap) bars) seen ∧
      ∀ p ∈ (newestPoints ((pointsOf seen).rtake zCap) bars).head?, p ∈ pointsOf seen := by
  have hsort : ∀ n, setZHist ((pointsOf seen).rtake n) = (pointsOf seen).rtake n := fun n =>
    List.Pairwise.insertionSort_eq
      ((h.sublist (rtake_suffix _ n).sublist).imp fun hlt => Int.le_of_lt hlt)
  have hpos : 0 < zCap := by decide
  unfold newestPoints
  by_cases hb : bars = 0
  · rw [if_pos hb, hsort]
    obtain ⟨hshown, hhead⟩ := shownOf_rtake h hpos (Nat.le_refl zCap)
    exact ⟨hshown.symm, hhead⟩
  · rw [if_neg hb, rtake_rtake, hsort]
    obtain ⟨hshown, hhead⟩ := shownOf_rtake h (n := min bars zCap) (by omega) (Nat.min_le_right ..)
    exact ⟨hshown.symm, hhead⟩

/-- The frame of a bar already shown, and no older than the newest point, restates that point. -/
theorem pushZ_restate (h : Ascending (pointsOf seen)) (hp : p ∈ pointsOf seen)
    (hhead : ∀ q ∈ snap.head?, q ∈ pointsOf seen)
    (hnew : ∀ q ∈ (shownOf snap seen).getLast?, q.t ≤ p.t) :
    pushZ (shownOf snap seen) p = shownOf snap seen := by
  have hpos : ∃ q ∈ pointsOf seen, inSpan snap q = true := by
    cases hs : snap.head? with
    | none => exact ⟨p, hp, by rw [inSpan, hs]; rfl⟩
    | some oldest => exact ⟨oldest, hhead oldest hs, by rw [inSpan, hs]; simp⟩
  have hasc : Ascending ((pointsOf seen).filter (inSpan snap)) := h.sublist List.filter_sublist
  unfold shownOf at hnew ⊢
  obtain ⟨q₀, hq₀, hin₀⟩ := hpos
  -- the newest point shown is the newest of the span
  rcases List.eq_nil_or_concat' ((pointsOf seen).filter (inSpan snap)) with hnil | ⟨older, q, hq⟩
  · have hmem : q₀ ∈ (pointsOf seen).filter (inSpan snap) := List.mem_filter.mpr ⟨hq₀, hin₀⟩
    rw [hnil] at hmem
    cases hmem
  · have hqmem : q ∈ (pointsOf seen).filter (inSpan snap) := by
      rw [hq]
      exact List.mem_append_right _ (List.mem_singleton_self q)
    obtain ⟨n, hn⟩ : ∃ n, zCap = n + 1 := ⟨1439, rfl⟩
    have htake : ((pointsOf seen).filter (inSpan snap)).rtake zCap = older.rtake n ++ [q] := by
      rw [hq, hn]
      exact List.rtake_concat_succ ..
    have hlen := length_rtake ((pointsOf seen).filter (inSpan snap)) zCap
    rw [htake] at hnew hlen ⊢
    have hle : q.t ≤ p.t := hnew q (by simp)
    have hpin : inSpan snap p = true := by
      have hqin := (List.mem_filter.mp hqmem).2
      unfold inSpan at hqin ⊢
      cases hs : snap.head? with
      | none => rfl
      | some oldest =>
        rw [hs] at hqin
        simp only [Option.all_some, decide_eq_true_eq] at hqin ⊢
        omega
    have hpmem : p ∈ (pointsOf seen).filter (inSpan snap) := List.mem_filter.mpr ⟨hp, hpin⟩
    have hge : p.t ≤ q.t := by
      rw [hq] at hpmem hasc
      rcases List.mem_append.mp hpmem with hold | hlast
      · exact le_of_lt ((List.pairwise_append.mp hasc).2.2 p hold q (List.mem_singleton_self q))
      · rw [List.mem_singleton.mp hlast]
    have heq : q = p := h.eq_of_t (List.mem_filter.mp hqmem).1 hp (by omega)
    subst heq
    unfold pushZ
    rw [List.getLast?_concat, List.dropLast_concat]
    simp only [Option.any_some, decide_true, if_true]
    exact rtake_eq_self (by omega)

/-- The frame of the next bar adds its point. -/
theorem pushZ_next (h : Ascending (pointsOf (seen ++ [bar]))) (hp : bar.point = some p)
    (hhead : ∀ q ∈ snap.head?, q ∈ pointsOf seen) :
    pushZ (shownOf snap seen) p = shownOf snap (seen ++ [bar]) := by
  rw [pointsOf_concat, hp, Option.toList_some] at h
  have hlast : ∀ q ∈ pointsOf seen, q.t < p.t := fun q hq =>
    (List.pairwise_append.mp h).2.2 q hq p (List.mem_singleton_self p)
  have hpin : inSpan snap p = true := by
    unfold inSpan
    cases hs : snap.head? with
    | none => rfl
    | some oldest =>
      have := hlast oldest (hhead oldest hs)
      simp only [Option.all_some, decide_eq_true_eq]
      omega
  have hkept : (shownOf snap seen).getLast?.any (fun q => q.t = p.t) = false := by
    rw [Option.any_eq_false]
    intro q hq
    have hmem : q ∈ shownOf snap seen := List.mem_of_getLast? hq
    have hlt := hlast q (List.mem_filter.mp ((rtake_suffix ..).subset hmem)).1
    simp only [decide_eq_false_iff_not]
    omega
  unfold pushZ
  rw [hkept]
  unfold shownOf
  rw [if_neg (by simp), rtake_concat_rtake, pointsOf_concat, hp, Option.toList_some,
    List.filter_append, List.filter_cons_of_pos hpin, List.filter_nil]

/-! ## The run -/

/-- `Ascending` from the order of the buckets, for any prefix of them. -/
theorem Synced.ascending {s : ZSystem Z} (h : Synced s) {bars : List (SealedBar Z)}
    (hbars : bars <+: s.sealed) : Ascending (pointsOf bars) :=
  ascending_pointsOf (h.ordered.sublist hbars.sublist)

theorem synced_sealBar {s : ZSystem Z} (h : Synced s) (bar : SealedBar Z)
    (hlast : s.sealed.getLast?.all (·.bucket < bar.bucket) = true) :
    Synced { s with
      sealed := s.sealed ++ [bar]
      zhist := (s.zhist ++ bar.point.toList).rtake zCap
      channel := s.channel ++ [bar] } where
  ordered := by
    refine List.pairwise_append.mpr ⟨h.ordered, List.pairwise_singleton .., ?_⟩
    intro b hb c hc
    rw [List.mem_singleton.mp hc]
    -- `b` is the last bar sealed, or older than it
    rcases List.eq_nil_or_concat' s.sealed with hnil | ⟨older, last, hs⟩
    · rw [hnil] at hb
      cases hb
    · have hord := h.ordered
      rw [hs] at hlast hb hord
      rw [List.getLast?_concat] at hlast
      have hnew : last.bucket < bar.bucket := by simpa using hlast
      rcases List.mem_append.mp hb with hb | hb
      · have := (List.pairwise_append.mp hord).2.2 b hb last (List.mem_singleton_self last)
        omega
      · rw [List.mem_singleton.mp hb]
        exact hnew
  zhist := by
    rw [pointsOf_concat]
    dsimp only
    rw [h.zhist]
    cases hp : bar.point with
    | none =>
      simp only [Option.toList_none, List.append_nil]
      rw [rtake_rtake, Nat.min_self]
    | some p => exact rtake_concat_rtake ..
  series := by
    obtain ⟨done, hflight, hseries⟩ := h.series
    refine ⟨done, ?_, fun snap hsnap => ?_⟩
    · have hmore := hflight.sealBar bar
      rw [List.append_assoc] at hmore
      simpa using hmore
    · obtain ⟨seen, hdone, hseen, heq, hhead⟩ := hseries snap hsnap
      exact ⟨seen, hdone, hseen.trans (List.prefix_append ..), heq, hhead⟩

/-- A timely frame makes the point the server made of the bar. -/
theorem framePoint_eq {bar : SealedBar Z} (h : bar.z.isSome = true → bar.frameMinute = bar.bucket) :
    bar.framePoint = bar.point := by
  unfold SealedBar.framePoint SealedBar.point
  cases hz : bar.z with
  | none => rfl
  | some z => rw [h (by rw [hz]; rfl)]

/-- The frame of a bar already shown, or of the next one. -/
theorem shownOf_vol {done : List (SealedBar Z)} (hbars : sealed.Pairwise fun a b => a.bucket < b.bucket)
    (hbar : done ++ [bar] <+: sealed) (hdone : done <+: seen) (hseen : seen <+: sealed)
    (hhead : ∀ q ∈ snap.head?, q ∈ pointsOf seen)
    (hnew : bar.z.isSome = true → ∀ q ∈ (shownOf snap seen).getLast?, q.t ≤ bar.bucket) :
    ∃ seen', done ++ [bar] <+: seen' ∧ seen' <+: sealed ∧
      bar.point.elim (shownOf snap seen) (pushZ (shownOf snap seen)) = shownOf snap seen' ∧
      ∀ q ∈ snap.head?, q ∈ pointsOf seen' := by
  have hasc : ∀ bars, bars <+: sealed → Ascending (pointsOf bars) := fun bars h =>
    ascending_pointsOf (hbars.sublist h.sublist)
  rcases Nat.lt_or_ge done.length seen.length with hlt | hge
  · -- the snapshot already showed the bar
    have hin : done ++ [bar] <+: seen :=
      List.prefix_of_prefix_length_le hbar hseen (by simpa using Nat.succ_le_of_lt hlt)
    refine ⟨seen, hin, hseen, ?_, hhead⟩
    cases hp : bar.point with
    | none => rw [Option.elim_none]
    | some p =>
      have hpmem : p ∈ pointsOf seen :=
        mem_pointsOf.mpr ⟨bar, hin.subset (List.mem_append_right _ (List.mem_singleton_self bar)), hp⟩
      have hz : bar.z.isSome = true := by
        obtain ⟨z, hz, -⟩ := Option.map_eq_some_iff.mp hp
        rw [hz]
        rfl
      rw [Option.elim_some]
      refine pushZ_restate (hasc seen hseen) hpmem hhead fun q hq => ?_
      rw [point_t hp]
      exact hnew hz q hq
  · -- the bar is the next one
    have heq : done = seen := hdone.eq_of_length_le hge
    subst heq
    refine ⟨done ++ [bar], List.prefix_rfl, hbar, ?_, fun q hq => ?_⟩
    · cases hp : bar.point with
      | none =>
        unfold shownOf
        rw [pointsOf_concat, hp, Option.toList_none, List.append_nil, Option.elim_none]
      | some p =>
        rw [Option.elim_some]
        exact pushZ_next (hasc _ hbar) hp hhead
    · rw [pointsOf_concat]
      exact List.mem_append_left _ (hhead q hq)

/-- **One step** keeps both sides together, where a frame that is applied is timely. -/
theorem synced_step {s t : ZSystem Z} {a : ZSystem.Action Z} (h : Synced s)
    (hstep : s.step a = some t) (hok : Timely s a) : Synced t := by
  obtain ⟨done, hflight, hseries⟩ := h.series
  cases a with
  | sealBar bar =>
    rw [ZSystem.step, Option.ite_none_right_eq_some, Option.some_inj] at hstep
    obtain ⟨hlast, rfl⟩ := hstep
    exact synced_sealBar h bar hlast
  | send =>
    unfold ZSystem.step at hstep
    cases hc : s.channel with
    | nil => rw [hc] at hstep; cases hstep
    | cons bar rest =>
      rw [hc] at hstep hflight
      cases hstep
      refine ⟨h.ordered, h.zhist, done, ?_, hseries⟩
      simpa using hflight
  | snapshot bars =>
    cases hstep
    refine ⟨h.ordered, h.zhist, done, ?_, hseries⟩
    have hinsert := hflight.insert bars
    dsimp only
    rw [h.zhist]
    simpa using hinsert
  | deliver =>
    unfold ZSystem.step at hstep
    cases hs : s.socket with
    | nil => rw [hs] at hstep; cases hstep
    | cons item rest =>
      rw [hs] at hstep hflight
      cases item with
      | vol bar =>
        cases hstep
        cases hflight with
        | vol hflight =>
          have htimely : bar.z.isSome = true →
              bar.frameMinute = bar.bucket ∧ ∀ p ∈ s.series.getLast?, p.t ≤ bar.bucket := by
            unfold Timely at hok
            rw [hs] at hok
            exact hok
          refine ⟨h.ordered, h.zhist, done ++ [bar], hflight, fun snap hsnap => ?_⟩
          obtain ⟨seen, hdone, hseen, heq, hhead⟩ := hseries snap hsnap
          rw [heq] at htimely
          obtain ⟨seen', hdone', hseen', heq', hhead'⟩ :=
            shownOf_vol h.ordered hflight.done_prefix hdone hseen hhead fun hz => (htimely hz).2
          refine ⟨seen', hdone', hseen', ?_, hhead'⟩
          rw [framePoint_eq fun hz => (htimely hz).1, heq]
          exact heq'
      | snapshot points =>
        cases hstep
        cases hflight with
        | snapshot bars hdone hread hflight =>
          refine ⟨h.ordered, h.zhist, done, hflight, fun snap hsnap => ?_⟩
          cases hsnap
          obtain ⟨hshown, hhead⟩ := setZHist_eq (h.ascending hread) bars
          exact ⟨_, hdone, hread, hshown, hhead⟩

/-- With everything delivered, the series is the server's over the span of the latest snapshot. -/
def SameSeries (s : ZSystem Z) : Prop :=
  ∀ snap, s.latest = some snap → s.channel = [] → s.socket = [] →
    s.series = s.zhist.filter (inSpan snap) ∧ Ascending s.series

theorem synced_of_reachable {s : ZSystem Z}
    (hr : ((zLts Z).guard Timely).Reachable s) : Synced s :=
  hr.invariant (fun _ h => h ▸ synced_init) fun _ _ _ h hstep => synced_step h hstep.1 hstep.2

/--
**The browser's z series is the server's.** Along every run whose applied frames are timely, the
server holds the points of the newest evaluated bars, one at each bar's own minute, and with
everything delivered the series is the part of them in the span of the latest snapshot.
-/
theorem zseries_synced {s : ZSystem Z} (hr : ((zLts Z).guard Timely).Reachable s) :
    s.zhist = (pointsOf s.sealed).rtake zCap ∧ Ascending s.zhist ∧ SameSeries s := by
  have h := synced_of_reachable hr
  have hasc := h.ascending List.prefix_rfl
  have hhist : Ascending s.zhist := by
    rw [h.zhist]
    exact hasc.sublist (rtake_suffix ..).sublist
  refine ⟨h.zhist, hhist, fun snap hsnap hchannel hsocket => ?_⟩
  obtain ⟨done, hflight, hseries⟩ := h.series
  rw [hchannel, hsocket] at hflight
  cases hflight
  obtain ⟨seen, hdone, hseen, heq, -⟩ := hseries snap hsnap
  -- nothing is left to deliver
  have hall : s.sealed = seen := hdone.eq_of_length_le hseen.length_le
  have hfilter : s.series = s.zhist.filter (inSpan snap) := by
    rw [heq, h.zhist, ← hall, filter_rtake (hasc.inSpan snap)]
    rfl
  refine ⟨hfilter, ?_⟩
  rw [hfilter]
  exact hhist.sublist List.filter_sublist

/-! ## Runs -/

/-- The frame of a bar the snapshot already contains, then the next bar's. Both frames are built
within their own minute, on a clock behind the provider's. -/
def timelyRun : List (ZSystem.Action Int) :=
  [.sealBar ⟨0, some 1, .normal, 59900⟩, .snapshot 0, .deliver, .send, .deliver,
    .sealBar ⟨60, some 2, .normal, 119900⟩, .send, .deliver]

instance : ∀ (s : ZSystem Z) (a : ZSystem.Action Z), Decidable (Timely s a)
  | ⟨_, _, _, .vol bar :: _, series, _⟩, .deliver => inferInstanceAs (Decidable
    (bar.z.isSome = true → bar.frameMinute = bar.bucket ∧ ∀ p ∈ series.getLast?, p.t ≤ bar.bucket))
  | ⟨_, _, _, .snapshot _ :: _, _, _⟩, .deliver | ⟨_, _, _, [], _, _⟩, .deliver
  | _, .sealBar _ | _, .send | _, .snapshot _ => isTrue trivial

theorem zseries_synced_timelyRun :
    ∃ s, Lts.exec ZSystem.step .init timelyRun = some s ∧
      s.series = [⟨0, 1, .normal⟩, ⟨60, 2, .normal⟩] ∧
      s.zhist = (pointsOf s.sealed).rtake zCap ∧ Ascending s.zhist ∧ SameSeries s := by
  have hmeets : Lts.Meets ZSystem.step Timely .init timelyRun := by decide +kernel
  exact ⟨_, rfl, by decide +kernel, zseries_synced (Lts.reachable_of_meets (.init rfl) hmeets rfl)⟩

/-- The minute's seal comes with the next minute's first tick, and its frame is built then: the
point stands one minute late. -/
def lateFrame : List (ZSystem.Action Int) :=
  [.snapshot 0, .deliver, .sealBar ⟨0, some 1, .normal, 61000⟩, .send, .deliver]

/-- A snapshot overtakes the frames of the bars it contains. -/
def overtaken : List (ZSystem.Action Int) :=
  [.sealBar ⟨0, some 1, .normal, 59900⟩, .sealBar ⟨60, some 2, .normal, 119900⟩, .snapshot 0,
    .deliver, .send, .send, .deliver, .deliver]

/-- **A point at the wrong minute, and a point twice.** -/
theorem series_differs :
    (∃ s, Lts.exec ZSystem.step .init lateFrame = some s ∧ s.series = [⟨60, 1, .normal⟩] ∧
      s.zhist = [⟨0, 1, .normal⟩]) ∧
    (∃ s, Lts.exec ZSystem.step .init overtaken = some s ∧
      s.series.map ZPoint.t = [0, 60, 0, 60] ∧ s.zhist.map ZPoint.t = [0, 60]) ∧
    ¬ ∀ s, (zLts Int).Reachable s → SameSeries s := by
  have hrun : Lts.exec ZSystem.step .init lateFrame
      = some ⟨[⟨0, some 1, .normal, 61000⟩], [⟨0, 1, .normal⟩], [], [], [⟨60, 1, .normal⟩], some []⟩ := by
    decide +kernel
  refine ⟨⟨_, hrun, rfl, rfl⟩, ⟨_, rfl, by decide +kernel, by decide +kernel⟩, fun h => ?_⟩
  have hsame := h _ (Lts.reachable_of_exec hrun) [] rfl rfl rfl
  exact absurd hsame.1 (by decide)

end FxTracker.Web
