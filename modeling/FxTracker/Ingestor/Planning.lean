import FxTracker.Ingestor.Recovery
import FxTracker.Lib.Grouping
import Mathlib.Data.List.Dedup
import Mathlib.Data.List.Induction
import Mathlib.Data.List.Pairwise
import Mathlib.Data.List.Sort
import Mathlib.Data.String.Basic

/-!
# Planning a recovery run

`fx_ingestor/recovery.py`: `missing_spans` groups the missing minutes into runs of consecutive ones,
`plan_requests` groups the runs into requests of a few UTC days each. A run of more days is cut at a
day boundary.

* `missingSpans_spec`, `maximal_of_mem` — the runs of the missing minutes
* `exists_splitByDays` — the cutting loop ends, and loses nothing
* `grouped_spec` — later requests are after all of the earlier ones
* `planRequests_spec` — every missing minute is in one span of one request
-/

namespace FxTracker.Ingestor.Recovery

open Worker

/-- A run of consecutive missing minutes of one symbol: `start` through `last` (`end` in the
source). -/
structure Span where
  symbol : String
  start : Int
  last : Int
  deriving DecidableEq

namespace Span

/-- `each_minute`. -/
def eachMinute (span : Span) : List Int :=
  (List.range ((span.last - span.start) / 60 + 1).toNat).map fun i : Nat => span.start + 60 * (i : Int)

/-- The UTC dates of its ends. -/
def firstDay (span : Span) : Int := span.start / 86400

def lastDay (span : Span) : Int := span.last / 86400

end Span

/-- Neither stored nor within a settled interval. -/
def isMissing (present : List Int) (settled : List (Int × Int)) (m : Int) : Bool :=
  m ∉ present ∧ ¬ ∃ span ∈ settled, span.1 ≤ m ∧ m ≤ span.2

/-- One minute in the loop of `missing_spans`: the spans that are closed, and `start` and `prev` of the
one that is open. -/
def scanMinute (symbol : String) (missing : Int → Bool) (s : List Span × Option (Int × Int)) (m : Int) :
    List Span × Option (Int × Int) :=
  match s.2 with
  | some (start, prev) =>
    if missing m ∧ m = prev + 60 then (s.1, some (start, m))
    else (s.1 ++ [⟨symbol, start, prev⟩], if missing m then some (m, m) else none)
  | none => (s.1, if missing m then some (m, m) else none)

/-- The span that is open at the end. -/
def openSpan (symbol : String) : Option (Int × Int) → List Span
  | some (start, prev) => [⟨symbol, start, prev⟩]
  | none => []

/-- `missing_spans`. -/
def missingSpans (symbol : String) (expected present : List Int) (settled : List (Int × Int)) :
    List Span :=
  let s := expected.foldl (scanMinute symbol (isMissing present settled)) ([], none)
  s.1 ++ openSpan symbol s.2

/-- `_split_by_days`, in at most so many rounds. -/
def splitByDays (days : Int) : Nat → Span → Option (List Span)
  | 0, span => if span.start ≤ span.last then none else some []
  | rounds + 1, span =>
    if span.start ≤ span.last then
      let boundary := (span.firstDay + days) * 86400
      let last := min span.last (boundary - 60)
      (splitByDays days rounds { span with start := last + 60 }).map
        (⟨span.symbol, span.start, last⟩ :: ·)
    else some []

/-- A history request: the spans of one symbol within a few UTC days. -/
structure Request where
  symbol : String
  spans : List Span
  deriving DecidableEq

/-- One part in the loop of `plan_requests`: the requests that are complete, and the spans of the
current one. -/
def groupPart (symbol : String) (days : Int) (s : List Request × List Span) (part : Span) :
    List Request × List Span :=
  match s.2 with
  | first :: _ =>
    if days ≤ part.lastDay - first.firstDay then (s.1 ++ [⟨symbol, s.2⟩], [part])
    else (s.1, s.2 ++ [part])
  | [] => (s.1, [part])

/-- The parts of one symbol as requests. -/
def grouped (symbol : String) (days : Int) (parts : List Span) : List Request :=
  let s := parts.foldl (groupPart symbol days) ([], [])
  if s.2 = [] then s.1 else s.1 ++ [⟨symbol, s.2⟩]

/-- The spans of one symbol, oldest first. -/
def spansOf (spans : List Span) (symbol : String) : List Span :=
  (spans.filter (·.symbol = symbol)).insertionSort fun a b => a.start ≤ b.start

/-- The requests of one symbol. -/
def planSymbol (spans : List Span) (days : Int) (rounds : Nat) (symbol : String) :
    Option (List Request) :=
  ((spansOf spans symbol).mapM (splitByDays days rounds)).map fun parts =>
    grouped symbol days parts.flatten

/-- The symbols of the spans, in order. -/
def symbolsOf (spans : List Span) : List String :=
  (spans.map Span.symbol).dedup.insertionSort (· ≤ ·)

/-- `plan_requests`; `none` where a cutting loop takes more rounds. -/
def planRequests (spans : List Span) (days : Int) (rounds : Nat) : Option (List Request) :=
  ((symbolsOf spans).mapM (planSymbol spans days rounds)).map List.flatten

/-! ## Whole minutes -/

/-- Its ends are minutes, the first no later than the last. -/
structure Span.Whole (span : Span) : Prop where
  le : span.start ≤ span.last
  start : 60 ∣ span.start
  last : 60 ∣ span.last

namespace Span

theorem mem_eachMinute {span : Span} {m : Int} :
    m ∈ span.eachMinute ↔ span.start ≤ m ∧ m ≤ span.last ∧ 60 ∣ m - span.start := by
  unfold eachMinute
  rw [List.mem_map]
  constructor
  · rintro ⟨i, hi, rfl⟩
    rw [List.mem_range] at hi
    omega
  · rintro ⟨hle, hlast, k, hk⟩
    refine ⟨k.toNat, ?_, ?_⟩
    · rw [List.mem_range]
      omega
    · omega

theorem Whole.mem_iff {span : Span} (h : span.Whole) {m : Int} :
    m ∈ span.eachMinute ↔ span.start ≤ m ∧ m ≤ span.last ∧ 60 ∣ m := by
  rw [mem_eachMinute]
  have hstart := h.start
  omega

theorem eachMinute_single (symbol : String) (m : Int) : (⟨symbol, m, m⟩ : Span).eachMinute = [m] := by
  simp [eachMinute]

/-- One minute more. -/
theorem eachMinute_concat {symbol : String} {start prev : Int}
    (h : (⟨symbol, start, prev⟩ : Span).Whole) :
    (⟨symbol, start, prev + 60⟩ : Span).eachMinute =
      (⟨symbol, start, prev⟩ : Span).eachMinute ++ [prev + 60] := by
  obtain ⟨hle, hstart, hlast⟩ := h
  dsimp only at hle hstart hlast
  unfold eachMinute
  dsimp only
  have hlen : ((prev + 60 - start) / 60 + 1).toNat = ((prev - start) / 60 + 1).toNat + 1 := by omega
  rw [hlen, List.range_succ, List.map_append, List.map_singleton]
  congr 2
  omega

/-- Two runs that meet. -/
theorem eachMinute_append {symbol : String} {start last prev : Int} (hle : start ≤ prev)
    (hlast : prev ≤ last) (hstart : 60 ∣ start) (hprev : 60 ∣ prev) :
    (⟨symbol, start, prev⟩ : Span).eachMinute ++ (⟨symbol, prev + 60, last⟩ : Span).eachMinute =
      (⟨symbol, start, last⟩ : Span).eachMinute := by
  unfold eachMinute
  dsimp only
  have hlen : ((last - start) / 60 + 1).toNat =
      ((prev - start) / 60 + 1).toNat + ((last - (prev + 60)) / 60 + 1).toNat := by omega
  rw [hlen, List.range_add, List.map_append, List.map_map]
  congr 1
  refine List.map_congr_left fun i _ => ?_
  dsimp only [Function.comp]
  omega

end Span

/-! ## The runs of the missing minutes -/

/-- Runs of one symbol in ascending order, with a minute that is not in any between two. -/
structure Separated (symbol : String) (spans : List Span) : Prop where
  symbol : ∀ a ∈ spans, a.symbol = symbol
  whole : ∀ a ∈ spans, a.Whole
  apart : spans.Pairwise fun a b => a.last + 60 < b.start

theorem Separated.concat {symbol : String} {spans : List Span} (h : Separated symbol spans) {a : Span}
    (hsymbol : a.symbol = symbol) (ha : a.Whole) (hapart : ∀ b ∈ spans, b.last + 60 < a.start) :
    Separated symbol (spans ++ [a]) where
  symbol := by
    intro b hb
    rcases List.mem_append.mp hb with hb | hb
    · exact h.symbol b hb
    · rw [List.mem_singleton.mp hb, hsymbol]
  whole := by
    intro b hb
    rcases List.mem_append.mp hb with hb | hb
    · exact h.whole b hb
    · rw [List.mem_singleton.mp hb]
      exact ha
  apart := by
    refine List.pairwise_append.mpr ⟨h.apart, List.pairwise_singleton .., fun b hb c hc => ?_⟩
    rw [List.mem_singleton.mp hc]
    exact hapart b hb

theorem Separated.or_of_ne {symbol : String} {spans : List Span} (h : Separated symbol spans)
    {a b : Span} (ha : a ∈ spans) (hb : b ∈ spans) (hne : a ≠ b) :
    a.last + 60 < b.start ∨ b.last + 60 < a.start := by
  have hsymm : Std.Symm fun a b : Span => a.last + 60 < b.start ∨ b.last + 60 < a.start :=
    ⟨fun _ _ => Or.symm⟩
  have hpair : spans.Pairwise fun a b => a.last + 60 < b.start ∨ b.last + 60 < a.start :=
    h.apart.imp Or.inl
  exact hpair.forall ha hb hne

theorem Separated.of_concat {symbol : String} {spans : List Span} {a : Span}
    (h : Separated symbol (spans ++ [a])) :
    Separated symbol spans ∧ a.symbol = symbol ∧ a.Whole ∧ ∀ b ∈ spans, b.last + 60 < a.start := by
  obtain ⟨hspans, -, hlast⟩ := List.pairwise_append.mp h.apart
  have hin : ∀ b ∈ spans, b ∈ spans ++ [a] := fun b hb => List.mem_append_left _ hb
  have ha : a ∈ spans ++ [a] := List.mem_append_right _ (List.mem_singleton_self a)
  exact ⟨⟨fun b hb => h.symbol b (hin b hb), fun b hb => h.whole b (hin b hb), hspans⟩,
    h.symbol a ha, h.whole a ha, fun b hb => hlast b hb a (List.mem_singleton_self a)⟩

/-- The loop between two minutes: the runs so far, and what is left. -/
structure Scan (symbol : String) (s : List Span × Option (Int × Int)) (rest : List Int) : Prop where
  separated : Separated symbol (s.1 ++ openSpan symbol s.2)
  closed : ∀ a ∈ s.1, ∀ m ∈ rest, a.last + 60 < m
  later : ∀ p ∈ s.2, ∀ m ∈ rest, p.2 < m
  asc : rest.Pairwise (· < ·)
  aligned : ∀ m ∈ rest, 60 ∣ m

/-- A minute that does not go on with a run begins one if it is missing. -/
theorem Scan.begin {symbol : String} {closed : List Span} {m : Int} {rest : List Int}
    {missing : Int → Bool} (hsep : Separated symbol closed) (hle : ∀ a ∈ closed, a.last + 60 ≤ m)
    (hlt : missing m = true → ∀ a ∈ closed, a.last + 60 < m)
    (hasc : (m :: rest).Pairwise (· < ·)) (haligned : ∀ n ∈ m :: rest, 60 ∣ n) :
    Scan symbol (closed, if missing m then some (m, m) else none) rest ∧
      (closed ++ openSpan symbol (if missing m then some (m, m) else none)).flatMap Span.eachMinute =
        closed.flatMap Span.eachMinute ++ [m].filter missing := by
  obtain ⟨hm, hrest⟩ := List.pairwise_cons.mp hasc
  have hlater : ∀ a ∈ closed, ∀ n ∈ rest, a.last + 60 < n :=
    fun a ha n hn => lt_of_le_of_lt (hle a ha) (hm n hn)
  have hrestal : ∀ n ∈ rest, 60 ∣ n := fun n hn => haligned n (List.mem_cons_of_mem _ hn)
  cases hmiss : missing m with
  | true =>
    have hmal := haligned m (List.mem_cons_self ..)
    refine ⟨⟨hsep.concat rfl ⟨le_rfl, hmal, hmal⟩ (hlt hmiss), hlater, ?_, hrest, hrestal⟩, ?_⟩
    · rintro p hp n hn
      cases hp
      exact hm n hn
    · simp [openSpan, Span.eachMinute_single, hmiss]
  | false =>
    refine ⟨⟨by simpa [openSpan] using hsep, hlater, fun p hp => by simp at hp, hrest, hrestal⟩, ?_⟩
    simp [openSpan, hmiss]

/-- **One minute**: it is added to the runs if it is missing. -/
theorem scanMinute_spec {symbol : String} {s : List Span × Option (Int × Int)} {m : Int}
    {rest : List Int} (h : Scan symbol s (m :: rest)) (missing : Int → Bool) :
    Scan symbol (scanMinute symbol missing s m) rest ∧
      ((scanMinute symbol missing s m).1 ++ openSpan symbol (scanMinute symbol missing s m).2).flatMap
          Span.eachMinute =
        (s.1 ++ openSpan symbol s.2).flatMap Span.eachMinute ++ [m].filter missing := by
  obtain ⟨hsep, hclosed, hlater, hasc, haligned⟩ := h
  obtain ⟨closed, opened⟩ := s
  have hm : m ∈ m :: rest := List.mem_cons_self ..
  have hrest : ∀ n ∈ rest, n ∈ m :: rest := fun n hn => List.mem_cons_of_mem _ hn
  cases opened with
  | none =>
    simp only [openSpan, List.append_nil] at hsep
    have hlt : ∀ a ∈ closed, a.last + 60 < m := fun a ha => hclosed a ha m hm
    simpa [scanMinute, openSpan] using
      Scan.begin hsep (fun a ha => (hlt a ha).le) (fun _ => hlt) hasc haligned
  | some p =>
    obtain ⟨start, prev⟩ := p
    have hprev : prev < m := hlater (start, prev) rfl m hm
    have hmal := haligned m hm
    obtain ⟨hinit, -, hwhole, hapart⟩ := Separated.of_concat hsep
    unfold scanMinute
    dsimp only
    split
    · -- the run goes on
      next hgo =>
      obtain ⟨hmiss, rfl⟩ := hgo
      refine ⟨⟨hinit.concat rfl ⟨?_, hwhole.start, hmal⟩ hapart, ?_, ?_, ?_, ?_⟩, ?_⟩
      · have hle := hwhole.le
        dsimp only at hle ⊢
        omega
      · exact fun a ha n hn => hclosed a ha n (hrest n hn)
      · rintro q hq n hn
        cases hq
        exact (List.pairwise_cons.mp hasc).1 n hn
      · exact (List.pairwise_cons.mp hasc).2
      · exact fun n hn => haligned n (hrest n hn)
      · simp [openSpan, Span.eachMinute_concat hwhole, hmiss]
    · -- it is closed, and a missing minute is not next to it
      next hstop =>
      have hlast := hwhole.last
      dsimp only at hlast
      refine Scan.begin hsep (fun a ha => ?_) (fun hmiss a ha => ?_) hasc haligned
      · rcases List.mem_append.mp ha with ha | ha
        · exact (hclosed a ha m hm).le
        · rw [List.mem_singleton.mp ha]
          dsimp only
          omega
      · rcases List.mem_append.mp ha with ha | ha
        · exact hclosed a ha m hm
        · rw [List.mem_singleton.mp ha]
          have hne : m ≠ prev + 60 := fun heq => hstop ⟨hmiss, heq⟩
          dsimp only
          omega

theorem foldl_scanMinute {symbol : String} {s : List Span × Option (Int × Int)} {rest : List Int}
    (h : Scan symbol s rest) (missing : Int → Bool) :
    Scan symbol (rest.foldl (scanMinute symbol missing) s) [] ∧
      ((rest.foldl (scanMinute symbol missing) s).1 ++
          openSpan symbol (rest.foldl (scanMinute symbol missing) s).2).flatMap Span.eachMinute =
        (s.1 ++ openSpan symbol s.2).flatMap Span.eachMinute ++ rest.filter missing := by
  induction rest generalizing s with
  | nil => exact ⟨h, by simp⟩
  | cons m rest ih =>
    obtain ⟨hone, heq⟩ := scanMinute_spec h missing
    obtain ⟨hall, hmin⟩ := ih hone
    refine ⟨hall, ?_⟩
    rw [List.foldl_cons, hmin, heq, List.append_assoc, ← List.filter_append, List.singleton_append]

section Missing

variable {symbol : String} {expected present : List Int} {settled : List (Int × Int)}

theorem missingSpans_spec (hasc : expected.Pairwise (· < ·)) (haligned : ∀ m ∈ expected, 60 ∣ m) :
    Separated symbol (missingSpans symbol expected present settled) ∧
      (missingSpans symbol expected present settled).flatMap Span.eachMinute =
        missingMinutes expected present settled := by
  have hscan : Scan symbol ([], none) expected :=
    ⟨⟨by simp [openSpan], by simp [openSpan], by simp [openSpan]⟩, by simp, by simp, hasc, haligned⟩
  obtain ⟨hall, hmin⟩ := foldl_scanMinute hscan (isMissing present settled)
  exact ⟨hall.separated, hmin⟩

/-- A span ends where the missing minutes do. -/
structure MaximalRun (missing : List Int) (span : Span) : Prop where
  start_mem : span.start ∈ span.eachMinute
  last_mem : span.last ∈ span.eachMinute
  covers : ∀ m ∈ span.eachMinute, m ∈ missing
  before : span.start - 60 ∉ missing
  after : span.last + 60 ∉ missing

/-- **The spans are the maximal runs** of consecutive missing minutes. -/
theorem maximal_of_mem (hasc : expected.Pairwise (· < ·)) (haligned : ∀ m ∈ expected, 60 ∣ m)
    {span : Span} (h : span ∈ missingSpans symbol expected present settled) :
    MaximalRun (missingMinutes expected present settled) span := by
  obtain ⟨hsep, hmin⟩ := @missingSpans_spec symbol expected present settled hasc haligned
  have hwhole := hsep.whole span h
  have hend : ∀ m, m ∈ missingMinutes expected present settled → m < span.start ∨ span.last < m →
      m + 60 < span.start ∨ span.last + 60 < m := by
    intro m hm hout
    rw [← hmin] at hm
    obtain ⟨other, hother, hin⟩ := List.mem_flatMap.mp hm
    obtain ⟨hlow, hhigh, -⟩ := (hsep.whole other hother).mem_iff.mp hin
    by_cases heq : other = span
    · subst heq
      omega
    · rcases hsep.or_of_ne hother h heq with hlt | hlt <;> omega
  refine ⟨hwhole.mem_iff.mpr ⟨le_rfl, hwhole.le, hwhole.start⟩,
    hwhole.mem_iff.mpr ⟨hwhole.le, le_rfl, hwhole.last⟩, fun m hm => ?_, fun hm => ?_, fun hm => ?_⟩
  · rw [← hmin]
    exact List.mem_flatMap.mpr ⟨span, h, hm⟩
  · have hle := hwhole.le
    rcases hend _ hm (.inl (by omega)) with hlt | hlt <;> omega
  · have hle := hwhole.le
    rcases hend _ hm (.inr (by omega)) with hlt | hlt <;> omega

end Missing

/-! ## Cutting at day boundaries -/

/-- The parts of a span: in order, together its minutes, each within so many UTC days. -/
structure Parts (days : Int) (span : Span) (parts : List Span) : Prop where
  symbol : ∀ a ∈ parts, a.symbol = span.symbol
  whole : ∀ a ∈ parts, a.Whole
  asc : parts.Pairwise fun a b => a.last < b.start
  within : ∀ a ∈ parts, span.start ≤ a.start ∧ a.last ≤ span.last
  minutes : parts.flatMap Span.eachMinute = span.eachMinute
  fits : ∀ a ∈ parts, a.lastDay - a.firstDay < days

theorem splitByDays_of_lt {days : Int} {rounds : Nat} {span : Span} (h : span.last < span.start) :
    splitByDays days rounds span = some [] := by
  cases rounds with
  | zero => exact if_neg (not_le.mpr h)
  | succ rounds => exact if_neg (not_le.mpr h)

theorem eachMinute_of_lt {span : Span} (h : span.last < span.start) : span.eachMinute = [] := by
  refine List.eq_nil_iff_forall_not_mem.mpr fun m hm => ?_
  obtain ⟨hle, hlast, -⟩ := Span.mem_eachMinute.mp hm
  omega

/-- **The loop ends**, after no more rounds than the span has minutes, and loses nothing. -/
theorem exists_splitByDays {days : Int} (hdays : 1 ≤ days) {span : Span} (hstart : 60 ∣ span.start)
    (hlast : 60 ∣ span.last) {rounds : Nat} (hrounds : (span.last - span.start) / 60 + 1 ≤ rounds) :
    ∃ parts, splitByDays days rounds span = some parts ∧ Parts days span parts := by
  induction rounds generalizing span with
  | zero =>
    have hlt : span.last < span.start := by omega
    exact ⟨[], splitByDays_of_lt hlt, by simp, by simp, .nil, by simp, (eachMinute_of_lt hlt).symm,
      by simp⟩
  | succ rounds ih =>
    by_cases hle : span.start ≤ span.last
    · obtain ⟨last, hl⟩ : ∃ last, last = min span.last ((span.firstDay + days) * 86400 - 60) := ⟨_, rfl⟩
      have hday : span.start < (span.firstDay + 1) * 86400 := by
        unfold Span.firstDay
        omega
      have hbound : 60 ∣ last ∧ span.start ≤ last ∧ last ≤ span.last ∧
          last ≤ (span.firstDay + days) * 86400 - 60 := by
        rcases min_choice span.last ((span.firstDay + days) * 86400 - 60) with h | h <;> omega
      obtain ⟨hl60, hsl, hls, hlb⟩ := hbound
      obtain ⟨parts, hparts, hspec⟩ := @ih { span with start := last + 60 }
        (by dsimp only; omega) hlast (by dsimp only; omega)
      have hfirst : (⟨span.symbol, span.start, last⟩ : Span).Whole := ⟨hsl, hstart, hl60⟩
      refine ⟨⟨span.symbol, span.start, last⟩ :: parts, ?_, ?_, ?_, ?_, ?_, ?_, ?_⟩
      · rw [splitByDays, if_pos hle]
        dsimp only
        rw [← hl, hparts]
        rfl
      · exact List.forall_mem_cons.mpr ⟨rfl, hspec.symbol⟩
      · exact List.forall_mem_cons.mpr ⟨hfirst, hspec.whole⟩
      · refine List.pairwise_cons.mpr ⟨fun a ha => ?_, hspec.asc⟩
        have hin := (hspec.within a ha).1
        dsimp only at hin ⊢
        omega
      · refine List.forall_mem_cons.mpr ⟨⟨le_rfl, hls⟩, fun a ha => ?_⟩
        obtain ⟨hlow, hhigh⟩ := hspec.within a ha
        dsimp only at hlow hhigh
        omega
      · rw [List.flatMap_cons, hspec.minutes]
        exact Span.eachMinute_append hsl hls hstart hl60
      · refine List.forall_mem_cons.mpr ⟨?_, hspec.fits⟩
        unfold Span.lastDay Span.firstDay at *
        dsimp only
        omega
    · have hlt : span.last < span.start := not_le.mp hle
      exact ⟨[], splitByDays_of_lt hlt, by simp, by simp, .nil, by simp, (eachMinute_of_lt hlt).symm,
        by simp⟩

/-- A span of few enough days is not cut. -/
theorem splitByDays_of_fits {days : Int} {span : Span} (h : span.Whole)
    (hfits : span.lastDay - span.firstDay < days) {rounds : Nat} {parts : List Span}
    (hparts : splitByDays days rounds span = some parts) : parts = [span] := by
  have hle := h.le
  cases rounds with
  | zero =>
    rw [splitByDays, if_pos hle] at hparts
    cases hparts
  | succ rounds =>
    have hlast : min span.last ((span.firstDay + days) * 86400 - 60) = span.last := by
      have halign := h.last
      unfold Span.lastDay Span.firstDay at *
      omega
    rw [splitByDays, if_pos hle] at hparts
    dsimp only at hparts
    rw [hlast, splitByDays_of_lt (by dsimp only; omega)] at hparts
    exact (Option.some.inj hparts).symm

/-! ## Grouping by days -/

/-- Some parts as requests: each within so many days of its first one, and later requests after all
of the earlier ones. -/
structure Groups (symbol : String) (days : Int) (requests : List Request) : Prop where
  symbol : ∀ r ∈ requests, r.symbol = symbol
  nonempty : ∀ r ∈ requests, r.spans ≠ []
  fits : ∀ r ∈ requests, ∀ first ∈ r.spans.head?, ∀ a ∈ r.spans, a.lastDay - first.firstDay < days
  apart : requests.Pairwise fun r r' => ∀ a ∈ r.spans, ∀ b ∈ r'.spans, a.last < b.start

theorem Groups.concat {symbol : String} {days : Int} {requests : List Request}
    (h : Groups symbol days requests) {current : List Span} (hne : current ≠ [])
    (hfits : ∀ first ∈ current.head?, ∀ a ∈ current, a.lastDay - first.firstDay < days)
    (hafter : ∀ r ∈ requests, ∀ a ∈ r.spans, ∀ b ∈ current, a.last < b.start) :
    Groups symbol days (requests ++ [⟨symbol, current⟩]) := by
  have hall : ∀ P : Request → Prop, (∀ r ∈ requests, P r) → P ⟨symbol, current⟩ →
      ∀ r ∈ requests ++ [⟨symbol, current⟩], P r := by
    intro P hrs hc r hr
    rcases List.mem_append.mp hr with hr | hr
    · exact hrs r hr
    · rw [List.mem_singleton.mp hr]
      exact hc
  refine ⟨hall _ h.symbol rfl, hall _ h.nonempty hne, hall _ h.fits hfits, ?_⟩
  refine List.pairwise_append.mpr ⟨h.apart, List.pairwise_singleton .., fun r hr r' hr' => ?_⟩
  rw [List.mem_singleton.mp hr']
  exact hafter r hr

/-- The loop between two parts. -/
structure Grouping (symbol : String) (days : Int) (s : List Request × List Span)
    (parts : List Span) : Prop where
  groups : Groups symbol days s.1
  fits : ∀ first ∈ s.2.head?, ∀ a ∈ s.2, a.lastDay - first.firstDay < days
  after : ∀ r ∈ s.1, ∀ a ∈ r.spans, ∀ b ∈ s.2, a.last < b.start
  started : s.2 = [] → s.1 = []
  flat : s.1.flatMap Request.spans ++ s.2 = parts

/-- **One part**: it is in the current request, or begins one that is after all before it. A part seen
again is in the request it was in. -/
theorem Grouping.step {symbol : String} {days : Int} {s : List Request × List Span}
    {parts : List Span} (h : Grouping symbol days s parts) {x : Span} (hx : x.start ≤ x.last)
    (hxfits : x.lastDay - x.firstDay < days)
    (hparts : ∀ a ∈ parts, a.start ≤ a.last ∧ (a.last < x.start ∨ a = x)) :
    Grouping symbol days (groupPart symbol days s x) (parts ++ [x]) := by
  obtain ⟨requests, current⟩ := s
  obtain ⟨hgroups, hfits, hafter, hstarted, hflat⟩ := h
  dsimp only at hgroups hfits hafter hstarted hflat
  unfold groupPart
  cases current with
  | nil =>
    rw [hstarted rfl] at hflat
    rw [hstarted rfl, ← hflat]
    refine ⟨⟨by simp, by simp, by simp, .nil⟩, ?_, by simp, by simp, by simp⟩
    rintro first hfirst a ha
    cases hfirst
    rw [List.mem_singleton.mp ha]
    exact hxfits
  | cons first rest =>
    have hin : ∀ a ∈ first :: rest, a ∈ parts := by
      intro a ha
      rw [← hflat]
      exact List.mem_append_right _ ha
    have hfirst := hparts first (hin first (List.mem_cons_self ..))
    -- what is before the current request is before `x`
    have hbefore : ∀ r ∈ requests, ∀ a ∈ r.spans, a.last < x.start := by
      intro r hr a ha
      have hlt := hafter r hr a ha first (List.mem_cons_self ..)
      rcases hfirst.2 with hfx | rfl
      · exact hlt.trans (lt_of_le_of_lt hfirst.1 hfx)
      · exact hlt
    dsimp only
    split
    · next hfull =>
      have hlast : ∀ a ∈ first :: rest, a.last < x.start := by
        intro a ha
        rcases (hparts a (hin a ha)).2 with hlt | rfl
        · exact hlt
        · exact absurd hfull (not_le.mpr (hfits first rfl a ha))
      refine ⟨hgroups.concat (List.cons_ne_nil _ _) hfits hafter, ?_, ?_, by simp, ?_⟩
      · rintro f hf a ha
        cases hf
        rw [List.mem_singleton.mp ha]
        exact hxfits
      · intro r hr a ha b hb
        rw [List.mem_singleton.mp hb]
        rcases List.mem_append.mp hr with hr | hr
        · exact hbefore r hr a ha
        · rw [List.mem_singleton.mp hr] at ha
          exact hlast a ha
      · simp [← hflat]
    · next hroom =>
      refine ⟨hgroups, ?_, ?_, by simp, ?_⟩
      · rintro f hf a ha
        cases hf
        rcases List.mem_append.mp ha with ha | ha
        · exact hfits first rfl a ha
        · rw [List.mem_singleton.mp ha]
          exact not_le.mp hroom
      · intro r hr a ha b hb
        rcases List.mem_append.mp hb with hb | hb
        · exact hafter r hr a ha b hb
        · rw [List.mem_singleton.mp hb]
          exact hbefore r hr a ha
      · simp [← hflat]

/-- **Later requests are after all of the earlier ones**, where a part that is listed again follows
itself. -/
theorem grouped_spec {symbol : String} {days : Int} {parts : List Span}
    (hwhole : ∀ a ∈ parts, a.start ≤ a.last) (hfits : ∀ a ∈ parts, a.lastDay - a.firstDay < days)
    (hasc : parts.Pairwise fun a b => a.last < b.start ∨ a = b) :
    Groups symbol days (grouped symbol days parts) ∧
      (grouped symbol days parts).flatMap Request.spans = parts := by
  have hloop : Grouping symbol days (parts.foldl (groupPart symbol days) ([], [])) parts := by
    induction parts using List.reverseRecOn with
    | nil => exact ⟨⟨by simp, by simp, by simp, .nil⟩, by simp, by simp, fun _ => rfl, rfl⟩
    | append_singleton parts x ih =>
      obtain ⟨hparts, -, hx⟩ := List.pairwise_append.mp hasc
      have hold : ∀ a ∈ parts, a ∈ parts ++ [x] := fun a ha => List.mem_append_left _ ha
      have hnew : x ∈ parts ++ [x] := List.mem_append_right _ (List.mem_singleton_self x)
      rw [List.foldl_concat]
      exact (ih (fun a ha => hwhole a (hold a ha)) (fun a ha => hfits a (hold a ha)) hparts).step
        (hwhole x hnew) (hfits x hnew)
        fun a ha => ⟨hwhole a (hold a ha), hx a ha x (List.mem_singleton_self x)⟩
  unfold grouped
  generalize parts.foldl (groupPart symbol days) ([], []) = s at hloop
  dsimp only
  split
  · next hnil =>
    have hflat := hloop.flat
    rw [hnil, List.append_nil] at hflat
    exact ⟨hloop.groups, hflat⟩
  · next hne =>
    refine ⟨hloop.groups.concat hne hloop.fits hloop.after, ?_⟩
    rw [List.flatMap_append, List.flatMap_singleton]
    exact hloop.flat

/-! ## The plan -/

/-- The spans of one symbol in order; one that is listed again follows itself, and is not cut. -/
def Listed (days : Int) (spans : List Span) : Prop :=
  spans.Pairwise fun a b => a.last < b.start ∨ a = b ∧ a.lastDay - a.firstDay < days

/-- Rounds enough for each of the spans: a round takes at least a minute of one. -/
def roundsFor (spans : List Span) : Nat :=
  (spans.map fun a => ((a.last - a.start) / 60 + 1).toNat).sum

theorem le_roundsFor {spans : List Span} {a : Span} (h : a ∈ spans) :
    (a.last - a.start) / 60 + 1 ≤ roundsFor spans := by
  induction spans with
  | nil => cases h
  | cons b spans ih =>
    unfold roundsFor at ih ⊢
    rw [List.map_cons, List.sum_cons]
    rcases List.mem_cons.mp h with rfl | h
    · omega
    · have hle := ih h
      omega

/-- The spans of a symbol cut, with rounds enough for each. -/
theorem exists_mapM_splitByDays {days : Int} (hdays : 1 ≤ days) {spans : List Span}
    (hwhole : ∀ a ∈ spans, a.Whole) (hlisted : Listed days spans) {rounds : Nat}
    (hrounds : ∀ a ∈ spans, (a.last - a.start) / 60 + 1 ≤ rounds) :
    ∃ parts, spans.mapM (splitByDays days rounds) = some parts ∧
      (∀ a ∈ parts.flatten, ∃ b ∈ spans, ∃ cut, splitByDays days rounds b = some cut ∧
        Parts days b cut ∧ a ∈ cut) ∧
      (parts.flatten.Pairwise fun a b => a.last < b.start ∨ a = b) ∧
      parts.flatten.flatMap Span.eachMinute = spans.flatMap Span.eachMinute := by
  induction spans with
  | nil => exact ⟨[], rfl, by simp, .nil, rfl⟩
  | cons span spans ih =>
    obtain ⟨hspan, hspans⟩ := List.forall_mem_cons.mp hwhole
    obtain ⟨hround, hrounds⟩ := List.forall_mem_cons.mp hrounds
    obtain ⟨hnext, hlisted⟩ := List.pairwise_cons.mp hlisted
    obtain ⟨rest, hrest, hrestall, hrestasc, hrestmin⟩ := ih hspans hlisted hrounds
    obtain ⟨parts, hparts, hspec⟩ := exists_splitByDays hdays hspan.start hspan.last hround
    refine ⟨parts :: rest, ?_, ?_, ?_, ?_⟩
    · rw [List.mapM_cons, hparts, hrest]
      rfl
    · intro a ha
      rcases List.mem_append.mp (List.flatten_cons ▸ ha) with ha | ha
      · exact ⟨span, List.mem_cons_self .., parts, hparts, hspec, ha⟩
      · obtain ⟨b, hb, hcut⟩ := hrestall a ha
        exact ⟨b, List.mem_cons_of_mem _ hb, hcut⟩
    · rw [List.flatten_cons]
      refine List.pairwise_append.mpr ⟨hspec.asc.imp Or.inl, hrestasc, fun a ha b hb => ?_⟩
      obtain ⟨c, hc, cut, hcut, hcutspec, hbc⟩ := hrestall b hb
      have hhigh := (hspec.within a ha).2
      have hlow := (hcutspec.within b hbc).1
      rcases hnext c hc with hlt | ⟨rfl, hfits⟩
      · exact .inl (by omega)
      · -- a span listed again is its own only part, both times
        rw [splitByDays_of_fits hspan hfits hparts, List.mem_singleton] at ha
        rw [splitByDays_of_fits hspan hfits hcut, List.mem_singleton] at hbc
        exact .inr (ha.trans hbc.symm)
    · rw [List.flatten_cons, List.flatMap_append, hspec.minutes, hrestmin, List.flatMap_cons]

/-- The requests of one symbol. -/
structure Planned (days : Int) (sym : String) (spans : List Span) (requests : List Request) :
    Prop extends Groups sym days requests where
  whole : ∀ r ∈ requests, ∀ a ∈ r.spans, a.Whole ∧ a.symbol = sym
  minutes : (requests.flatMap Request.spans).flatMap Span.eachMinute = spans.flatMap Span.eachMinute
  asc : (requests.flatMap Request.spans).Pairwise fun a b => a.last < b.start ∨ a = b

theorem mem_spansOf {spans : List Span} {symbol : String} {a : Span} :
    a ∈ spansOf spans symbol ↔ a ∈ spans ∧ a.symbol = symbol := by
  simp [spansOf]

theorem exists_planSymbol {days : Int} (hdays : 1 ≤ days) {spans : List Span}
    (hwhole : ∀ a ∈ spans, a.Whole) {symbol : String} (hlisted : Listed days (spansOf spans symbol))
    {rounds : Nat} (hrounds : ∀ a ∈ spans, (a.last - a.start) / 60 + 1 ≤ rounds) :
    ∃ requests, planSymbol spans days rounds symbol = some requests ∧
      Planned days symbol (spansOf spans symbol) requests := by
  obtain ⟨parts, hparts, hcuts, hasc, hmin⟩ := exists_mapM_splitByDays hdays
    (fun a ha => hwhole a (mem_spansOf.mp ha).1) hlisted
    (fun a ha => hrounds a (mem_spansOf.mp ha).1)
  have hpart : ∀ a ∈ parts.flatten, a.Whole ∧ a.symbol = symbol ∧ a.lastDay - a.firstDay < days := by
    intro a ha
    obtain ⟨b, hb, cut, -, hspec, hab⟩ := hcuts a ha
    exact ⟨hspec.whole a hab, (hspec.symbol a hab).trans (mem_spansOf.mp hb).2, hspec.fits a hab⟩
  obtain ⟨hgroups, hflat⟩ := @grouped_spec symbol _ _ (fun a ha => (hpart a ha).1.le)
    (fun a ha => (hpart a ha).2.2) hasc
  refine ⟨grouped symbol days parts.flatten, ?_, ⟨hgroups, fun r hr a ha => ?_, ?_, ?_⟩⟩
  · rw [planSymbol, hparts]
    rfl
  · have hin : a ∈ parts.flatten := by
      rw [← hflat]
      exact List.mem_flatMap.mpr ⟨r, hr, ha⟩
    exact ⟨(hpart a hin).1, (hpart a hin).2.1⟩
  · rw [hflat, hmin]
  · rw [hflat]
    exact hasc

section Planned

variable {days : Int} {sym : String} {spans : List Span} {requests : List Request}

/-- Where the minutes ascend, so do the spans. -/
theorem Planned.ascending (h : Planned days sym spans requests)
    (hmin : (spans.flatMap Span.eachMinute).Pairwise (· < ·)) :
    (requests.flatMap Request.spans).Pairwise fun a b => a.last < b.start := by
  rw [← h.minutes] at hmin
  refine (List.pairwise_flatMap.mp hmin).2.imp_of_mem fun {a b} ha hb hab => ?_
  obtain ⟨r, hr, ha⟩ := List.mem_flatMap.mp ha
  obtain ⟨r', hr', hb⟩ := List.mem_flatMap.mp hb
  have haw := (h.whole r hr a ha).1
  have hbw := (h.whole r' hr' b hb).1
  exact hab _ (haw.mem_iff.mpr ⟨haw.le, le_rfl, haw.last⟩) _
    (hbw.mem_iff.mpr ⟨le_rfl, hbw.le, hbw.start⟩)

/-- The minutes of a request are of `days` days, from the first span's on. -/
theorem Planned.exists_day (h : Planned days sym spans requests) {r : Request} (hr : r ∈ requests) :
    ∃ day, ∀ a ∈ r.spans, ∀ m ∈ a.eachMinute, day ≤ m / 86400 ∧ m / 86400 < day + days := by
  have hown : r.spans.Pairwise fun a b => a.last < b.start ∨ a = b :=
    (List.pairwise_flatMap.mp h.asc).1 r hr
  have hfits := h.fits r hr
  have hle := fun a ha => (h.whole r hr a ha).1.le
  cases hspans : r.spans with
  | nil => exact absurd hspans (h.nonempty r hr)
  | cons first rest =>
    rw [hspans] at hown hfits hle
    refine ⟨first.firstDay, fun a ha m hm => ?_⟩
    have hday := hfits first rfl a ha
    obtain ⟨hlow, hhigh, -⟩ := Span.mem_eachMinute.mp hm
    have hfirst : first.start ≤ a.start := by
      rcases List.mem_cons.mp ha with rfl | ha
      · exact le_rfl
      · have hf := hle first (List.mem_cons_self ..)
        rcases (List.pairwise_cons.mp hown).1 a ha with hlt | rfl
        · omega
        · exact le_rfl
    unfold Span.lastDay Span.firstDay at *
    omega

end Planned

/-- The symbols of the spans, each once. -/
theorem nodup_symbolsOf (spans : List Span) : (symbolsOf spans).Nodup :=
  (List.perm_insertionSort _ _).nodup_iff.mpr (List.nodup_dedup _)

theorem mem_symbolsOf {spans : List Span} {symbol : String} :
    symbol ∈ symbolsOf spans ↔ ∃ a ∈ spans, a.symbol = symbol := by
  simp [symbolsOf]

theorem exists_mapM_planSymbol {days : Int} (hdays : 1 ≤ days) {spans : List Span}
    (hwhole : ∀ a ∈ spans, a.Whole) (hlisted : ∀ symbol, Listed days (spansOf spans symbol))
    {rounds : Nat} (hrounds : ∀ a ∈ spans, (a.last - a.start) / 60 + 1 ≤ rounds)
    {symbols : List String} (hnd : symbols.Nodup) :
    ∃ plans, symbols.mapM (planSymbol spans days rounds) = some plans ∧
      (∀ r ∈ plans.flatten, r.symbol ∈ symbols) ∧
      ∀ symbol ∈ symbols,
        Planned days symbol (spansOf spans symbol) (plans.flatten.filter (·.symbol = symbol)) := by
  induction symbols with
  | nil => exact ⟨[], rfl, by simp, by simp⟩
  | cons symbol symbols ih =>
    obtain ⟨hnew, hnd⟩ := List.nodup_cons.mp hnd
    obtain ⟨plans, hplans, hsym, hall⟩ := ih hnd
    obtain ⟨requests, hreq, hspec⟩ := exists_planSymbol hdays hwhole (hlisted symbol) hrounds
    refine ⟨requests :: plans, ?_, ?_, ?_⟩
    · rw [List.mapM_cons, hreq, hplans]
      rfl
    · intro r hr
      rcases List.mem_append.mp (List.flatten_cons ▸ hr) with hr | hr
      · rw [hspec.symbol r hr]
        exact List.mem_cons_self ..
      · exact List.mem_cons_of_mem _ (hsym r hr)
    · intro sym hsymin
      rw [List.flatten_cons, List.filter_append]
      rcases List.mem_cons.mp hsymin with rfl | hsymin
      · have hself : requests.filter (·.symbol = sym) = requests :=
          List.filter_eq_self.mpr fun r hr => decide_eq_true (hspec.symbol r hr)
        have hnone : plans.flatten.filter (·.symbol = sym) = [] := by
          refine List.filter_eq_nil_iff.mpr fun r hr => ?_
          rw [decide_eq_true_iff]
          rintro rfl
          exact hnew (hsym r hr)
        rw [hself, hnone, List.append_nil]
        exact hspec
      · have hnone : requests.filter (·.symbol = sym) = [] := by
          refine List.filter_eq_nil_iff.mpr fun r hr => ?_
          rw [decide_eq_true_iff, hspec.symbol r hr]
          rintro rfl
          exact hnew hsymin
        rw [hnone, List.nil_append]
        exact hall sym hsymin

/-- **A plan** is made in rounds enough, and has the requests of each symbol. -/
theorem exists_planRequests {days : Int} (hdays : 1 ≤ days) {spans : List Span}
    (hwhole : ∀ a ∈ spans, a.Whole) (hlisted : ∀ symbol, Listed days (spansOf spans symbol))
    {rounds : Nat} (hrounds : roundsFor spans ≤ rounds) :
    ∃ requests, planRequests spans days rounds = some requests ∧
      ∀ symbol, Planned days symbol (spansOf spans symbol) (requests.filter (·.symbol = symbol)) := by
  obtain ⟨plans, hplans, hsym, hall⟩ := exists_mapM_planSymbol hdays hwhole hlisted
    (fun a ha => (le_roundsFor ha).trans (by exact_mod_cast hrounds)) (nodup_symbolsOf spans)
  refine ⟨plans.flatten, ?_, fun symbol => ?_⟩
  · rw [planRequests, hplans]
    rfl
  · by_cases hin : symbol ∈ symbolsOf spans
    · exact hall symbol hin
    · -- no span is of it, and no request
      have hnone : plans.flatten.filter (·.symbol = symbol) = [] := by
        refine List.filter_eq_nil_iff.mpr fun r hr => ?_
        rw [decide_eq_true_iff]
        rintro rfl
        exact hin (hsym r hr)
      have hempty : spansOf spans symbol = [] := by
        refine List.eq_nil_iff_forall_not_mem.mpr fun a ha => ?_
        exact hin (mem_symbolsOf.mpr ⟨a, mem_spansOf.mp ha⟩)
      rw [hnone, hempty]
      exact ⟨⟨by simp, by simp, by simp, .nil⟩, by simp, rfl, .nil⟩

/-- Spans apart from each other are in order once they are sorted, and one that is listed again follows
itself. -/
theorem listed_spansOf {days : Int} {spans : List Span} (hwhole : ∀ a ∈ spans, a.Whole) {symbol : String}
    (hapart : ∀ a ∈ spansOf spans symbol, ∀ b ∈ spansOf spans symbol, a ≠ b →
      a.last < b.start ∨ b.last < a.start)
    (hagain : (spans.filter (·.symbol = symbol)).Nodup ∨
      ∀ a ∈ spansOf spans symbol, a.lastDay - a.firstDay < days) :
    Listed days (spansOf spans symbol) := by
  have hsorted : (spansOf spans symbol).Pairwise fun a b => a.start ≤ b.start :=
    List.pairwise_insertionSort (fun a b : Span => a.start ≤ b.start) _
  have horder : ∀ a ∈ spansOf spans symbol, ∀ b ∈ spansOf spans symbol, a.start ≤ b.start → a ≠ b →
      a.last < b.start := by
    intro a ha b hb hle hne
    rcases hapart a ha b hb hne with hlt | hlt
    · exact hlt
    · have hb := (hwhole b (mem_spansOf.mp hb).1).le
      omega
  rcases hagain with hnd | hfits
  · have hnd : (spansOf spans symbol).Nodup :=
      (List.perm_insertionSort (fun a b : Span => a.start ≤ b.start) _).nodup_iff.mpr hnd
    refine (hsorted.and hnd).imp_of_mem fun ha hb h => .inl ?_
    exact horder _ ha _ hb h.1 h.2
  · refine hsorted.imp_of_mem fun {a b} ha hb hle => ?_
    by_cases heq : a = b
    · exact .inr ⟨heq, hfits a ha⟩
    · exact .inl (horder a ha b hb hle heq)

section Plan

variable {symbols : List String} {expected : List Int} {present : String → List Int}
  {settled : String → List (Int × Int)} {spans : List Span}

/-- `spans` are the missing spans of the symbols, which differ: each symbol's once, in any order. -/
structure Enumerates (symbols : List String) (missing : String → List Span) (spans : List Span) :
    Prop where
  nodup : spans.Nodup
  mem_iff : ∀ a, a ∈ spans ↔ a.symbol ∈ symbols ∧ a ∈ missing a.symbol

/-- Requests for the missing minutes of the symbols. -/
structure Plan (symbols : List String) (missing : String → List Int) (days : Int)
    (requests : List Request) : Prop where
  /-- From span to span and from request to request they are the missing minutes, each once. -/
  minutes : ∀ symbol,
    ((requests.filter (·.symbol = symbol)).flatMap Request.spans).flatMap Span.eachMinute =
      if symbol ∈ symbols then missing symbol else []
  spans : ∀ r ∈ requests, r.spans ≠ [] ∧ ∀ a ∈ r.spans, a.symbol = r.symbol ∧ a.start ≤ a.last
  days : ∀ r ∈ requests, ∃ day, ∀ a ∈ r.spans, ∀ m ∈ a.eachMinute,
    day ≤ m / 86400 ∧ m / 86400 < day + days
  ascending : ∀ symbol, ((requests.filter (·.symbol = symbol)).flatMap Request.spans).Pairwise
    fun a b => a.last < b.start

/-- **The spans of a symbol** in a plan are its missing spans, in their order. -/
theorem spansOf_eq (hasc : expected.Pairwise (· < ·)) (haligned : ∀ m ∈ expected, 60 ∣ m)
    (h : Enumerates symbols (fun s => missingSpans s expected (present s) (settled s)) spans)
    (symbol : String) :
    spansOf spans symbol =
      if symbol ∈ symbols then missingSpans symbol expected (present symbol) (settled symbol) else [] := by
  obtain ⟨hsep, -⟩ :=
    @missingSpans_spec symbol expected (present symbol) (settled symbol) hasc haligned
  have hmem : ∀ a, a ∈ spansOf spans symbol ↔
      symbol ∈ symbols ∧ a ∈ missingSpans symbol expected (present symbol) (settled symbol) := by
    intro a
    rw [mem_spansOf, h.mem_iff]
    constructor
    · rintro ⟨ha, rfl⟩
      exact ha
    · rintro ⟨hs, ha⟩
      have hsym := hsep.symbol a ha
      rw [hsym]
      exact ⟨⟨hs, ha⟩, rfl⟩
  have hasc' : (missingSpans symbol expected (present symbol) (settled symbol)).Pairwise
      fun a b => a.start < b.start := by
    refine hsep.apart.imp_of_mem fun {a b} ha _ hlt => ?_
    have hle := (hsep.whole a ha).le
    omega
  split
  · next hin =>
    refine eq_of_mem_iff ?_ hasc' fun a => by rw [hmem]; exact and_iff_right hin
    have hsorted := List.pairwise_insertionSort (fun a b : Span => a.start ≤ b.start)
      (spans.filter (·.symbol = symbol))
    have hnd : (spansOf spans symbol).Nodup :=
      (List.perm_insertionSort (fun a b : Span => a.start ≤ b.start) _).nodup_iff.mpr (h.nodup.filter _)
    refine (List.Pairwise.and hsorted hnd).imp_of_mem fun {a b} ha hb hab => ?_
    refine lt_of_le_of_ne hab.1 fun heq => hab.2 ?_
    exact eq_of_key_eq hasc' ((hmem a).mp ha).2 ((hmem b).mp hb).2 heq
  · next hout =>
    refine List.eq_nil_iff_forall_not_mem.mpr fun a ha => ?_
    exact hout ((hmem a).mp ha).1

/-- **Every missing minute is in one span of one request**, and the loops end. The symbols differ
(`enumerates_flatMap`). -/
theorem planRequests_spec (hasc : expected.Pairwise (· < ·)) (haligned : ∀ m ∈ expected, 60 ∣ m)
    {days : Int} (hdays : 1 ≤ days)
    (hspans : Enumerates symbols (fun s => missingSpans s expected (present s) (settled s)) spans) :
    (∀ symbol, ∀ a ∈ missingSpans symbol expected (present symbol) (settled symbol),
      MaximalRun (missingMinutes expected (present symbol) (settled symbol)) a) ∧
    ∃ enough, ∀ rounds, enough ≤ rounds → ∃ requests,
      planRequests spans days rounds = some requests ∧
      Plan symbols (fun s => missingMinutes expected (present s) (settled s)) days requests := by
  refine ⟨fun symbol a ha => maximal_of_mem hasc haligned ha, ?_⟩
  have hsep : ∀ symbol, Separated symbol
      (missingSpans symbol expected (present symbol) (settled symbol)) :=
    fun symbol => (missingSpans_spec hasc haligned).1
  have hof : ∀ symbol, ∀ a ∈ spansOf spans symbol,
      a ∈ missingSpans symbol expected (present symbol) (settled symbol) := by
    intro symbol a ha
    rw [spansOf_eq hasc haligned hspans] at ha
    split at ha
    · exact ha
    · cases ha
  have hwhole : ∀ a ∈ spans, a.Whole := fun a ha =>
    (hsep a.symbol).whole a ((hspans.mem_iff a).mp ha).2
  have hlisted : ∀ symbol, Listed days (spansOf spans symbol) := by
    refine fun symbol => listed_spansOf hwhole (fun a ha b hb hne => ?_) (.inl (hspans.nodup.filter _))
    refine ((hsep symbol).or_of_ne (hof symbol a ha) (hof symbol b hb) hne).imp ?_ ?_ <;> omega
  refine ⟨roundsFor spans, fun rounds hrounds => ?_⟩
  obtain ⟨requests, hreq, hall⟩ := exists_planRequests hdays hwhole hlisted hrounds
  have hself : ∀ r ∈ requests, r ∈ requests.filter (·.symbol = r.symbol) :=
    fun r hr => List.mem_filter.mpr ⟨hr, by simp⟩
  have hminutes : ∀ symbol,
      ((requests.filter (·.symbol = symbol)).flatMap Request.spans).flatMap Span.eachMinute =
        if symbol ∈ symbols then missingMinutes expected (present symbol) (settled symbol) else [] := by
    intro symbol
    rw [(hall symbol).minutes, spansOf_eq hasc haligned hspans]
    split
    · exact (missingSpans_spec hasc haligned).2
    · rfl
  refine ⟨requests, hreq, hminutes, fun r hr => ?_, fun r hr => ?_, fun symbol => ?_⟩
  · obtain ⟨hgroups, hw, -⟩ := hall r.symbol
    exact ⟨hgroups.nonempty r (hself r hr), fun a ha =>
      ⟨(hw r (hself r hr) a ha).2, (hw r (hself r hr) a ha).1.le⟩⟩
  · exact (hall r.symbol).exists_day (hself r hr)
  · refine (hall symbol).ascending ?_
    rw [← (hall symbol).minutes, hminutes]
    split
    · exact hasc.filter _
    · exact .nil

/-- What a run hands over for symbols that it lists once: `symbols.flatMap` of their spans. -/
theorem enumerates_flatMap (hasc : expected.Pairwise (· < ·)) (haligned : ∀ m ∈ expected, 60 ∣ m)
    (hsymbols : symbols.Nodup) :
    Enumerates symbols (fun s => missingSpans s expected (present s) (settled s))
      (symbols.flatMap fun s => missingSpans s expected (present s) (settled s)) := by
  have hsep : ∀ s, Separated s (missingSpans s expected (present s) (settled s)) :=
    fun s => (missingSpans_spec hasc haligned).1
  refine ⟨?_, fun a => ?_⟩
  · refine List.nodup_flatMap.mpr ⟨fun s _ => ?_, hsymbols.imp fun hne => ?_⟩
    · refine (hsep s).apart.imp_of_mem fun {a b} ha _ hlt heq => ?_
      subst heq
      have hle := ((hsep s).whole a ha).le
      omega
    · intro a ha hb
      exact hne (((hsep _).symbol a ha).symm.trans ((hsep _).symbol a hb))
  · rw [List.mem_flatMap]
    constructor
    · rintro ⟨s, hs, ha⟩
      have hsym := (hsep s).symbol a ha
      rw [hsym]
      exact ⟨hs, ha⟩
    · exact fun h => ⟨a.symbol, h.1, h.2⟩

end Plan

/-- The minutes beside midnight, of two symbols: one of them has the second. -/
theorem planRequests_spec_midnight :
    planRequests [⟨"EURUSD", 86340, 86400⟩, ⟨"GBPUSD", 86340, 86340⟩] 1 3 =
      some [⟨"EURUSD", [⟨"EURUSD", 86340, 86340⟩]⟩, ⟨"EURUSD", [⟨"EURUSD", 86400, 86400⟩]⟩,
        ⟨"GBPUSD", [⟨"GBPUSD", 86340, 86340⟩]⟩] ∧
    ∃ enough, ∀ rounds, enough ≤ rounds → ∃ requests,
      planRequests [⟨"EURUSD", 86340, 86400⟩, ⟨"GBPUSD", 86340, 86340⟩] 1 rounds = some requests ∧
      Plan ["EURUSD", "GBPUSD"]
        (fun s => missingMinutes [86340, 86400] (if s = "GBPUSD" then [86400] else []) []) 1 requests :=
  ⟨by decide +kernel,
    (@planRequests_spec ["EURUSD", "GBPUSD"] [86340, 86400]
      (fun s => if s = "GBPUSD" then [86400] else []) (fun _ => []) _
      (by decide) (by decide) 1 (by decide)
      (enumerates_flatMap (by decide) (by decide) (by decide))).2⟩

end FxTracker.Ingestor.Recovery
