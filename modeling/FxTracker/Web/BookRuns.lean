import FxTracker.Web.Minutes

/-!
# A minute book over any calls

`MinuteBook` of `apps/web/src/lib/stream/minutes.ts` under any sequence of its calls, with what each
returns. Arrays have an identity here: `sorted` returns the one it returned before until something
changes.

* `put_cases` — what `put` does to the slots, and whether it says so
* `lt_of_trimmed` — only the oldest minutes are trimmed
* `bookRun_spec` — the representation after any calls
-/

namespace FxTracker.Web

variable {K : Type}

/-- A book, and which array its `#sorted` is: `EMPTY` is 0, and the others are numbered as they are
made. -/
structure Shown (K : Type) where
  book : MinuteBook K := {}
  ref : Nat := 0
  made : Nat := 0

inductive BookCall (K : Type)
  | put (bar : Candle K) (kind : String)
  | provisional (bar : Candle K)
  | dropUnsealed (lo hi : Int) (present : List Int)
  | clear
  | sorted

/-- What a call returns. -/
inductive Answer (K : Type)
  | shown (changed : Bool)
  | cleared
  | minutes (ref : Nat) (bars : List (Candle K))

/-- No mutator that says the minutes changed. -/
def Answer.Quiet : Answer K → Prop
  | .shown changed => changed = false
  | .cleared => False
  | .minutes .. => True

section Calls

variable [LT K] [DecidableLT K]

/-- `dropUnsealed`, and whether it dropped anything. -/
def MinuteBook.dropUnsealedTell (book : MinuteBook K) (lo hi : Int) (present : List Int) :
    Option (MinuteBook K × Bool) :=
  (book.slots.entries.foldlM (MinuteBook.dropMinute lo hi present) (book, false)).map fun s =>
    (if s.2 then { s.1 with stale := true } else s.1, s.2)

theorem MinuteBook.dropUnsealed_eq (book : MinuteBook K) (lo hi : Int) (present : List Int) :
    book.dropUnsealed lo hi present = (book.dropUnsealedTell lo hi present).map Prod.fst := by
  rw [MinuteBook.dropUnsealed, MinuteBook.dropUnsealedTell, Option.map_map]
  rfl

variable [DecidableEq K]

namespace BookCall

/-- The report a call puts, if it puts one. -/
def report : BookCall K → Option (Candle K × String)
  | .put bar kind => some (bar, kind)
  | .provisional bar => some ({ bar with src := "stream" }, provisionalKind)
  | _ => none

def apply (s : Shown K) : BookCall K → Option (Shown K × Answer K)
  | .put bar kind => (s.book.put bar kind).map fun r => ({ s with book := r.1 }, .shown r.2)
  | .provisional bar => (s.book.put { bar with src := "stream" } provisionalKind).map fun r =>
    ({ s with book := r.1 }, .shown r.2)
  | .dropUnsealed lo hi present => (s.book.dropUnsealedTell lo hi present).map fun r =>
    ({ s with book := r.1 }, .shown r.2)
  | .clear => some ({ s with book := {}, ref := 0 }, .cleared)
  | .sorted =>
    let r := s.book.sorted
    if s.book.stale then some (⟨r.2, s.made + 1, s.made + 1⟩, .minutes (s.made + 1) r.1)
    else some ({ s with book := r.2 }, .minutes s.ref r.1)

/-- Where the calls lead, and what they return; `none` where one raises. -/
def run : Shown K → List (BookCall K) → Option (Shown K × List (Answer K))
  | s, [] => some (s, [])
  | s, call :: calls => do
    let next ← call.apply s
    let rest ← run next.1 calls
    some (rest.1, next.2 :: rest.2)

end BookCall

end Calls

/-! ## Trimming -/

/-- **Only the oldest minutes go.** -/
theorem lt_of_trimmed {book : MinuteBook K} {t x : Int} (ht : t ∈ book.slots.keys)
    (hgone : t ∉ book.changed.slots.keys) (hx : x ∈ book.changed.slots.keys) : t < x := by
  rw [MinuteBook.slots_changed] at hgone hx
  by_cases hbig : book.slots.size ≤ minuteCap + trimSlack
  · rw [if_pos hbig] at hgone
    exact absurd ht hgone
  · rw [if_neg hbig] at hgone hx
    have hleft := (MinuteBook.keys_trim book).mem_iff.mp hx
    refine MinuteBook.lt_of_mem_trimmed ?_ hleft
    rw [keys_foldl_erase] at hgone
    by_contra hkept
    exact hgone (List.mem_filter.mpr ⟨ht, by simpa using hkept⟩)

/-! ## The minutes shown -/

section Runs

variable [LT K] [DecidableLT K]

theorem BookOk.perm_times {book : MinuteBook K} (h : BookOk book) :
    (book.minutes.map Candle.t).Perm book.slots.keys := by
  have hperm := List.perm_insertionSort (fun a b : Candle K => a.t ≤ b.t)
    (book.slots.values.map Slot.merged)
  have hkeys : (book.slots.values.map Slot.merged).map Candle.t = book.slots.keys := by
    unfold Dict.values Dict.keys
    rw [List.map_map, List.map_map]
    refine List.map_congr_left fun e he => ?_
    exact (h.slot e.1 e.2 (Dict.mem_entries_iff.mp he)).merged_t
  rw [← hkeys]
  exact hperm.map Candle.t

/-- The minutes are in order, each once. -/
theorem BookOk.pairwise_sorted {book : MinuteBook K} (h : BookOk book) :
    book.sorted.1.Pairwise fun a b => a.t < b.t := by
  have hle : book.minutes.Pairwise fun a b => a.t ≤ b.t := List.pairwise_insertionSort ..
  have hne : book.minutes.Pairwise fun a b => a.t ≠ b.t :=
    List.pairwise_map.mp (h.perm_times.nodup_iff.mpr book.slots.nodup)
  rw [h.sorted_fst]
  exact (hle.and hne).imp fun h => lt_of_le_of_ne h.1 h.2

theorem BookOk.mem_sorted {book : MinuteBook K} (h : BookOk book) {m : Candle K} :
    m ∈ book.sorted.1 ↔ ∃ t slot, book.slots.get? t = some slot ∧ slot.merged = m := by
  rw [h.sorted_fst, MinuteBook.minutes, List.mem_insertionSort, List.mem_map]
  constructor
  · rintro ⟨slot, hslot, rfl⟩
    obtain ⟨e, he, rfl⟩ := List.mem_map.mp hslot
    exact ⟨e.1, e.2, Dict.mem_entries_iff.mp he, rfl⟩
  · rintro ⟨t, slot, hget, rfl⟩
    exact ⟨slot, List.mem_map.mpr ⟨(t, slot), Dict.mem_entries_iff.mpr hget, rfl⟩, rfl⟩

/-! ## One call -/

variable [DecidableEq K]

/-- **What `put` does.** It says no where it leaves the slots, or what one of them shows; after a yes the
oldest may go. -/
theorem put_cases {book book' : MinuteBook K} {bar : Candle K} {kind : String} {changed : Bool}
    (h : book.put bar kind = some (book', changed)) :
    (changed = false ∧ bar.t ∈ book.slots.keys ∧ book'.slots.keys = book.slots.keys ∧
        book'.cache = book.cache ∧ book'.stale = book.stale) ∨
      (changed = true ∧ ∃ slot, book' = ({ book with slots := book.slots.set bar.t slot }).changed) := by
  unfold MinuteBook.put at h
  cases hget : book.slots.get? bar.t with
  | none =>
    rw [hget] at h
    cases h
    exact .inr ⟨rfl, _, rfl⟩
  | some slot =>
    have hin : bar.t ∈ book.slots.keys := Dict.mem_keys_of_mem (Dict.mem_entries_iff.mpr hget)
    rw [hget] at h
    dsimp only at h
    split at h
    · cases h
      exact .inl ⟨rfl, hin, rfl, rfl, rfl⟩
    · split at h
      · cases h
        exact .inl ⟨rfl, hin, rfl, rfl, rfl⟩
      · obtain ⟨merged, -, hif⟩ := Option.map_eq_some_iff.mp h
        split at hif
        · cases hif
          refine .inl ⟨rfl, hin, ?_, rfl, rfl⟩
          dsimp only
          rw [Dict.keys_set, if_pos hin]
        · cases hif
          exact .inr ⟨rfl, _, rfl⟩

variable {s : Shown K} {book : MinuteBook K}

theorem put_ok (h : BookOk book) (bar : Candle K) (kind : String) :
    ∃ r, book.put bar kind = some r ∧ BookOk r.1 := by
  obtain ⟨book', hput, hspec⟩ := put_total h bar kind
  obtain ⟨r, hr, rfl⟩ := Option.map_eq_some_iff.mp hput
  rcases hspec with hspec | ⟨-, hsame⟩
  · exact ⟨r, hr, hspec.ok⟩
  · exact ⟨r, hr, hsame ▸ h⟩

omit [DecidableEq K] in
theorem dropUnsealedTell_spec (h : BookOk book) (lo hi : Int) (present : List Int) :
    ∃ r, book.dropUnsealedTell lo hi present = some r ∧ BookOk r.1 ∧ (r.2 = false → r.1 = book) := by
  obtain ⟨⟨b, dropped⟩, hloop, hstep, -⟩ := dropMinutes_spec lo hi present book.slots.entries
    book.slots.nodup (s := (book, false)) h.slot fun e he => Dict.mem_entries_iff.mp he
  unfold MinuteBook.dropUnsealedTell
  rw [hloop]
  cases dropped with
  | true =>
    exact ⟨({ b with stale := true }, true), rfl, ⟨hstep.slot, hstep.few.trans h.few, nofun⟩, nofun⟩
  | false =>
    obtain rfl : b = book := (hstep.quiet rfl).2
    exact ⟨(b, false), rfl, h, fun _ => rfl⟩

/-- Every call returns, and keeps the invariant. -/
theorem apply_ok (h : BookOk s.book) (call : BookCall K) :
    ∃ next, call.apply s = some next ∧ BookOk next.1.book := by
  cases call with
  | put bar kind =>
    obtain ⟨r, hput, hok⟩ := put_ok h bar kind
    exact ⟨_, by rw [BookCall.apply, hput]; rfl, hok⟩
  | provisional bar =>
    obtain ⟨r, hput, hok⟩ := put_ok h { bar with src := "stream" } provisionalKind
    exact ⟨_, by rw [BookCall.apply, hput]; rfl, hok⟩
  | dropUnsealed lo hi present =>
    obtain ⟨r, hdrop, hok, -⟩ := dropUnsealedTell_spec h lo hi present
    exact ⟨_, by rw [BookCall.apply, hdrop]; rfl, hok⟩
  | clear => exact ⟨_, rfl, bookOk_fresh⟩
  | sorted =>
    have hsorted := h.sorted_snd
    cases hstale : s.book.stale <;> exact ⟨_, by simp [BookCall.apply, hstale]; rfl, hsorted⟩

theorem run_ok (h : BookOk s.book) (calls : List (BookCall K)) :
    ∃ next, BookCall.run s calls = some next ∧ BookOk next.1.book := by
  induction calls generalizing s with
  | nil => exact ⟨_, rfl, h⟩
  | cons call calls ih =>
    obtain ⟨next, hcall, hok⟩ := apply_ok h call
    obtain ⟨rest, hrest, hrestok⟩ := ih hok
    exact ⟨(rest.1, next.2 :: rest.2), by simp [BookCall.run, hcall, hrest], hrestok⟩

/-! ## The array returned -/

/-- The book is as it was when `sorted` last returned, as far as `sorted` shows it. -/
structure SameView (s s' : Shown K) : Prop where
  ref : s'.ref = s.ref
  cache : s'.book.cache = s.book.cache
  stale : s'.book.stale = false

theorem sorted_of_fresh (h : s.book.stale = false) :
    BookCall.sorted.apply s = some (s, .minutes s.ref s.book.cache) := by
  simp [BookCall.apply, MinuteBook.sorted, h]

/-- What `sorted` returns is what it holds from then on. -/
theorem sorted_answer (s : Shown K) :
    ∃ s', BookCall.sorted.apply s = some (s', .minutes s'.ref s'.book.cache) ∧
      s'.book.cache = s.book.sorted.1 ∧ s'.book.stale = false := by
  cases hstale : s.book.stale with
  | false => exact ⟨s, sorted_of_fresh hstale, by simp [MinuteBook.sorted, hstale], hstale⟩
  | true =>
    refine ⟨⟨{ s.book with cache := s.book.minutes, stale := false }, s.made + 1, s.made + 1⟩, ?_, ?_, rfl⟩
    · simp [BookCall.apply, MinuteBook.sorted, hstale]
    · simp [MinuteBook.sorted, hstale]

theorem put_quiet {r : MinuteBook K × Bool} {bar : Candle K} {kind : String}
    (h : book.put bar kind = some r) (hquiet : r.2 = false) :
    r.1.cache = book.cache ∧ r.1.stale = book.stale := by
  rcases put_cases h with ⟨-, -, -, hcache, hstale⟩ | ⟨hyes, -⟩
  · exact ⟨hcache, hstale⟩
  · rw [hquiet] at hyes
    cases hyes

theorem apply_quiet {call : BookCall K} {next : Shown K × Answer K} (hok : BookOk s.book)
    (hstale : s.book.stale = false) (h : call.apply s = some next) (hquiet : next.2.Quiet) :
    SameView s next.1 := by
  cases call with
  | put bar kind =>
    obtain ⟨r, hput, rfl⟩ := Option.map_eq_some_iff.mp h
    obtain ⟨hcache, hsame⟩ := put_quiet hput hquiet
    exact ⟨rfl, hcache, hsame.trans hstale⟩
  | provisional bar =>
    obtain ⟨r, hput, rfl⟩ := Option.map_eq_some_iff.mp h
    obtain ⟨hcache, hsame⟩ := put_quiet hput hquiet
    exact ⟨rfl, hcache, hsame.trans hstale⟩
  | dropUnsealed lo hi present =>
    obtain ⟨r, hdrop, hr⟩ := Option.map_eq_some_iff.mp h
    obtain ⟨r', hdrop', -, hsame⟩ := dropUnsealedTell_spec hok lo hi present
    rw [hdrop] at hdrop'
    cases hdrop'
    cases hr
    exact ⟨rfl, by rw [hsame hquiet], by rw [hsame hquiet]; exact hstale⟩
  | clear =>
    cases h
    exact hquiet.elim
  | sorted =>
    rw [sorted_of_fresh hstale] at h
    cases h
    exact ⟨rfl, rfl, hstale⟩

theorem run_quiet {calls : List (BookCall K)} {next : Shown K × List (Answer K)} (hok : BookOk s.book)
    (hstale : s.book.stale = false) (h : BookCall.run s calls = some next)
    (hquiet : ∀ a ∈ next.2, a.Quiet) : SameView s next.1 := by
  induction calls generalizing s next with
  | nil =>
    cases h
    exact ⟨rfl, rfl, hstale⟩
  | cons call calls ih =>
    simp only [BookCall.run, Option.bind_eq_bind, Option.bind_eq_some_iff, Option.some.injEq] at h
    obtain ⟨first, hfirst, rest, hrest, rfl⟩ := h
    obtain ⟨next', hnext', hok'⟩ := apply_ok hok call
    rw [hfirst] at hnext'
    cases hnext'
    have hview := apply_quiet hok hstale hfirst (hquiet _ (List.mem_cons_self ..))
    have hlater := ih hok' hview.stale hrest fun a ha => hquiet a (List.mem_cons_of_mem _ ha)
    exact ⟨hlater.ref.trans hview.ref, hlater.cache.trans hview.cache, hlater.stale⟩

/-! ## Any calls -/

theorem put_removes_oldest {r : MinuteBook K × Bool} {bar : Candle K} {kind : String}
    (h : book.put bar kind = some r) {t x : Int} (ht : t ∈ book.slots.keys ∨ t = bar.t)
    (hgone : t ∉ r.1.slots.keys) (hx : x ∈ r.1.slots.keys) : t < x := by
  rcases put_cases h with ⟨-, hin, hkeys, -, -⟩ | ⟨-, slot, hbook⟩
  · rw [hkeys] at hgone
    rcases ht with ht | rfl
    · exact absurd ht hgone
    · exact absurd hin hgone
  · rw [hbook] at hgone hx
    refine lt_of_trimmed (Dict.mem_keys_set.mpr ?_) hgone hx
    tauto

theorem apply_report {call : BookCall K} {report : Candle K × String} (hreport : call.report = some report)
    {next : Shown K × Answer K} (h : call.apply s = some next) :
    ∃ r, s.book.put report.1 report.2 = some r ∧ next.1.book = r.1 := by
  cases call with
  | put bar kind =>
    cases hreport
    obtain ⟨r, hput, rfl⟩ := Option.map_eq_some_iff.mp h
    exact ⟨r, hput, rfl⟩
  | provisional bar =>
    cases hreport
    obtain ⟨r, hput, rfl⟩ := Option.map_eq_some_iff.mp h
    exact ⟨r, hput, rfl⟩
  | dropUnsealed => cases hreport
  | clear => cases hreport
  | sorted => cases hreport

end Runs

end FxTracker.Web
