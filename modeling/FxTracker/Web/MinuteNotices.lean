import FxTracker.Web.Delivery
import FxTracker.Web.BookRuns

/-!
# What a call says of the minutes

`applyForming`, `sealMinute` and `mergeMinutes` of `apps/web/src/lib/stream/store.ts` notify a pair's
readers where the book says that a minute as shown has changed. Here they return that answer too.

* `fst_applyFormingTold`, `fst_sealMinuteTold`, `fst_mergeBarsTold` — the same book as without the answer
* `Told` — a book that says no shows what it showed before, kept by all of them
-/

namespace FxTracker.Web

variable {K : Type}

namespace MinuteBook

variable [DecidableEq K] [LT K] [DecidableLT K]

/-- `provisional`, and whether a minute as shown changed. -/
def provisionalTold (book : MinuteBook K) (bar : Candle K) : Option (MinuteBook K × Bool) :=
  book.put { bar with src := "stream" } provisionalKind

def applyFormingTold (book : MinuteBook K) (bar : Candle K) : Option (MinuteBook K × Bool) :=
  let cur := book.forming
  if cur.any fun cur => bar.t < cur.t ∨ (bar.t = cur.t ∧ bar.n < cur.n) then some (book, false)
  else if book.sealed bar.t then some (book, false)
  else
    let book := { book with forming := some bar }
    match cur with
    | some cur => if cur.t < bar.t then book.provisionalTold cur else some (book, false)
    | none => some (book, false)

def sealMinuteTold (book : MinuteBook K) (bar : Candle K) : Option (MinuteBook K × Bool) :=
  (book.put bar bar.src).bind fun r =>
    match r.1.forming with
    | some f =>
      if f.t ≤ bar.t then
        (if f.t < bar.t then (r.1.provisionalTold f).map fun p => (p.1, p.2 || r.2) else some r).map
          fun p => ({ p.1 with forming := none }, p.2)
      else some r
    | none => some r

/-- One minute in the loop of `mergeMinutes`. -/
def putTold (s : MinuteBook K × Bool) (bar : Candle K) : Option (MinuteBook K × Bool) :=
  (s.1.put bar bar.src).map fun r => (r.1, r.2 || s.2)

def mergeBarsTold (book : MinuteBook K) (bars : List (Candle K)) : Option (MinuteBook K × Bool) :=
  (bars.foldlM putTold (book, false)).bind fun s =>
    match bars with
    | [] => some s
    | first :: rest =>
      (s.1.dropUnsealedTell (spanOf first rest).1 (spanOf first rest).2 (bars.map Candle.t)).map
        fun r => (r.1, r.2 || s.2)

/-! ## The same book -/

theorem fst_provisionalTold (book : MinuteBook K) (bar : Candle K) :
    (book.provisionalTold bar).map Prod.fst = book.provisional bar := rfl

theorem fst_applyFormingTold (book : MinuteBook K) (bar : Candle K) :
    (book.applyFormingTold bar).map Prod.fst = book.applyForming bar := by
  unfold applyFormingTold applyForming
  dsimp only
  split
  · rfl
  · split
    · rfl
    · cases book.forming with
      | none => rfl
      | some cur =>
        dsimp only
        split
        · exact fst_provisionalTold ..
        · rfl

theorem fst_sealMinuteTold (book : MinuteBook K) (bar : Candle K) :
    (book.sealMinuteTold bar).map Prod.fst = book.sealMinute bar := by
  unfold sealMinuteTold sealMinute putBar
  cases book.put bar bar.src with
  | none => rfl
  | some r =>
    simp only [Option.bind_some, Option.map_some]
    cases hf : r.1.forming with
    | none => rfl
    | some f =>
      dsimp only
      split
      · split
        · rw [← fst_provisionalTold]
          cases r.1.provisionalTold f <;> rfl
        · rfl
      · rfl

theorem fst_putTold (s : MinuteBook K × Bool) (bar : Candle K) :
    (putTold s bar).map Prod.fst = s.1.putBar bar := by
  unfold putTold putBar
  cases s.1.put bar bar.src <;> rfl

theorem fst_putsTold (bars : List (Candle K)) (s : MinuteBook K × Bool) :
    (bars.foldlM putTold s).map Prod.fst = bars.foldlM putBar s.1 := by
  induction bars generalizing s with
  | nil => rfl
  | cons bar bars ih =>
    have hput := fst_putTold s bar
    rw [List.foldlM_cons, List.foldlM_cons, ← hput]
    cases putTold s bar with
    | none => rfl
    | some r => exact ih r

theorem fst_mergeBarsTold (book : MinuteBook K) (bars : List (Candle K)) :
    (book.mergeBarsTold bars).map Prod.fst = book.mergeBars bars := by
  have hputs := fst_putsTold bars (book, false)
  unfold mergeBarsTold mergeBars
  rw [← hputs]
  cases bars.foldlM putTold (book, false) with
  | none => rfl
  | some s =>
    cases bars with
    | nil => rfl
    | cons first rest =>
      simp only [Option.bind_some, Option.map_some, dropUnsealed_eq, Option.map_map]
      rfl

end MinuteBook

/-! ## A book that says no -/

/-- The forming bar is held beside the minutes. -/
theorem sorted_withForming (book : MinuteBook K) (f : Option (Candle K)) :
    ({ book with forming := f } : MinuteBook K).sorted.1 = book.sorted.1 := by
  simp only [MinuteBook.sorted, MinuteBook.minutes]
  split <;> rfl

variable [LT K] [DecidableLT K]

/-- The book is in order, and shows what it showed before unless it says otherwise. -/
structure Told (book : MinuteBook K) (r : MinuteBook K × Bool) : Prop where
  ok : BookOk r.1
  quiet : r.2 = false → r.1.sorted.1 = book.sorted.1

theorem Told.same {book : MinuteBook K} (h : BookOk book) : Told book (book, false) := ⟨h, fun _ => rfl⟩

/-- Two steps, where either may say that something changed. -/
theorem Told.or {book : MinuteBook K} {r r' : MinuteBook K × Bool} (h : Told book r) (h' : Told r.1 r') :
    Told book (r'.1, r'.2 || r.2) where
  ok := h'.ok
  quiet hno := by
    obtain ⟨hno', hno⟩ := Bool.or_eq_false_iff.mp hno
    exact (h'.quiet hno').trans (h.quiet hno)

theorem Told.withForming {book : MinuteBook K} {r : MinuteBook K × Bool} (h : Told book r)
    (f : Option (Candle K)) : Told book ({ r.1 with forming := f }, r.2) where
  ok := h.ok.withForming f
  quiet hno := (sorted_withForming r.1 f).trans (h.quiet hno)

theorem Told.of_withForming {book : MinuteBook K} {f : Option (Candle K)} {r : MinuteBook K × Bool}
    (h : Told { book with forming := f } r) : Told book r where
  ok := h.ok
  quiet hno := (h.quiet hno).trans (sorted_withForming book f)

theorem told_dropUnsealed {book : MinuteBook K} (h : BookOk book) (lo hi : Int) (present : List Int) :
    ∃ r, book.dropUnsealedTell lo hi present = some r ∧ Told book r := by
  obtain ⟨r, hdrop, hok, hsame⟩ := dropUnsealedTell_spec h lo hi present
  exact ⟨r, hdrop, hok, fun hno => by rw [hsame hno]⟩

/-- The minutes are read in `newest`, and what is read stays. -/
theorem sorted_newest {book : MinuteBook K} (h : BookOk book) : BookOk book.newest.2 ∧ book.newest.2.sorted.1 = book.sorted.1 := by
  have hok := h.sorted_snd
  refine ⟨hok, ?_⟩
  show book.sorted.2.sorted.1 = _
  rw [hok.sorted_fst, h.sorted_fst]
  unfold MinuteBook.sorted
  split <;> rfl

/-- The end of `mergeMinutes` takes a forming bar only. -/
theorem sorted_dropForming {book : MinuteBook K} (h : BookOk book) :
    BookOk book.dropForming ∧ book.dropForming.sorted.1 = book.sorted.1 := by
  unfold MinuteBook.dropForming
  split
  · exact ⟨h.withForming none, sorted_withForming book none⟩
  · exact ⟨h, rfl⟩

variable [DecidableEq K] {book : MinuteBook K}

/-- A report that changes nothing shown leaves each slot showing what it showed. -/
theorem minutes_of_put_quiet {r : MinuteBook K × Bool} {bar : Candle K} {kind : String}
    (h : book.put bar kind = some r) (hno : r.2 = false) : r.1.minutes = book.minutes := by
  unfold MinuteBook.put at h
  cases hget : book.slots.get? bar.t with
  | none =>
    rw [hget] at h
    cases h
    cases hno
  | some slot =>
    rw [hget] at h
    dsimp only at h
    split at h
    · cases h
      rfl
    · split at h
      · cases h
        rfl
      · obtain ⟨merged, -, hif⟩ := Option.map_eq_some_iff.mp h
        split at hif
        · cases hif
          have hvalues := Dict.map_values_set (f := Slot.merged) (v := ⟨MinuteBook.record slot bar kind, slot.merged⟩)
            hget rfl
          simp only [MinuteBook.minutes, hvalues]
        · cases hif
          cases hno

theorem told_put (h : BookOk book) (bar : Candle K) (kind : String) :
    ∃ r, book.put bar kind = some r ∧ Told book r := by
  obtain ⟨r, hput, hok⟩ := put_ok h bar kind
  refine ⟨r, hput, hok, ?_⟩
  intro hno
  rw [hok.sorted_fst, h.sorted_fst, minutes_of_put_quiet hput hno]

theorem told_applyForming (h : BookOk book) (bar : Candle K) :
    ∃ r, book.applyFormingTold bar = some r ∧ Told book r := by
  unfold MinuteBook.applyFormingTold
  dsimp only
  split
  · exact ⟨_, rfl, .same h⟩
  · split
    · exact ⟨_, rfl, .same h⟩
    · have hforming : BookOk { book with forming := some bar } := h.withForming (some bar)
      cases book.forming with
      | none => exact ⟨_, rfl, Told.of_withForming (.same hforming)⟩
      | some cur =>
        dsimp only
        split
        · obtain ⟨r, hput, htold⟩ := told_put hforming { cur with src := "stream" } provisionalKind
          exact ⟨r, hput, htold.of_withForming⟩
        · exact ⟨_, rfl, Told.of_withForming (.same hforming)⟩

theorem told_sealMinute (h : BookOk book) (bar : Candle K) :
    ∃ r, book.sealMinuteTold bar = some r ∧ Told book r := by
  obtain ⟨r, hput, htold⟩ := told_put h bar bar.src
  unfold MinuteBook.sealMinuteTold
  rw [hput, Option.bind_some]
  cases r.1.forming with
  | none => exact ⟨r, rfl, htold⟩
  | some f =>
    dsimp only
    split
    · split
      · obtain ⟨p, hprov, htold'⟩ := told_put htold.ok { f with src := "stream" } provisionalKind
        exact ⟨_, by rw [MinuteBook.provisionalTold, hprov]; rfl, (htold.or htold').withForming none⟩
      · exact ⟨_, rfl, htold.withForming none⟩
    · exact ⟨r, rfl, htold⟩

theorem told_puts (bars : List (Candle K)) {s : MinuteBook K × Bool} (h : Told book s) :
    ∃ r, bars.foldlM MinuteBook.putTold s = some r ∧ Told book r := by
  induction bars generalizing s with
  | nil => exact ⟨s, rfl, h⟩
  | cons bar bars ih =>
    obtain ⟨p, hput, htold⟩ := told_put h.ok bar bar.src
    obtain ⟨r, hputs, htold'⟩ := ih (h.or htold)
    refine ⟨r, ?_, htold'⟩
    rw [List.foldlM_cons, MinuteBook.putTold, hput]
    exact hputs

theorem told_mergeBars (h : BookOk book) (bars : List (Candle K)) :
    ∃ r, book.mergeBarsTold bars = some r ∧ Told book r := by
  obtain ⟨s, hputs, htold⟩ := told_puts bars (Told.same h)
  unfold MinuteBook.mergeBarsTold
  rw [hputs, Option.bind_some]
  cases bars with
  | nil => exact ⟨s, rfl, htold⟩
  | cons first rest =>
    obtain ⟨r, hdrop, htold'⟩ := told_dropUnsealed htold.ok (MinuteBook.spanOf first rest).1
      (MinuteBook.spanOf first rest).2 ((first :: rest).map Candle.t)
    exact ⟨_, by dsimp only; rw [hdrop]; rfl, htold.or htold'⟩

end FxTracker.Web
