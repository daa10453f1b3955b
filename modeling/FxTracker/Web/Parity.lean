import FxTracker.Web.MinuteBook
import Mathlib.Data.List.Dedup

/-!
# Browser and server draw the same candles

The server sorts the raw reports and folds them once; the browser joins the reports of each minute as
they arrive, and folds the minutes.

* `Holds.putBar` — what a book holds after one more report
* `foldMinutes_sorted` — both sides draw the same candles
-/

namespace FxTracker.Web

open Intervals

variable {K : Type}

/-- One-minute reports of history and stream, at most one per minute and source, of no more minutes
than a book keeps. -/
structure Reports (reports : List (Candle K)) : Prop where
  nodup : reports.Nodup
  source : ∀ r ∈ reports, r.src = "backfill" ∧ r.n = 0 ∨ r.src = "stream"
  unique : ∀ r ∈ reports, ∀ r' ∈ reports, r.t = r'.t → r.src = r'.src → r = r'
  aligned : ∀ r ∈ reports, 60 ∣ r.t
  few : (reports.map Candle.t).dedup.length ≤ 2880

variable [LinearOrder K]

/-- A slot holds the reports `ps` of minute `t`, and shows them joined. -/
inductive SlotOf (ps : List (Candle K)) (t : Int) : Slot K → Prop
  | one {x : Candle K} : x ∈ ps → x.t = t → (∀ p ∈ ps, p.t = t → p = x) →
    SlotOf ps t ⟨[(x.src, x)], x⟩
  | two {x y : Candle K} {held : List (String × Candle K)} : x ∈ ps → y ∈ ps → x.t = t → y.t = t →
    x.src = "backfill" → y.src = "stream" → (∀ p ∈ ps, p.t = t → p = x ∨ p = y) →
    (held = [(x.src, x), (y.src, y)] ∨ held = [(y.src, y), (x.src, x)]) →
    SlotOf ps t ⟨held, extend x y⟩

/-- A book holds the reports `ps`. -/
structure Holds (book : MinuteBook K) (ps : List (Candle K)) : Prop where
  absent : ∀ t, book.slots.get? t = none → ∀ p ∈ ps, p.t ≠ t
  slot : ∀ t slot, book.slots.get? t = some slot → SlotOf ps t slot
  cache : book.stale = false → book.cache = book.minutes

variable {reports ps : List (Candle K)} {book : MinuteBook K} {b : Candle K} {t : Int} {slot : Slot K}

theorem holds_nil : Holds ({} : MinuteBook K) [] where
  absent := fun _ _ _ hp => (nomatch hp)
  slot := fun _ _ h => (nomatch h)
  cache := fun _ => rfl

/-- A slot shows its own minute, of which there is a report. -/
theorem SlotOf.time (h : SlotOf ps t slot) : slot.merged.t = t ∧ ∃ p ∈ ps, p.t = t := by
  cases h with
  | one hx ht _ => exact ⟨ht, _, hx, ht⟩
  | two hx _ ht _ _ _ _ _ => exact ⟨ht, _, hx, ht⟩

/-- A report that is no news, or of another minute. -/
theorem SlotOf.cons (h : SlotOf ps t slot) (hb : b.t = t → b ∈ ps) : SlotOf (b :: ps) t slot := by
  have hall : ∀ p ∈ b :: ps, p.t = t → p ∈ ps := by
    intro p hp ht
    rcases List.mem_cons.mp hp with rfl | hp
    · exact hb ht
    · exact hp
  cases h with
  | one hx ht honly =>
    exact .one (List.mem_cons_of_mem _ hx) ht fun p hp hpt => honly p (hall p hp hpt) hpt
  | two hx hy hxt hyt hxs hys honly hheld =>
    exact .two (List.mem_cons_of_mem _ hx) (List.mem_cons_of_mem _ hy) hxt hyt hxs hys
      (fun p hp hpt => honly p (hall p hp hpt) hpt) hheld

/-- A book never has to drop a minute of such reports. -/
theorem Holds.size_le (h : Holds book ps) (hr : Reports reports) (hps : ∀ p ∈ ps, p ∈ reports) :
    book.slots.size ≤ minuteCap := by
  have hsub : book.slots.keys ⊆ (reports.map Candle.t).dedup := by
    intro t ht
    obtain ⟨slot, hslot⟩ := Option.isSome_iff_exists.mp (Dict.mem_keys_iff.mp ht)
    obtain ⟨-, p, hp, rfl⟩ := (h.slot t slot hslot).time
    exact List.mem_dedup.mpr (List.mem_map_of_mem (hps p hp))
  have hlen := (List.subperm_of_subset book.slots.nodup hsub).length_le
  have hfew := hr.few
  unfold Dict.size minuteCap
  rw [List.length_map] at hlen
  omega

/-- Setting the slot of a minute of which there is news. -/
theorem Holds.set (h : Holds book ps) (hr : Reports reports) (hps : ∀ p ∈ b :: ps, p ∈ reports)
    (hslot : SlotOf (b :: ps) b.t slot) :
    Holds ({ book with slots := book.slots.set b.t slot }.changed) (b :: ps) := by
  have hbase : Holds ({ book with slots := book.slots.set b.t slot, stale := true }) (b :: ps) := by
    refine ⟨fun t ht p hp => ?_, fun t s hs => ?_, fun hstale => (nomatch hstale)⟩
    · rw [Dict.get?_set] at ht
      split at ht
      · cases ht
      · next hne =>
        rcases List.mem_cons.mp hp with rfl | hp
        · exact fun heq => hne heq.symm
        · exact h.absent t ht p hp
    · rw [Dict.get?_set] at hs
      split at hs
      · next heq =>
        cases hs
        exact heq ▸ hslot
      · next hne => exact (h.slot t s hs).cons fun heq => absurd heq.symm hne
  have hsize := hbase.size_le hr hps
  unfold MinuteBook.changed
  rw [if_pos (Nat.le_trans hsize (Nat.le_add_right ..))]
  exact hbase

/-- A report the book holds already is no news. -/
theorem Holds.again (h : Holds book ps) (hb : b ∈ ps) : Holds book (b :: ps) where
  absent := fun t ht p hp => by
    rcases List.mem_cons.mp hp with rfl | hp
    · exact h.absent t ht p hb
    · exact h.absent t ht p hp
  slot := fun t s hs => (h.slot t s hs).cons fun _ => hb
  cache := h.cache

theorem sameBar_self (x : Candle K) : sameBar x x = true := by
  simp [sameBar]

omit [LinearOrder K] in
/-- The kinds of the reports are sealed or history, never provisional. -/
theorem Reports.kind_ne (hr : Reports reports) (hb : b ∈ reports) : b.src ≠ provisionalKind := by
  rcases hr.source b hb with ⟨hs, -⟩ | hs <;> rw [hs] <;> decide

/-- The second report of a minute, from the other source. -/
theorem put_other (hr : Reports reports) {x : Candle K} (hx : x ∈ reports) (hb : b ∈ reports)
    (ht : x.t = b.t) (hne : x.src ≠ b.src) (hget : book.slots.get? b.t = some ⟨[(x.src, x)], x⟩)
    (hps : ∀ p ∈ b :: ps, p ∈ reports) (h : Holds book ps) (hxps : x ∈ ps)
    (honly : ∀ p ∈ ps, p.t = b.t → p = x) :
    ∃ book', book.putBar b = some book' ∧ Holds book' (b :: ps) := by
  have hkind := hr.kind_ne hb
  have hrecord : MinuteBook.record ⟨[(x.src, x)], x⟩ b b.src = [(x.src, x), (b.src, b)] := by
    simp [MinuteBook.record, Dict.setEntries, hne, hr.kind_ne hx, hkind]
  -- whichever came first, the history opens and the stream closes
  obtain ⟨u, v, hu, hv, huv, hjoin⟩ : ∃ u v, u.src = "backfill" ∧ v.src = "stream" ∧
      (u = x ∧ v = b ∨ u = b ∧ v = x) ∧ join [x, b] = some (extend u v) := by
    rcases hr.source x hx with ⟨hxs, hxn⟩ | hxs <;> rcases hr.source b hb with ⟨hbs, hbn⟩ | hbs
    · exact absurd (hxs.trans hbs.symm) hne
    · exact ⟨x, b, hxs, hbs, .inl ⟨rfl, rfl⟩, (join_pair hxs hxn hbs).1⟩
    · exact ⟨b, x, hbs, hxs, .inr ⟨rfl, rfl⟩, (join_pair hbs hbn hxs).2⟩
    · exact absurd (hxs.trans hbs.symm) hne
  have hshown : sameBar (extend u v) x = false := by
    have hmixed : (extend u v).src = "mixed" := by
      simp [extend, hu, hv]
    have hxs : (extend u v).src ≠ x.src := by
      rw [hmixed]
      rcases hr.source x hx with ⟨hs, -⟩ | hs <;> rw [hs] <;> decide
    simp [sameBar, hxs]
  have hput : book.putBar b = some ({ book with
      slots := book.slots.set b.t ⟨[(x.src, x), (b.src, b)], extend u v⟩ }.changed) := by
    unfold MinuteBook.putBar MinuteBook.put
    rw [hget]
    simp [hkind, hne, hrecord, hjoin, hshown]
  refine ⟨_, hput, h.set hr hps ?_⟩
  have hx' : x ∈ b :: ps := List.mem_cons_of_mem _ hxps
  have hb' : b ∈ b :: ps := List.mem_cons_self ..
  have hall : ∀ p ∈ b :: ps, p.t = b.t → p = x ∨ p = b := by
    intro p hp hpt
    rcases List.mem_cons.mp hp with rfl | hp
    · exact .inr rfl
    · exact .inl (honly p hp hpt)
  rcases huv with ⟨rfl, rfl⟩ | ⟨rfl, rfl⟩
  · exact .two hx' hb' ht rfl hu hv hall (.inl rfl)
  · exact .two hb' hx' rfl ht hu hv (fun p hp hpt => (hall p hp hpt).symm) (.inr rfl)

/-- **What a book holds after one more report.** -/
theorem Holds.putBar (h : Holds book ps) (hr : Reports reports) (hps : ∀ p ∈ b :: ps, p ∈ reports) :
    ∃ book', book.putBar b = some book' ∧ Holds book' (b :: ps) := by
  have hb := hps b (List.mem_cons_self ..)
  have hin : ∀ p ∈ ps, p ∈ reports := fun p hp => hps p (List.mem_cons_of_mem _ hp)
  cases hget : book.slots.get? b.t with
  | none =>
    have hput : book.putBar b = some ({ book with
        slots := book.slots.set b.t ⟨[(b.src, b)], b⟩ }.changed) := by
      unfold MinuteBook.putBar MinuteBook.put
      rw [hget]
      rfl
    refine ⟨_, hput, h.set hr hps (.one (List.mem_cons_self ..) rfl fun p hp hpt => ?_)⟩
    rcases List.mem_cons.mp hp with rfl | hp
    · rfl
    · exact absurd hpt (h.absent b.t hget p hp)
  | some slot =>
    have hslot := h.slot b.t slot hget
    -- a report the slot holds is found under its source and is the same
    have hheld : (slot.held.find? (·.1 = b.src)).any (fun e => sameBar e.2 b) = true →
        book.putBar b = some book := by
      intro hfound
      unfold MinuteBook.putBar MinuteBook.put
      rw [hget]
      simp [hr.kind_ne hb, hfound]
    cases hslot with
    | @one x hx hxt honly =>
      by_cases hsrc : x.src = b.src
      · obtain rfl := hr.unique x (hin x hx) b hb hxt hsrc
        exact ⟨book, hheld (by simp [sameBar_self]), h.again hx⟩
      · exact put_other hr (hin x hx) hb hxt hsrc hget hps h hx honly
    | @two x y held hx hy hxt hyt hxs hys honly hheld' =>
      have hbxy : b = x ∨ b = y := by
        rcases hr.source b hb with ⟨hbs, -⟩ | hbs
        · exact .inl (hr.unique b hb x (hin x hx) hxt.symm (hbs.trans hxs.symm))
        · exact .inr (hr.unique b hb y (hin y hy) hyt.symm (hbs.trans hys.symm))
      have hne : x.src ≠ y.src := by
        rw [hxs, hys]
        decide
      rcases hbxy with rfl | rfl
      · refine ⟨book, hheld ?_, h.again hx⟩
        rcases hheld' with rfl | rfl <;> simp [sameBar_self, hne.symm]
      · refine ⟨book, hheld ?_, h.again hy⟩
        rcases hheld' with rfl | rfl <;> simp [sameBar_self, hne]

/-- **What a book holds after its reports**, in any order and with any repetitions. -/
theorem holds_puts (hr : Reports reports) {puts : List (Candle K)} (hputs : ∀ p ∈ puts, p ∈ reports)
    (h : Holds book ps) (hps : ∀ p ∈ ps, p ∈ reports) :
    ∃ book', puts.foldlM MinuteBook.putBar book = some book' ∧ Holds book' (puts.reverse ++ ps) := by
  induction puts generalizing book ps with
  | nil => exact ⟨book, rfl, h⟩
  | cons b puts ih =>
    have hps' : ∀ p ∈ b :: ps, p ∈ reports := by
      intro p hp
      rcases List.mem_cons.mp hp with rfl | hp
      · exact hputs p (List.mem_cons_self ..)
      · exact hps p hp
    obtain ⟨book₁, hput, h₁⟩ := h.putBar hr hps'
    obtain ⟨book₂, hrest, h₂⟩ := ih (fun p hp => hputs p (List.mem_cons_of_mem _ hp)) h₁ hps'
    refine ⟨book₂, ?_, ?_⟩
    · rw [List.foldlM_cons, hput]
      exact hrest
    · rw [List.reverse_cons, List.append_assoc]
      exact h₂

/-! ## Both sides -/

omit [LinearOrder K] in
/-- Lists in ascending fold order with the same members are equal. -/
theorem eq_of_ascending {l l' : List (Candle K)} (h : l.Pairwise fun a b => foldOrder a < foldOrder b)
    (h' : l'.Pairwise fun a b => foldOrder a < foldOrder b) (hmem : ∀ a, a ∈ l ↔ a ∈ l') : l = l' := by
  have hirrefl : Std.Irrefl fun a b : Candle K => foldOrder a < foldOrder b := ⟨fun a => lt_irrefl _⟩
  have hanti : Std.Antisymm fun a b : Candle K => foldOrder a < foldOrder b :=
    ⟨fun a b hab hba => absurd (hab.trans hba) (lt_irrefl _)⟩
  exact List.Pairwise.eq_of_mem_iff h h' hmem

omit [LinearOrder K] in
theorem foldOrder_lt_of_time {a b : Candle K} (h : a.t < b.t) : foldOrder a < foldOrder b :=
  Prod.Lex.toLex_lt_toLex.mpr (.inl h)

omit [LinearOrder K] in
theorem foldOrder_lt_of_source {a b : Candle K} (ht : a.t = b.t) (ha : a.src = "backfill")
    (hb : b.src = "stream") : foldOrder a < foldOrder b := by
  refine Prod.Lex.toLex_lt_toLex.mpr (.inr ⟨ht, ?_⟩)
  simp [ha, hb]

omit [LinearOrder K] in
/-- No two reports tie in the fold order. -/
theorem Reports.ascending (hr : Reports reports) :
    (reports.insertionSort fun a b => foldOrder a ≤ foldOrder b).Pairwise
      fun a b => foldOrder a < foldOrder b := by
  have htotal : Std.Total fun a b : Candle K => foldOrder a ≤ foldOrder b :=
    ⟨fun a b => le_total _ _⟩
  have htrans : IsTrans (Candle K) fun a b => foldOrder a ≤ foldOrder b :=
    ⟨fun a b c => le_trans⟩
  have hle := List.pairwise_insertionSort (fun a b : Candle K => foldOrder a ≤ foldOrder b) reports
  have hnd : (reports.insertionSort fun a b => foldOrder a ≤ foldOrder b).Nodup :=
    (List.perm_insertionSort _ reports).nodup_iff.mpr hr.nodup
  refine (hle.and hnd).imp_of_mem fun {a b} ha hb hab => lt_of_le_of_ne hab.1 fun heq => hab.2 ?_
  rw [List.mem_insertionSort] at ha hb
  obtain ⟨ht, hs⟩ := Prod.mk.inj (congrArg ofLex heq)
  refine hr.unique a ha b hb ht ?_
  rcases hr.source a ha with ⟨has, -⟩ | has <;> rcases hr.source b hb with ⟨hbs, -⟩ | hbs <;>
    simp_all

/-- The minutes a book shows ascend. -/
theorem Holds.minutes_ascending (h : Holds book ps) :
    book.minutes.Pairwise fun a b => a.t < b.t := by
  have htotal : Std.Total fun a b : Candle K => a.t ≤ b.t := ⟨fun a b => le_total _ _⟩
  have htrans : IsTrans (Candle K) fun a b => a.t ≤ b.t := ⟨fun a b c => le_trans⟩
  have hle := List.pairwise_insertionSort (fun a b : Candle K => a.t ≤ b.t)
    (book.slots.values.map Slot.merged)
  have htimes : (book.slots.values.map Slot.merged).map Candle.t = book.slots.keys := by
    unfold Dict.values Dict.keys
    rw [List.map_map, List.map_map]
    refine List.map_congr_left fun e he => ?_
    exact (h.slot e.1 e.2 (Dict.mem_entries_iff.mp he)).time.1
  have hnd : (book.minutes.map Candle.t).Nodup := by
    have hperm := (List.perm_insertionSort (fun a b : Candle K => a.t ≤ b.t)
      (book.slots.values.map Slot.merged)).map Candle.t
    rw [htimes] at hperm
    exact hperm.nodup_iff.mpr book.slots.nodup
  refine (hle.and (List.pairwise_map.mp hnd)).imp fun hab => lt_of_le_of_ne hab.1 hab.2

theorem Holds.mem_minutes (h : Holds book ps) {m : Candle K} (hm : m ∈ book.minutes) :
    ∃ slot, slot.merged = m ∧ SlotOf ps m.t slot := by
  unfold MinuteBook.minutes at hm
  rw [List.mem_insertionSort] at hm
  obtain ⟨slot, hslot, rfl⟩ := List.mem_map.mp hm
  obtain ⟨⟨t, s⟩, he, rfl⟩ := List.mem_map.mp hslot
  have hs := h.slot t s (Dict.mem_entries_iff.mp he)
  exact ⟨s, rfl, hs.time.1.symm ▸ hs⟩

/-- Every report is of a minute the book shows. -/
theorem Holds.exists_minute (h : Holds book ps) {p : Candle K} (hp : p ∈ ps) :
    ∃ m ∈ book.minutes, m.t = p.t := by
  cases hget : book.slots.get? p.t with
  | none => exact absurd rfl (h.absent p.t hget p hp)
  | some slot =>
    refine ⟨slot.merged, ?_, (h.slot p.t slot hget).time.1⟩
    unfold MinuteBook.minutes
    rw [List.mem_insertionSort]
    exact List.mem_map_of_mem (List.mem_map.mpr ⟨(p.t, slot), Dict.mem_entries_iff.mpr hget, rfl⟩)

/-- The reports of a minute, in fold order. -/
def atMinute (reports : List (Candle K)) (t : Int) : List (Candle K) :=
  (reports.insertionSort fun a b => foldOrder a ≤ foldOrder b).filter fun r => r.t = t

omit [LinearOrder K] in
theorem mem_atMinute {r : Candle K} : r ∈ atMinute reports t ↔ r ∈ reports ∧ r.t = t := by
  simp [atMinute, List.mem_insertionSort]

omit [LinearOrder K] in
theorem atMinute_ascending (hr : Reports reports) (t : Int) :
    (atMinute reports t).Pairwise fun a b => foldOrder a < foldOrder b :=
  hr.ascending.sublist List.filter_sublist

/-- **A minute as shown** is its reports joined in fold order. -/
theorem SlotOf.atMinute (h : SlotOf ps t slot) (hr : Reports reports)
    (hmem : ∀ p, p ∈ ps ↔ p ∈ reports) :
    ∃ first rest, atMinute reports t = first :: rest ∧ rest.foldl extend first = slot.merged := by
  cases h with
  | @one x hx ht honly =>
    refine ⟨x, [], eq_of_ascending (atMinute_ascending hr t) (List.pairwise_singleton ..) ?_, rfl⟩
    intro r
    rw [mem_atMinute, ← hmem, List.mem_singleton]
    constructor
    · rintro ⟨hr, hrt⟩
      exact honly r hr hrt
    · rintro rfl
      exact ⟨hx, ht⟩
  | @two x y held hx hy hxt hyt hxs hys honly _ =>
    have hlt := foldOrder_lt_of_source (hxt.trans hyt.symm) hxs hys
    refine ⟨x, [y], eq_of_ascending (atMinute_ascending hr t) (List.pairwise_pair.mpr hlt) ?_, rfl⟩
    intro r
    rw [mem_atMinute, ← hmem, List.mem_pair]
    constructor
    · rintro ⟨hr, hrt⟩
      exact honly r hr hrt
    · rintro (rfl | rfl)
      · exact ⟨hx, hxt⟩
      · exact ⟨hy, hyt⟩

/-- The sorted reports, minute by minute. -/
theorem Holds.flatMap_atMinute (h : Holds book ps) (hr : Reports reports)
    (hmem : ∀ p, p ∈ ps ↔ p ∈ reports) :
    book.minutes.flatMap (fun m => Web.atMinute reports m.t) =
      reports.insertionSort fun a b => foldOrder a ≤ foldOrder b := by
  refine eq_of_ascending (List.pairwise_flatMap.mpr ⟨fun m _ => atMinute_ascending hr m.t, ?_⟩)
    hr.ascending fun r => ?_
  · refine h.minutes_ascending.imp fun hlt a ha b hb => foldOrder_lt_of_time ?_
    rw [(mem_atMinute.mp ha).2, (mem_atMinute.mp hb).2]
    exact hlt
  · rw [List.mem_flatMap, List.mem_insertionSort]
    constructor
    · rintro ⟨m, -, hm⟩
      exact (mem_atMinute.mp hm).1
    · intro hrep
      obtain ⟨m, hm, ht⟩ := h.exists_minute ((hmem r).mpr hrep)
      exact ⟨m, hm, mem_atMinute.mpr ⟨hrep, ht.symm⟩⟩

omit [LinearOrder K] in
theorem restamp_foldl_extend [LinearOrder K] (seconds : Int) (first : Candle K)
    (rest : List (Candle K)) :
    (rest.map (restamp seconds)).foldl extend (restamp seconds first) =
      restamp seconds (rest.foldl extend first) := by
  induction rest generalizing first with
  | nil => rfl
  | cons r rest ih => exact ih (extend first r)

/-- **The server's fold from the minutes the book shows.** -/
theorem Holds.fold_eq (h : Holds book ps) (hr : Reports reports) (hmem : ∀ p, p ∈ ps ↔ p ∈ reports)
    (seconds : Int) :
    rollup Candle.t extend ((reports.insertionSort fun a b => foldOrder a ≤ foldOrder b).map
        (restamp seconds)) =
      rollup Candle.t extend (book.minutes.map (restamp seconds)) := by
  have hgroup : ∀ m ∈ book.minutes, ∃ first rest, Web.atMinute reports m.t = first :: rest ∧
      rest.foldl extend first = m := by
    intro m hm
    obtain ⟨slot, rfl, hslot⟩ := h.mem_minutes hm
    exact hslot.atMinute hr hmem
  have hflat : book.minutes.flatMap (fun m => (Web.atMinute reports m.t).map (restamp seconds)) =
      book.minutes.flatMap fun m => restamp seconds ((Web.atMinute reports m.t).headD m) ::
        (Web.atMinute reports m.t).tail.map (restamp seconds) := by
    refine List.flatMap_congr fun m hm => ?_
    obtain ⟨first, rest, heq, -⟩ := hgroup m hm
    rw [heq]
    rfl
  rw [← h.flatMap_atMinute hr hmem, List.map_flatMap, hflat,
    rollup_flatMap extend_assoc (fun _ _ => rfl)]
  · refine congrArg _ (List.map_congr_left fun m hm => ?_)
    obtain ⟨first, rest, heq, hfold⟩ := hgroup m hm
    rw [heq, List.headD_cons, List.tail_cons, restamp_foldl_extend, hfold]
  · intro m hm r hmr
    obtain ⟨first, rest, heq, -⟩ := hgroup m hm
    rw [heq, List.tail_cons] at hmr
    obtain ⟨p, hp, rfl⟩ := List.mem_map.mp hmr
    have htime : ∀ q ∈ first :: rest, q.t = m.t := fun q hq => (mem_atMinute.mp (heq ▸ hq)).2
    rw [heq, List.headD_cons]
    unfold restamp
    dsimp only
    rw [htime first (List.mem_cons_self ..), htime p (List.mem_cons_of_mem _ hp)]

/-- Minutes are their own candles at one minute. -/
theorem Holds.rollup_minutes (h : Holds book ps) (hr : Reports reports)
    (hps : ∀ p ∈ ps, p ∈ reports) :
    rollup Candle.t extend (book.minutes.map (restamp 60)) = book.minutes := by
  have hid : ∀ m ∈ book.minutes, restamp 60 m = m := by
    intro m hm
    obtain ⟨slot, rfl, hslot⟩ := h.mem_minutes hm
    obtain ⟨-, p, hp, hpt⟩ := hslot.time
    have haligned := hr.aligned p (hps p hp)
    unfold restamp
    rw [← hpt, Int.fmod_eq_emod_of_nonneg _ (by decide), Int.emod_eq_zero_of_dvd haligned, hpt,
      Int.sub_zero]
  rw [List.map_congr_left hid, List.map_id'' fun _ => rfl]
  exact rollup_of_isChain (h.minutes_ascending.isChain.imp fun _ _ hlt => ne_of_lt hlt)

/-- The fixed intervals are found by their codes. -/
theorem find_intervals : ∀ spec ∈ intervals, spec.base = .minute →
    (intervals.find? fun i => i.code = spec.code) = some spec ∧ spec.seconds.any (0 < ·) := by
  decide

/-- **Browser and server draw the same candles.** Reports put into a fresh book in any order and with
any repetitions fold to the server's candles, for every intraday timeframe. -/
theorem foldMinutes_sorted (reports puts : List (Candle K)) (hr : Reports reports)
    (hputs : ∀ p, p ∈ puts ↔ p ∈ reports) (spec : Interval) (hspec : spec ∈ intervals)
    (hbase : spec.base = .minute) :
    ∃ book seconds, puts.foldlM MinuteBook.putBar {} = some book ∧ spec.seconds = some seconds ∧
      fold reports spec.code = some (foldMinutes book.sorted.1 seconds) := by
  obtain ⟨book, hbook, hholds⟩ := holds_puts hr (fun p hp => (hputs p).mp hp) holds_nil
    (fun _ hp => (nomatch hp))
  have hmem : ∀ p, p ∈ puts.reverse ++ [] ↔ p ∈ reports := by
    intro p
    rw [List.append_nil, List.mem_reverse, hputs]
  have hsorted : book.sorted.1 = book.minutes := by
    unfold MinuteBook.sorted
    split
    · rfl
    · next hstale => exact hholds.cache (Bool.not_eq_true _ ▸ hstale)
  obtain ⟨hfind, hany⟩ := find_intervals spec hspec hbase
  obtain ⟨seconds, hsec, hpos⟩ := (Option.any_eq_true ..).mp hany
  refine ⟨book, seconds, hbook, hsec, ?_⟩
  rw [fold_eq_rollup hfind hsec, hholds.fold_eq hr hmem, hsorted]
  by_cases h60 : seconds = 60
  · subst h60
    rw [hholds.rollup_minutes hr fun p hp => (hmem p).mp hp]
    rfl
  · rw [foldMinutes_eq_rollup (of_decide_eq_true hpos) h60]

/-- One minute from both sources, and one from the stream. -/
def sampleReports : List (Candle Int) :=
  [⟨0, 2, 5, 1, 3, 0, "backfill"⟩, ⟨0, 4, 6, 2, 4, 7, "stream"⟩, ⟨60, 4, 4, 3, 3, 2, "stream"⟩]

/-- The newest first, and one of them twice. -/
def samplePuts : List (Candle Int) :=
  [⟨60, 4, 4, 3, 3, 2, "stream"⟩, ⟨0, 4, 6, 2, 4, 7, "stream"⟩, ⟨0, 2, 5, 1, 3, 0, "backfill"⟩,
    ⟨0, 4, 6, 2, 4, 7, "stream"⟩]

theorem foldMinutes_sorted_samplePuts : ∃ book : MinuteBook Int,
    samplePuts.foldlM MinuteBook.putBar {} = some book ∧
      fold sampleReports "3m" = some (foldMinutes book.sorted.1 180) := by
  have hr : Reports sampleReports :=
    ⟨by decide, by decide, by decide, by decide, by decide⟩
  have hputs : ∀ p, p ∈ samplePuts ↔ p ∈ sampleReports := by
    intro p
    simp only [samplePuts, sampleReports, List.mem_cons, List.not_mem_nil, or_false]
    tauto
  obtain ⟨book, seconds, hbook, hsec, hfold⟩ := foldMinutes_sorted sampleReports samplePuts hr hputs
    ⟨"3m", some 180, .minute⟩ (by decide) rfl
  cases hsec
  exact ⟨book, hbook, hfold⟩

end FxTracker.Web
