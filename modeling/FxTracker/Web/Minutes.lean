import FxTracker.Web.MinuteBook
import Mathlib.Data.List.Sort

/-!
# A pair's minutes in the store

The rest of `apps/web/src/lib/stream/minutes.ts`, and `applyForming`, `sealMinute` and
`mergeMinutes` of `apps/web/src/lib/stream/store.ts`, for one symbol. What a call notifies is left
out. `none` stands for an exception, and none is raised.

* `changed_spec` — what a trim leaves
* `put_spec` — what a report changes: its own slot, and then the trim
* `dropUnsealed_spec` — what an authoritative span drops
* `BookOk` — the invariant of a book, kept by all of them
-/

namespace FxTracker.Web

variable {K : Type}

/-! ## The operations -/

namespace MinuteBook

/-- `sealed`: our stream's sealed bar for the minute is held. -/
def sealed (book : MinuteBook K) (t : Int) : Bool :=
  (book.slots.get? t).any fun slot => slot.held.any fun e => isSealed e.1

/-- `newest`, and the book with its minutes sorted. -/
def newest (book : MinuteBook K) : Option Int × MinuteBook K :=
  (book.sorted.1.getLast?.map Candle.t, book.sorted.2)

variable [DecidableEq K] [LT K] [DecidableLT K]

/-- `provisional`: hold the last forming bar of a minute that has ended, until it seals. -/
def provisional (book : MinuteBook K) (bar : Candle K) : Option (MinuteBook K) :=
  (book.put { bar with src := "stream" } provisionalKind).map Prod.fst

/-- One minute in the loop of `dropUnsealed`. -/
def dropMinute (lo hi : Int) (present : List Int) (s : MinuteBook K × Bool) (e : Int × Slot K) :
    Option (MinuteBook K × Bool) :=
  if e.1 < lo ∨ hi < e.1 ∨ e.1 ∈ present then some s
  else if e.2.held.any (·.1 = provisionalKind) then
    let held := e.2.held.eraseP (·.1 = provisionalKind)
    if held.isEmpty then some ({ s.1 with slots := s.1.slots.erase e.1 }, true)
    else
      (join (held.map Prod.snd)).map fun merged =>
        ({ s.1 with slots := s.1.slots.set e.1 ⟨held, merged⟩ }, true)
  else some s

/-- `dropUnsealed`: drop provisional minutes inside `[lo, hi]` that `present` lacks. -/
def dropUnsealed (book : MinuteBook K) (lo hi : Int) (present : List Int) : Option (MinuteBook K) :=
  (book.slots.entries.foldlM (dropMinute lo hi present) (book, false)).map fun s =>
    if s.2 then { s.1 with stale := true } else s.1

/-- `applyForming`. -/
def applyForming (book : MinuteBook K) (bar : Candle K) : Option (MinuteBook K) :=
  let cur := book.forming
  if cur.any fun cur => bar.t < cur.t ∨ (bar.t = cur.t ∧ bar.n < cur.n) then some book
  else if book.sealed bar.t then some book
  else
    let book := { book with forming := some bar }
    match cur with
    | some cur => if cur.t < bar.t then book.provisional cur else some book
    | none => some book

/-- `sealMinute`: a minute the ingestor sealed. -/
def sealMinute (book : MinuteBook K) (bar : Candle K) : Option (MinuteBook K) :=
  (book.putBar bar).bind fun book =>
    match book.forming with
    | some f =>
      if f.t ≤ bar.t then
        (if f.t < bar.t then book.provisional f else some book).map fun book =>
          { book with forming := none }
      else some book
    | none => some book

/-- The span of a merge: `Math.min` and `Math.max` over its minutes. -/
def spanOf (first : Candle K) (rest : List (Candle K)) : Int × Int :=
  ((rest.map Candle.t).foldl min first.t, (rest.map Candle.t).foldl max first.t)

/-- The puts of `mergeMinutes`, then the drop over the span they cover. -/
def mergeBars (book : MinuteBook K) (bars : List (Candle K)) : Option (MinuteBook K) :=
  (bars.foldlM putBar book).bind fun book =>
    match bars with
    | [] => some book
    | first :: rest =>
      book.dropUnsealed (spanOf first rest).1 (spanOf first rest).2 (bars.map Candle.t)

/-- The end of `mergeMinutes`: a forming bar whose minute is sealed goes. -/
def dropForming (book : MinuteBook K) : MinuteBook K :=
  if book.forming.any fun f => book.sealed f.t then { book with forming := none } else book

end MinuteBook

/-- `from` of `mergeMinutes`. -/
inductive MergeFrom
  | snapshot
  | history
  deriving DecidableEq

/-- The minutes of one pair: its book, and the generation its history is wanted at (`#gen`). -/
structure PairMinutes (K : Type) where
  book : MinuteBook K := {}
  gen : Nat := 0

section Calls

variable [DecidableEq K] [LT K] [DecidableLT K]

/-- `mergeMinutes`. A snapshot that does not reach back to the newest minute held leaves a hole. -/
def PairMinutes.mergeMinutes (pair : PairMinutes K) (bars : List (Candle K)) (source : MergeFrom) :
    Option (PairMinutes K) :=
  let newest := pair.book.newest
  let hole := newest.1.any fun newest =>
    decide (source = .snapshot) && bars.head?.any fun bar => newest < bar.t
  (newest.2.mergeBars bars).map fun book =>
    { book := book.dropForming, gen := if hole then pair.gen + 1 else pair.gen }

/-- A call that changes a pair's minutes. -/
inductive MinuteOp (K : Type)
  | applyForming (bar : Candle K)
  | sealMinute (bar : Candle K)
  | mergeMinutes (bars : List (Candle K)) (source : MergeFrom)

def MinuteOp.apply (pair : PairMinutes K) : MinuteOp K → Option (PairMinutes K)
  | .applyForming bar => (pair.book.applyForming bar).map fun book => { pair with book := book }
  | .sealMinute bar => (pair.book.sealMinute bar).map fun book => { pair with book := book }
  | .mergeMinutes bars source => pair.mergeMinutes bars source

end Calls

/-! ## Trimming -/

theorem filter_not_mem_take {α : Type*} [DecidableEq α] {l : List α} (h : l.Nodup) (n : Nat) :
    l.filter (fun x => x ∉ l.take n) = l.drop n := by
  have hsplit := List.take_append_drop n l
  have hdisj := List.disjoint_of_nodup_append (hsplit.symm ▸ h)
  generalize l.take n = first at hsplit hdisj ⊢
  generalize l.drop n = rest at hsplit hdisj ⊢
  rw [← hsplit, List.filter_append, List.filter_eq_nil_iff.mpr (by simp), List.nil_append,
    List.filter_eq_self]
  intro x hx
  simpa using fun hf => hdisj hf hx

theorem keys_foldl_erase {α : Type} (ts : List Int) (d : Dict Int α) :
    (ts.foldl Dict.erase d).keys = d.keys.filter fun t => t ∉ ts := by
  induction ts generalizing d with
  | nil => simp
  | cons t ts ih =>
    rw [List.foldl_cons, ih]
    have herase : (d.erase t).keys = d.keys.filter fun x => x ≠ t := by
      simp only [Dict.keys, Dict.erase, List.filter_map, Function.comp_def, decide_not, ne_eq]
    rw [herase, List.filter_filter]
    refine List.filter_congr fun x _ => ?_
    rw [Bool.eq_iff_iff]
    simp only [Bool.and_eq_true, decide_eq_true_eq, List.mem_cons, not_or, ne_eq]
    exact And.comm

theorem get?_foldl_erase {α : Type} (ts : List Int) (d : Dict Int α) (t : Int) :
    (ts.foldl Dict.erase d).get? t = if t ∈ ts then none else d.get? t := by
  induction ts generalizing d with
  | nil => simp
  | cons t' ts ih =>
    rw [List.foldl_cons, ih, Dict.get?_erase]
    by_cases h : t ∈ ts
    · simp [h]
    · by_cases ht : t = t' <;> simp [h, ht]

/-- How many minutes newer than `t` are held. -/
def newerThan (t : Int) (slots : Dict Int (Slot K)) : Nat :=
  (slots.keys.filter fun x => t < x).length

namespace MinuteBook

/-- The minutes a trim takes out. -/
def trimmed (book : MinuteBook K) : List Int :=
  let oldest := book.slots.keys.insertionSort (· ≤ ·)
  oldest.take (oldest.length - minuteCap)

theorem slots_changed (book : MinuteBook K) :
    book.changed.slots = if book.slots.size ≤ minuteCap + trimSlack then book.slots
      else book.trimmed.foldl Dict.erase book.slots := by
  unfold changed
  by_cases h : book.slots.size ≤ minuteCap + trimSlack
  · rw [if_pos h, if_pos h]
  · rw [if_neg h, if_neg h]
    simp only [trimmed]

@[simp] theorem forming_changed (book : MinuteBook K) : book.changed.forming = book.forming := by
  unfold changed; split <;> rfl

@[simp] theorem stale_changed (book : MinuteBook K) : book.changed.stale = true := by
  unfold changed; split <;> rfl

theorem trimmed_eq (book : MinuteBook K) :
    book.trimmed
      = (book.slots.keys.insertionSort (· ≤ ·)).take (book.slots.size - minuteCap) := by
  simp only [trimmed, List.length_insertionSort, Dict.size_eq_length_keys]

/-- The minutes a trim leaves are the newest. -/
theorem keys_trim (book : MinuteBook K) :
    (book.trimmed.foldl Dict.erase book.slots).keys.Perm
      ((book.slots.keys.insertionSort (· ≤ ·)).drop (book.slots.size - minuteCap)) := by
  have hperm := List.perm_insertionSort (· ≤ ·) book.slots.keys
  have hnd : (book.slots.keys.insertionSort (· ≤ ·)).Nodup := hperm.nodup_iff.mpr book.slots.nodup
  rw [keys_foldl_erase, ← filter_not_mem_take hnd, trimmed_eq]
  exact (hperm.filter _).symm

/-- A minute that goes is older than every one that is left. -/
theorem lt_of_mem_trimmed {book : MinuteBook K} {t x : Int} (ht : t ∈ book.trimmed)
    (hx : x ∈ (book.slots.keys.insertionSort (· ≤ ·)).drop (book.slots.size - minuteCap)) : t < x := by
  have hsorted := List.pairwise_insertionSort (· ≤ ·) book.slots.keys
  have hnd : (book.slots.keys.insertionSort (· ≤ ·)).Nodup :=
    (List.perm_insertionSort (· ≤ ·) book.slots.keys).nodup_iff.mpr book.slots.nodup
  rw [trimmed_eq] at ht
  rw [← List.take_append_drop (book.slots.size - minuteCap)
    (book.slots.keys.insertionSort (· ≤ ·))] at hsorted hnd
  refine lt_of_le_of_ne ((List.pairwise_append.mp hsorted).2.2 t ht x hx) fun he => ?_
  exact List.disjoint_of_nodup_append hnd ht (he ▸ hx)

theorem length_keys_left {book : MinuteBook K} (h : minuteCap ≤ book.slots.size) :
    ((book.slots.keys.insertionSort (· ≤ ·)).drop (book.slots.size - minuteCap)).length
      = minuteCap := by
  rw [List.length_drop, List.length_insertionSort, ← Dict.size_eq_length_keys]
  omega

/-- A book at the cap and its slack is left as it was; beyond, 2,880 minutes are left. -/
theorem size_changed (book : MinuteBook K) :
    book.changed.slots.size
      = if book.slots.size ≤ minuteCap + trimSlack then book.slots.size else minuteCap := by
  rw [slots_changed]
  by_cases hbig : book.slots.size ≤ minuteCap + trimSlack
  · rw [if_pos hbig, if_pos hbig]
  · rw [if_neg hbig, if_neg hbig, Dict.size_eq_length_keys, (keys_trim book).length_eq]
    exact length_keys_left (by omega)

/-- **What a trim leaves.** Slots only go, and the slot of a minute stays as long as fewer than
2,880 newer ones are held. -/
theorem changed_spec (book : MinuteBook K) :
    (∀ t slot, book.changed.slots.get? t = some slot → book.slots.get? t = some slot) ∧
    ∀ t, newerThan t book.changed.slots < minuteCap →
      book.changed.slots.get? t = book.slots.get? t := by
  rw [slots_changed]
  by_cases hbig : book.slots.size ≤ minuteCap + trimSlack
  · rw [if_pos hbig]
    exact ⟨fun _ _ h => h, fun _ _ => by trivial⟩
  · rw [if_neg hbig]
    refine ⟨fun t slot ht => ?_, fun t hfew => ?_⟩
    · rw [get?_foldl_erase] at ht
      split at ht
      · cases ht
      · exact ht
    · rw [get?_foldl_erase, if_neg]
      -- were the minute among the oldest, the 2,880 left would all be newer
      intro ht
      have hall : ∀ x ∈ (book.slots.keys.insertionSort (· ≤ ·)).drop (book.slots.size - minuteCap),
          t < x := fun x hx => lt_of_mem_trimmed ht hx
      have hcount : newerThan t (book.trimmed.foldl Dict.erase book.slots) = minuteCap := by
        unfold newerThan
        rw [((keys_trim book).filter _).length_eq, List.filter_eq_self.mpr (by simpa using hall),
          length_keys_left (by omega)]
      omega

/-- The reports held of a minute, each with its kind. -/
def heldAt (book : MinuteBook K) (t : Int) : List (String × Candle K) :=
  ((book.slots.get? t).map Slot.held).getD []

theorem heldAt_of_get? {book : MinuteBook K} {t : Int} {slot : Slot K}
    (h : book.slots.get? t = some slot) : book.heldAt t = slot.held := by
  rw [heldAt, h]; rfl

theorem isSealed_provisional : isSealed provisionalKind = false := by decide

theorem sealed_iff {book : MinuteBook K} {t : Int} :
    book.sealed t = true ↔ ∃ e ∈ book.heldAt t, isSealed e.1 = true := by
  unfold sealed heldAt
  cases book.slots.get? t <;> simp

end MinuteBook

/-! ## Joining -/

section Join

variable [LT K] [DecidableLT K]

theorem join_isSome {parts : List (Candle K)} (h : parts ≠ []) : ∃ m, join parts = some m := by
  unfold join
  split
  · exact ⟨_, rfl⟩
  · split
    · next hnil =>
      have hperm := List.perm_insertionSort (fun a b : Candle K => rank a.src ≤ rank b.src) parts
      unfold byRank at hnil
      rw [hnil] at hperm
      exact absurd hperm.nil_eq.symm h
    · exact ⟨_, rfl⟩

theorem foldl_joinPart_t (parts : List (Candle K)) (acc : Candle K) :
    (parts.foldl joinPart acc).t = acc.t := by
  induction parts generalizing acc with
  | nil => rfl
  | cons p parts ih => exact ih (joinPart acc p)

/-- Reports of one minute join to a bar of that minute. -/
theorem join_time {parts : List (Candle K)} {m : Candle K} {t : Int} (hm : join parts = some m)
    (h : ∀ p ∈ parts, p.t = t) : m.t = t := by
  unfold join at hm
  split at hm
  · cases hm; exact h _ (List.mem_singleton_self _)
  · split at hm
    · cases hm
    · next first rest hsort =>
      cases hm
      rw [foldl_joinPart_t]
      refine h first ?_
      have hmem : first ∈ byRank parts := by rw [hsort]; exact List.mem_cons_self ..
      exact (List.mem_insertionSort _).mp hmem

/-- **The join of reports of different ranks** does not depend on their order. -/
theorem join_perm {parts parts' : List (Candle K)} (h : parts.Perm parts')
    (hd : ∀ a ∈ parts, ∀ b ∈ parts, rank a.src = rank b.src → a = b) :
    join parts = join parts' := by
  have hsorted : byRank parts = byRank parts' := by
    have htotal : Std.Total fun a b : Candle K => rank a.src ≤ rank b.src :=
      ⟨fun a b => Nat.le_total _ _⟩
    have htrans : IsTrans (Candle K) fun a b => rank a.src ≤ rank b.src :=
      ⟨fun _ _ _ => Nat.le_trans⟩
    have hp := List.perm_insertionSort (fun a b : Candle K => rank a.src ≤ rank b.src) parts
    have hp' := List.perm_insertionSort (fun a b : Candle K => rank a.src ≤ rank b.src) parts'
    refine List.Perm.eq_of_pairwise ?_ (List.pairwise_insertionSort _ parts)
      (List.pairwise_insertionSort _ parts') (hp.trans (h.trans hp'.symm))
    -- two reports that tie in rank are one
    intro a b ha hb hab hba
    have hb' : b ∈ parts := h.symm.subset ((List.mem_insertionSort _).mp hb)
    exact hd a ((List.mem_insertionSort _).mp ha) b hb' (Nat.le_antisymm hab hba)
  match parts, parts', h with
  | [], parts', h => rw [h.nil_eq]
  | [p], parts', h => rw [List.singleton_perm.mp h]
  | p :: q :: rest, [], h => cases h.eq_nil
  | p :: q :: rest, [p'], h => cases h.length_eq
  | p :: q :: rest, p' :: q' :: rest', h =>
    unfold join
    dsimp only
    rw [hsorted]

end Join

/-! ## The invariant of a book -/

/-- A slot of minute `t`. -/
structure SlotOk [LT K] [DecidableLT K] (t : Int) (slot : Slot K) : Prop where
  nodup : (slot.held.map Prod.fst).Nodup
  time : ∀ e ∈ slot.held, e.2.t = t
  /-- The minute as shown is the join of what is held. -/
  merged : join (slot.held.map Prod.snd) = some slot.merged
  /-- A provisional report is held beside no sealed one. -/
  unsealed : ∀ e ∈ slot.held, e.1 = provisionalKind → ∀ e' ∈ slot.held, isSealed e'.1 = false

/-- A book as its operations leave it. -/
structure BookOk [LT K] [DecidableLT K] (book : MinuteBook K) : Prop where
  slot : ∀ t slot, book.slots.get? t = some slot → SlotOk t slot
  few : book.slots.size ≤ minuteCap + trimSlack
  cache : book.stale = false → book.cache = book.minutes

section Invariant

variable [LT K] [DecidableLT K]

theorem bookOk_fresh : BookOk ({} : MinuteBook K) where
  slot := fun _ _ h => by cases h
  few := Nat.zero_le _
  cache := fun _ => rfl

theorem SlotOk.merged_t {t : Int} {slot : Slot K} (h : SlotOk t slot) : slot.merged.t = t := by
  refine join_time h.merged fun p hp => ?_
  obtain ⟨e, he, rfl⟩ := List.mem_map.mp hp
  exact h.time e he

theorem SlotOk.held_ne_nil {t : Int} {slot : Slot K} (h : SlotOk t slot) : slot.held ≠ [] := by
  intro hnil
  have hm := h.merged
  rw [hnil] at hm
  cases hm

theorem SlotOk.eq_of_kind {t : Int} {slot : Slot K} (h : SlotOk t slot) {e e' : String × Candle K}
    (he : e ∈ slot.held) (he' : e' ∈ slot.held) (hk : e.1 = e'.1) : e = e' :=
  List.inj_on_of_nodup_map h.nodup he he' hk

theorem BookOk.heldAt_eq_nil_iff {book : MinuteBook K} (h : BookOk book) {t : Int} :
    book.heldAt t = [] ↔ book.slots.get? t = none := by
  unfold MinuteBook.heldAt
  cases hs : book.slots.get? t with
  | none => simp
  | some slot => simpa using (h.slot t slot hs).held_ne_nil

theorem BookOk.sorted_fst {book : MinuteBook K} (h : BookOk book) :
    book.sorted.1 = book.minutes := by
  unfold MinuteBook.sorted
  split
  · rfl
  · next hstale => exact h.cache (Bool.not_eq_true _ ▸ hstale)

theorem BookOk.sorted_snd {book : MinuteBook K} (h : BookOk book) : BookOk book.sorted.2 := by
  unfold MinuteBook.sorted
  split
  · exact ⟨h.slot, h.few, fun _ => rfl⟩
  · exact h

/-- **The minutes shown**: one bar for each slot, of its minute. -/
theorem BookOk.filter_sorted {book : MinuteBook K} (h : BookOk book) (t : Int) :
    book.sorted.1.filter (fun m => m.t = t) = ((book.slots.get? t).map Slot.merged).toList := by
  have hkey : ∀ k slot, book.slots.get? k = some slot → slot.merged.t = k :=
    fun k slot hget => (h.slot k slot hget).merged_t
  have hvalues : (book.slots.values.map Slot.merged).filter (fun m => m.t = t)
      = ((book.slots.get? t).map Slot.merged).toList := by
    rw [List.filter_map]
    show (book.slots.values.filter fun slot => slot.merged.t = t).map Slot.merged = _
    rw [Dict.filter_values_eq hkey]
    cases book.slots.get? t <;> rfl
  have hperm := (List.perm_insertionSort (fun a b : Candle K => a.t ≤ b.t)
    (book.slots.values.map Slot.merged)).filter (fun m => m.t = t)
  rw [h.sorted_fst, MinuteBook.minutes]
  rw [hvalues] at hperm
  cases hget : book.slots.get? t with
  | none => rw [hget] at hperm; exact hperm.eq_nil
  | some slot => rw [hget] at hperm; exact hperm.eq_singleton

/-- Trimming keeps the invariant. -/
theorem BookOk.changed {book : MinuteBook K}
    (h : ∀ t slot, book.slots.get? t = some slot → SlotOk t slot) : BookOk book.changed where
  slot := fun t slot ht => h t slot (book.changed_spec.1 t slot ht)
  few := by
    rw [MinuteBook.size_changed]
    split
    · assumption
    · exact Nat.le_add_right ..
  cache := fun hstale => by rw [MinuteBook.stale_changed] at hstale; cases hstale

end Invariant

/-! ## A report -/

theorem mem_eraseP_kind {l : List (String × Candle K)} (hnd : (l.map Prod.fst).Nodup)
    (kind : String) {e : String × Candle K} :
    e ∈ l.eraseP (·.1 = kind) ↔ e ∈ l ∧ e.1 ≠ kind := by
  induction l with
  | nil => simp
  | cons x rest ih =>
    rw [List.map_cons, List.nodup_cons] at hnd
    by_cases hx : x.1 = kind
    · rw [List.eraseP_cons_of_pos (by simpa using hx), List.mem_cons]
      constructor
      · intro he
        exact ⟨Or.inr he, fun hk => hnd.1 (List.mem_map.mpr ⟨e, he, hk.trans hx.symm⟩)⟩
      · rintro ⟨rfl | he, hk⟩
        · exact absurd hx hk
        · exact he
    · rw [List.eraseP_cons_of_neg (by simpa using hx), List.mem_cons, List.mem_cons, ih hnd.2]
      constructor
      · rintro (rfl | ⟨he, hk⟩)
        · exact ⟨Or.inl rfl, hx⟩
        · exact ⟨Or.inr he, hk⟩
      · rintro ⟨rfl | he, hk⟩
        · exact Or.inl rfl
        · exact Or.inr ⟨he, hk⟩

/-- What a slot of `held` holds after a report of a kind: the report, what was held of the other
kinds, and with a sealed report no provisional one. -/
def Recorded (held : List (String × Candle K)) (bar : Candle K) (kind : String)
    (e : String × Candle K) : Prop :=
  e = (kind, bar) ∨ (e ∈ held ∧ e.1 ≠ kind ∧ ¬ (isSealed kind = true ∧ e.1 = provisionalKind))

/-- `setEntries` on the reports of a slot. -/
theorem mem_setEntries_kind {l : List (String × Candle K)} (hnd : (l.map Prod.fst).Nodup)
    (bar : Candle K) (kind : String) {e : String × Candle K} :
    e ∈ Dict.setEntries l kind bar ↔ e = (kind, bar) ∨ (e ∈ l ∧ e.1 ≠ kind) := by
  obtain ⟨k, v⟩ := e
  have hmem : (k, v) ∈ Dict.setEntries l kind bar ↔ _ :=
    Dict.mem_entries_set (d := ⟨l, hnd⟩) (k := kind) (v := bar)
  rw [hmem, Prod.mk.injEq]
  constructor
  · rintro (h | ⟨hk, h⟩)
    · exact Or.inl h
    · exact Or.inr ⟨h, hk⟩
  · rintro (h | ⟨h, hk⟩)
    · exact Or.inl h
    · exact Or.inr ⟨hk, h⟩

theorem nodup_record {slot : Slot K} (hnd : (slot.held.map Prod.fst).Nodup) (bar : Candle K)
    (kind : String) : ((MinuteBook.record slot bar kind).map Prod.fst).Nodup := by
  have hset : ((Dict.setEntries slot.held kind bar).map Prod.fst).Nodup :=
    ((⟨slot.held, hnd⟩ : Dict String (Candle K)).set kind bar).nodup
  unfold MinuteBook.record
  dsimp only
  split
  · exact hset.sublist (List.eraseP_sublist.map _)
  · exact hset

theorem mem_record {slot : Slot K} (hnd : (slot.held.map Prod.fst).Nodup) (bar : Candle K)
    (kind : String) {e : String × Candle K} :
    e ∈ MinuteBook.record slot bar kind ↔ Recorded slot.held bar kind e := by
  have hset : ((Dict.setEntries slot.held kind bar).map Prod.fst).Nodup :=
    ((⟨slot.held, hnd⟩ : Dict String (Candle K)).set kind bar).nodup
  unfold MinuteBook.record Recorded
  dsimp only
  split
  · next hs =>
    have hkind : kind ≠ provisionalKind := by
      rintro rfl
      exact absurd hs (by decide)
    rw [mem_eraseP_kind hset, mem_setEntries_kind hnd]
    constructor
    · rintro ⟨rfl | ⟨he, hk⟩, hp⟩
      · exact Or.inl rfl
      · exact Or.inr ⟨he, hk, fun h => hp h.2⟩
    · rintro (rfl | ⟨he, hk, hp⟩)
      · exact ⟨Or.inl rfl, hkind⟩
      · exact ⟨Or.inr ⟨he, hk⟩, fun h => hp ⟨hs, h⟩⟩
  · next hs =>
    rw [mem_setEntries_kind hnd]
    refine or_congr_right (and_congr_right fun _ => ⟨fun hk => ⟨hk, fun h => hs h.1⟩, And.left⟩)

section Put

theorem eq_of_sameBar [DecidableEq K] {a b : Candle K} (h : sameBar a b = true) (ht : a.t = b.t) : a = b := by
  obtain ⟨t, o, hi, l, c, n, src⟩ := a
  obtain ⟨t', o', hi', l', c', n', src'⟩ := b
  simp only [sameBar, decide_eq_true_eq] at h
  obtain ⟨rfl, rfl, rfl, rfl, rfl, rfl⟩ := h
  cases ht
  rfl

variable [LT K] [DecidableLT K] {book : MinuteBook K}

/-- What the slots hold after a report, before any trim. -/
def PutHeld (book : MinuteBook K) (bar : Candle K) (kind : String) (t : Int)
    (e : String × Candle K) : Prop :=
  (t = bar.t ∧ Recorded (book.heldAt t) bar kind e) ∨ (t ≠ bar.t ∧ e ∈ book.heldAt t)

/-- What a book is after a report of a kind. -/
structure PutSpec (book : MinuteBook K) (bar : Candle K) (kind : String) (book' : MinuteBook K) :
    Prop where
  ok : BookOk book'
  forming : book'.forming = book.forming
  /-- Nothing is held but what was put. -/
  only : ∀ t e, e ∈ book'.heldAt t → PutHeld book bar kind t e
  /-- And all of it where fewer than 2,880 newer minutes are. -/
  kept : ∀ t e, newerThan t book'.slots < minuteCap → PutHeld book bar kind t e →
    e ∈ book'.heldAt t

omit [LT K] [DecidableLT K] in
/-- What is held once a slot is set. -/
theorem mem_heldAt_set {bar : Candle K} {kind : String} {slot : Slot K}
    (hmem : ∀ e, e ∈ slot.held ↔ Recorded (book.heldAt bar.t) bar kind e) (t : Int)
    (e : String × Candle K) :
    e ∈ ({ book with slots := book.slots.set bar.t slot } : MinuteBook K).heldAt t ↔
      PutHeld book bar kind t e := by
  unfold MinuteBook.heldAt PutHeld
  rw [Dict.get?_set]
  by_cases ht : t = bar.t
  · subst ht
    simpa [MinuteBook.heldAt] using hmem e
  · simp [ht, MinuteBook.heldAt]

/-- Every slot is as it should be once one is set. -/
theorem BookOk.slot_set (h : BookOk book) {bar : Candle K} {slot s : Slot K} (hslot : SlotOk bar.t slot)
    {t : Int} (hs : (book.slots.set bar.t slot).get? t = some s) : SlotOk t s := by
  rw [Dict.get?_set] at hs
  split at hs
  · next ht =>
    cases hs
    rw [ht]
    exact hslot
  · exact h.slot t s hs

/-- A report that sets its slot. -/
theorem PutSpec.of_set (h : BookOk book) {bar : Candle K} {kind : String} {slot : Slot K}
    (hslot : SlotOk bar.t slot)
    (hmem : ∀ e, e ∈ slot.held ↔ Recorded (book.heldAt bar.t) bar kind e) :
    PutSpec book bar kind ({ book with slots := book.slots.set bar.t slot }.changed) := by
  have hheld := mem_heldAt_set hmem
  have hspec := MinuteBook.changed_spec { book with slots := book.slots.set bar.t slot }
  refine ⟨BookOk.changed fun t s hs => ?_, by simp, fun t e he => (hheld t e).mp ?_,
    fun t e hfew he => ?_⟩
  · exact h.slot_set hslot hs
  · unfold MinuteBook.heldAt at he ⊢
    cases hget : (MinuteBook.changed _).slots.get? t with
    | none => rw [hget] at he; cases he
    | some s =>
      rw [hget] at he
      rw [hspec.1 t s hget]
      exact he
  · have hold := (hheld t e).mpr he
    unfold MinuteBook.heldAt at hold ⊢
    rw [hspec.2 t hfew]
    exact hold

/-- A report that leaves the minute as shown. -/
theorem PutSpec.of_quiet (h : BookOk book) {bar : Candle K} {kind : String} {slot₀ slot : Slot K}
    (hget : book.slots.get? bar.t = some slot₀) (hmerged : slot.merged = slot₀.merged)
    (hslot : SlotOk bar.t slot)
    (hmem : ∀ e, e ∈ slot.held ↔ Recorded (book.heldAt bar.t) bar kind e) :
    PutSpec book bar kind { book with slots := book.slots.set bar.t slot } := by
  have hheld := mem_heldAt_set hmem
  refine ⟨⟨fun t s hs => ?_, ?_, fun hstale => ?_⟩, rfl, fun t e => (hheld t e).mp,
    fun t e _ => (hheld t e).mpr⟩
  · exact h.slot_set hslot hs
  · rw [Dict.size_set, Dict.contains, hget]
    exact h.few
  · rw [h.cache hstale]
    unfold MinuteBook.minutes
    rw [Dict.map_values_set hget hmerged]

variable [DecidableEq K]

/-- A provisional report of a sealed minute is ignored. -/
theorem put_provisional_of_sealed {bar : Candle K} (hs : book.sealed bar.t = true) :
    book.put bar provisionalKind = some (book, false) := by
  unfold MinuteBook.sealed at hs
  unfold MinuteBook.put
  cases hget : book.slots.get? bar.t with
  | none => rw [hget] at hs; cases hs
  | some slot =>
    rw [hget] at hs
    exact if_pos ⟨rfl, hs⟩

theorem put_of_none (book : MinuteBook K) (bar : Candle K) (h : book.slots.get? bar.t = none)
    (kind : String) :
    book.put bar kind
      = some ({ book with slots := book.slots.set bar.t ⟨[(kind, bar)], bar⟩ }.changed, true) := by
  unfold MinuteBook.put
  rw [h]

/-- A report held already is what recording it again leaves. -/
theorem SlotOk.recorded_of_same {bar : Candle K} {kind : String} {slot : Slot K} (h : SlotOk bar.t slot)
    (hsame : (slot.held.find? (·.1 = kind)).any (fun e => sameBar e.2 bar) = true)
    {e : String × Candle K} : e ∈ slot.held ↔ Recorded slot.held bar kind e := by
  obtain ⟨e₀, hfind, hbar⟩ := (Option.any_eq_true ..).mp hsame
  have he₀ : e₀ ∈ slot.held := List.mem_of_find?_eq_some hfind
  have hk₀ : e₀.1 = kind := by simpa using List.find?_some hfind
  have heq : e₀ = (kind, bar) := Prod.ext hk₀ (eq_of_sameBar hbar (h.time e₀ he₀))
  constructor
  · intro he
    by_cases hk : e.1 = kind
    · exact Or.inl ((h.eq_of_kind he he₀ (hk.trans hk₀.symm)).trans heq)
    · refine Or.inr ⟨he, hk, fun hp => ?_⟩
      have := h.unsealed e he hp.2 e₀ he₀
      rw [hk₀, hp.1] at this
      cases this
  · rintro (rfl | he)
    · exact heq ▸ he₀
    · exact he.1

omit [DecidableEq K] in
/-- What is held with a new report is joined anew, and no provisional report gets beside a sealed one. -/
theorem SlotOk.record {bar : Candle K} {kind : String} {slot : Slot K} (h : SlotOk bar.t slot)
    (hno : ¬ (kind = provisionalKind ∧ slot.held.any (fun e => isSealed e.1) = true)) :
    ∃ merged, join ((MinuteBook.record slot bar kind).map Prod.snd) = some merged ∧
      SlotOk bar.t ⟨MinuteBook.record slot bar kind, merged⟩ := by
  have htime : ∀ e ∈ MinuteBook.record slot bar kind, e.2.t = bar.t := by
    intro e he
    rcases (mem_record h.nodup bar kind).mp he with rfl | he
    · rfl
    · exact h.time e he.1
  have hunsealed : ∀ e ∈ MinuteBook.record slot bar kind, e.1 = provisionalKind →
      ∀ e' ∈ MinuteBook.record slot bar kind, isSealed e'.1 = false := by
    intro e he hp e' he'
    rcases (mem_record h.nodup bar kind).mp he with rfl | ⟨hin, -, hks⟩
    · -- the report is provisional, and nothing sealed is held
      have hprov : isSealed kind = false := by rw [show kind = provisionalKind from hp]; decide
      rcases (mem_record h.nodup bar kind).mp he' with rfl | ⟨hin', -⟩
      · exact hprov
      · by_contra hs
        exact hno ⟨hp, List.any_eq_true.mpr ⟨e', hin', by simpa using hs⟩⟩
    · rcases (mem_record h.nodup bar kind).mp he' with rfl | ⟨hin', -⟩
      · by_contra hs
        exact hks ⟨by simpa using hs, hp⟩
      · exact h.unsealed e hin hp e' hin'
  obtain ⟨merged, hmerged⟩ : ∃ m, join ((MinuteBook.record slot bar kind).map Prod.snd) = some m := by
    refine join_isSome fun hnil => ?_
    rw [List.map_eq_nil_iff] at hnil
    have hin := (mem_record h.nodup bar kind).mpr (Or.inl rfl)
    rw [hnil] at hin
    cases hin
  exact ⟨merged, hmerged, nodup_record h.nodup bar kind, htime, hmerged, hunsealed⟩

/-- **What a report changes.** -/
theorem put_spec (h : BookOk book) (bar : Candle K) (kind : String)
    (hopen : kind = provisionalKind → book.sealed bar.t = false) :
    ∃ book' changed, book.put bar kind = some (book', changed) ∧ PutSpec book bar kind book' := by
  unfold MinuteBook.put
  cases hget : book.slots.get? bar.t with
  | none =>
    have hnil : book.heldAt bar.t = [] := h.heldAt_eq_nil_iff.mpr hget
    refine ⟨_, true, rfl, PutSpec.of_set h ⟨by simp, by simp, rfl, ?_⟩ fun e => ?_⟩
    · intro e he hp e' he'
      rw [List.mem_singleton] at he he'
      rw [he', ← he, hp]
      decide
    · rw [hnil]
      simp [Recorded]
  | some slot =>
    have hok := h.slot bar.t slot hget
    have hheld : book.heldAt bar.t = slot.held := MinuteBook.heldAt_of_get? hget
    -- a provisional report is put only where nothing sealed is held
    have hno : ¬ (kind = provisionalKind ∧ slot.held.any (fun e => isSealed e.1) = true) := by
      rintro ⟨hk, hs⟩
      have hsealed := hopen hk
      rw [MinuteBook.sealed, hget, Option.any_some, hs] at hsealed
      cases hsealed
    dsimp only
    rw [if_neg hno]
    by_cases hsame : (slot.held.find? (·.1 = kind)).any (fun e => sameBar e.2 bar) = true
    · -- the report is held already
      rw [if_pos hsame]
      have hput : ∀ t e, e ∈ book.heldAt t ↔ PutHeld book bar kind t e := by
        intro t e
        unfold PutHeld
        by_cases ht : t = bar.t
        · subst ht
          rw [hheld, ← hok.recorded_of_same hsame]
          simp
        · simp [ht]
      exact ⟨book, false, rfl, h, rfl, fun t e => (hput t e).mp, fun t e _ => (hput t e).mpr⟩
    · -- the report is new, or has changed: what is held is joined anew
      rw [if_neg hsame]
      have hmem : ∀ e, e ∈ MinuteBook.record slot bar kind ↔
          Recorded (book.heldAt bar.t) bar kind e := by
        intro e
        rw [hheld]
        exact mem_record hok.nodup bar kind
      obtain ⟨merged, hmerged, hslot⟩ := hok.record hno
      rw [hmerged, Option.map_some]
      -- and may come to what the minute shows already
      by_cases hshown : sameBar merged slot.merged = true
      · have hsame : merged = slot.merged :=
          eq_of_sameBar hshown (hslot.merged_t.trans hok.merged_t.symm)
        rw [if_pos hshown]
        refine ⟨_, false, rfl, PutSpec.of_quiet h hget rfl ?_ hmem⟩
        rw [← hsame]
        exact hslot
      · rw [if_neg hshown]
        exact ⟨_, true, rfl, PutSpec.of_set h hslot hmem⟩

/-- A report of any kind: it is put, or ignored as a provisional one of a sealed minute. -/
theorem put_total (h : BookOk book) (bar : Candle K) (kind : String) :
    ∃ book', (book.put bar kind).map Prod.fst = some book' ∧
      (PutSpec book bar kind book' ∨ kind = provisionalKind ∧ book' = book) := by
  by_cases hs : kind = provisionalKind ∧ book.sealed bar.t = true
  · obtain ⟨rfl, hs⟩ := hs
    exact ⟨book, by rw [put_provisional_of_sealed hs]; rfl, Or.inr ⟨rfl, rfl⟩⟩
  · have hopen : kind = provisionalKind → book.sealed bar.t = false := fun hk => by
      rw [← Bool.not_eq_true]; exact fun h => hs ⟨hk, h⟩
    obtain ⟨book', changed, hput, hspec⟩ := put_spec h bar kind hopen
    exact ⟨book', by rw [hput]; rfl, Or.inl hspec⟩

end Put

/-! ## An authoritative span -/

section Drop

variable [LT K] [DecidableLT K]

/-- What a drop takes out: a provisional report inside the span that the span lacks. -/
def DroppedFrom (lo hi : Int) (present : List Int) (t : Int) (e : String × Candle K) : Prop :=
  lo ≤ t ∧ t ≤ hi ∧ t ∉ present ∧ e.1 = provisionalKind

/-- What one turn of the loop, or several, leave of a book. -/
structure DropStep (s s' : MinuteBook K × Bool) : Prop where
  slot : ∀ t slot, s'.1.slots.get? t = some slot → SlotOk t slot
  few : s'.1.slots.size ≤ s.1.slots.size
  forming : s'.1.forming = s.1.forming
  cache : s'.1.cache = s.1.cache ∧ s'.1.stale = s.1.stale
  quiet : s'.2 = false → s.2 = false ∧ s'.1 = s.1

theorem DropStep.refl {s : MinuteBook K × Bool}
    (h : ∀ t slot, s.1.slots.get? t = some slot → SlotOk t slot) : DropStep s s where
  slot := h
  few := Nat.le_refl _
  forming := rfl
  cache := ⟨rfl, rfl⟩
  quiet := fun hd => ⟨hd, rfl⟩

theorem DropStep.trans {s s' s'' : MinuteBook K × Bool} (h : DropStep s s') (h' : DropStep s' s'') :
    DropStep s s'' where
  slot := h'.slot
  few := h'.few.trans h.few
  forming := h'.forming.trans h.forming
  cache := ⟨h'.cache.1.trans h.cache.1, h'.cache.2.trans h.cache.2⟩
  quiet := fun hd => by
    obtain ⟨hd', heq'⟩ := h'.quiet hd
    obtain ⟨hd, heq⟩ := h.quiet hd'
    exact ⟨hd, heq'.trans heq⟩

/-- Without its provisional report a minute is taken out, -/
theorem DropStep.erase {s : MinuteBook K × Bool}
    (h : ∀ t slot, s.1.slots.get? t = some slot → SlotOk t slot) (t : Int) :
    DropStep s ({ s.1 with slots := s.1.slots.erase t }, true) := by
  refine ⟨fun x slot hx => ?_, List.length_filter_le .., rfl, ⟨rfl, rfl⟩, fun hd => by cases hd⟩
  rw [Dict.get?_erase] at hx
  split at hx
  · cases hx
  · exact h x slot hx

/-- or shows what the others come to. -/
theorem DropStep.set {s : MinuteBook K × Bool}
    (h : ∀ t slot, s.1.slots.get? t = some slot → SlotOk t slot) {t : Int} {slot slot' : Slot K}
    (hget : s.1.slots.get? t = some slot) (hslot : SlotOk t slot') :
    DropStep s ({ s.1 with slots := s.1.slots.set t slot' }, true) := by
  refine ⟨fun x slot hx => ?_, ?_, rfl, ⟨rfl, rfl⟩, fun hd => by cases hd⟩
  · rw [Dict.get?_set] at hx
    split at hx
    · next hxt => cases hx; rw [hxt]; exact hslot
    · exact h x slot hx
  · show (s.1.slots.set t _).size ≤ _
    rw [Dict.size_set, Dict.contains, hget]
    exact Nat.le_refl _

/-- The other reports of a minute are joined without the provisional one. -/
theorem SlotOk.unprovisional {t : Int} {slot : Slot K} (h : SlotOk t slot)
    (hne : slot.held.eraseP (fun e => e.1 = provisionalKind) ≠ []) :
    ∃ merged, join ((slot.held.eraseP (fun e => e.1 = provisionalKind)).map Prod.snd) = some merged ∧
      SlotOk t ⟨slot.held.eraseP (fun e => e.1 = provisionalKind), merged⟩ := by
  obtain ⟨merged, hmerged⟩ : ∃ m, join ((slot.held.eraseP
      (fun e => e.1 = provisionalKind)).map Prod.snd) = some m :=
    join_isSome fun hn => hne (List.map_eq_nil_iff.mp hn)
  refine ⟨merged, hmerged, h.nodup.sublist (List.eraseP_sublist.map _), fun e he => ?_, hmerged,
    fun e he hp => ?_⟩
  · exact h.time e ((mem_eraseP_kind h.nodup provisionalKind).mp he).1
  · exact absurd hp ((mem_eraseP_kind h.nodup provisionalKind).mp he).2

theorem dropMinute_spec (lo hi : Int) (present : List Int) {s : MinuteBook K × Bool}
    (h : ∀ t slot, s.1.slots.get? t = some slot → SlotOk t slot) {t : Int} {slot : Slot K}
    (hget : s.1.slots.get? t = some slot) :
    ∃ s', MinuteBook.dropMinute lo hi present s (t, slot) = some s' ∧ DropStep s s' ∧
      (∀ x, x ≠ t → s'.1.slots.get? x = s.1.slots.get? x) ∧
      ∀ e, e ∈ s'.1.heldAt t ↔ e ∈ slot.held ∧ ¬ DroppedFrom lo hi present t e := by
  have hok := h t slot hget
  have hheld : s.1.heldAt t = slot.held := MinuteBook.heldAt_of_get? hget
  unfold MinuteBook.dropMinute DroppedFrom
  dsimp only
  by_cases hout : t < lo ∨ hi < t ∨ t ∈ present
  · -- outside the range, or present
    rw [if_pos hout]
    refine ⟨s, rfl, .refl h, fun _ _ => rfl, fun e => ?_⟩
    rw [hheld]
    refine ⟨fun he => ⟨he, fun hd => ?_⟩, And.left⟩
    rcases hout with hlt | hlt | hp
    · omega
    · omega
    · exact hd.2.2.1 hp
  · rw [if_neg hout]
    have hin : lo ≤ t ∧ t ≤ hi ∧ t ∉ present := by
      simp only [not_or, not_lt] at hout
      exact hout
    by_cases hany : slot.held.any (fun e => e.1 = provisionalKind) = true
    · rw [if_pos hany]
      have hmem : ∀ e, e ∈ slot.held.eraseP (fun e => e.1 = provisionalKind) ↔
          e ∈ slot.held ∧ ¬ (lo ≤ t ∧ t ≤ hi ∧ t ∉ present ∧ e.1 = provisionalKind) := by
        intro e
        rw [mem_eraseP_kind hok.nodup]
        exact and_congr_right fun _ => ⟨fun hk hd => hk hd.2.2.2, fun hd hk =>
          hd ⟨hin.1, hin.2.1, hin.2.2, hk⟩⟩
      by_cases hempty : (slot.held.eraseP (fun e => e.1 = provisionalKind)).isEmpty = true
      · -- nothing else was held, and the minute goes
        rw [if_pos hempty]
        refine ⟨_, rfl, .erase h t, fun x hx => ?_, fun e => ?_⟩
        · exact (Dict.get?_erase ..).trans (if_neg hx)
        · rw [← hmem, List.isEmpty_iff.mp hempty]
          unfold MinuteBook.heldAt
          rw [Dict.get?_erase, if_pos rfl]
          rfl
      · -- the other reports are joined without it
        rw [if_neg hempty]
        have hne : slot.held.eraseP (fun e => e.1 = provisionalKind) ≠ [] := fun hn =>
          hempty (List.isEmpty_iff.mpr hn)
        obtain ⟨merged, hmerged, hslot⟩ := hok.unprovisional hne
        rw [hmerged, Option.map_some]
        refine ⟨_, rfl, .set h hget hslot, fun x hx => ?_, fun e => ?_⟩
        · exact Dict.get?_set_ne _ _ hx
        · rw [← hmem]
          unfold MinuteBook.heldAt
          rw [Dict.get?_set_self]
          rfl
    · -- nothing provisional is held
      rw [if_neg hany]
      refine ⟨s, rfl, .refl h, fun _ _ => rfl, fun e => ?_⟩
      rw [hheld]
      refine ⟨fun he => ⟨he, fun hd => hany ?_⟩, And.left⟩
      exact List.any_eq_true.mpr ⟨e, he, by simpa using hd.2.2.2⟩

/-- The loop, over minutes each held as the entry says. -/
theorem dropMinutes_spec (lo hi : Int) (present : List Int) (l : List (Int × Slot K))
    (hnd : (l.map Prod.fst).Nodup) {s : MinuteBook K × Bool}
    (h : ∀ t slot, s.1.slots.get? t = some slot → SlotOk t slot)
    (hl : ∀ e ∈ l, s.1.slots.get? e.1 = some e.2) :
    ∃ s', l.foldlM (MinuteBook.dropMinute lo hi present) s = some s' ∧ DropStep s s' ∧
      ∀ t e, e ∈ s'.1.heldAt t ↔
        e ∈ s.1.heldAt t ∧ ¬ (t ∈ l.map Prod.fst ∧ DroppedFrom lo hi present t e) := by
  induction l generalizing s with
  | nil => exact ⟨s, rfl, .refl h, fun t e => by simp⟩
  | cons x rest ih =>
    obtain ⟨t₀, slot₀⟩ := x
    rw [List.map_cons, List.nodup_cons] at hnd
    have hget₀ : s.1.slots.get? t₀ = some slot₀ := hl _ (List.mem_cons_self ..)
    obtain ⟨s₁, hs₁, hstep, hother, hmem⟩ := dropMinute_spec lo hi present h hget₀
    have hrest : ∀ e ∈ rest, s₁.1.slots.get? e.1 = some e.2 := by
      intro e he
      rw [hother e.1 fun heq => hnd.1 (List.mem_map.mpr ⟨e, he, heq⟩)]
      exact hl e (List.mem_cons_of_mem _ he)
    obtain ⟨s₂, hs₂, hstep₂, hmem₂⟩ := ih hnd.2 hstep.slot hrest
    refine ⟨s₂, by rw [List.foldlM_cons, hs₁]; exact hs₂, hstep.trans hstep₂, fun t e => ?_⟩
    rw [hmem₂, List.map_cons, List.mem_cons]
    by_cases ht : t = t₀
    · subst ht
      rw [hmem, MinuteBook.heldAt_of_get? hget₀]
      simp [hnd.1]
    · have hsame : s₁.1.heldAt t = s.1.heldAt t := by
        unfold MinuteBook.heldAt
        rw [hother t ht]
      simp [hsame, ht]

/-- **What an authoritative span drops**: the provisional reports inside it that it lacks. -/
theorem dropUnsealed_spec {book : MinuteBook K} (h : BookOk book) (lo hi : Int)
    (present : List Int) :
    ∃ book', book.dropUnsealed lo hi present = some book' ∧ BookOk book' ∧
      book'.forming = book.forming ∧
      ∀ t e, e ∈ book'.heldAt t ↔ e ∈ book.heldAt t ∧ ¬ DroppedFrom lo hi present t e := by
  obtain ⟨⟨b, dropped⟩, hs, hstep, hmem⟩ := dropMinutes_spec lo hi present book.slots.entries
    book.slots.nodup (s := (book, false)) h.slot fun e he => Dict.mem_entries_iff.mp he
  have hheld : ∀ t e, e ∈ b.heldAt t ↔ e ∈ book.heldAt t ∧ ¬ DroppedFrom lo hi present t e := by
    intro t e
    refine (hmem t e).trans (and_congr_right fun he => not_congr ⟨And.right, fun hd => ⟨?_, hd⟩⟩)
    -- every minute held is an entry of the loop
    unfold MinuteBook.heldAt at he
    cases hget : book.slots.get? t with
    | none => rw [hget] at he; cases he
    | some slot => exact Dict.mem_keys_of_mem (Dict.mem_entries_iff.mpr hget)
  unfold MinuteBook.dropUnsealed
  rw [hs]
  cases dropped with
  | true =>
    exact ⟨{ b with stale := true }, rfl,
      ⟨hstep.slot, hstep.few.trans h.few, fun hstale => by cases hstale⟩, hstep.forming, hheld⟩
  | false =>
    obtain rfl : b = book := (hstep.quiet rfl).2
    exact ⟨b, rfl, h, rfl, hheld⟩

end Drop

end FxTracker.Web
