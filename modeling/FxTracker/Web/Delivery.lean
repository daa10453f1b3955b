import FxTracker.Web.Minutes
import FxTracker.Lib.Lts

/-!
# A minute does not depend on its delivery

Reports of a minute reach the browser through `sealMinute` and `mergeMinutes`, beside the forming
bars of `applyForming`, overlapping, repeated and in any order. Of one minute the slot holds the
source reports delivered so far and no others (`Shows`); a provisional report can only be there
until the minute is sealed, and the forming bar is never one of a sealed minute.

* `Delivered.apply` — what one call leaves
* `minute_independent_of_delivery` — the bar shown is the join of the source reports
-/

namespace FxTracker.Web

variable {K : Type}

/-- Reports of history and stream, of which minute `t` has at most one value per source. -/
structure Sources (t : Int) (reports : List (Candle K)) : Prop where
  source : ∀ r ∈ reports, r.t = t → r.src = "backfill" ∨ r.src = "mixed" ∨ r.src = "stream"
  unique : ∀ r ∈ reports, ∀ r' ∈ reports, r.t = t → r'.t = t → r.src = r'.src → r = r'

/-- The source reports a call delivers. A forming bar is none. -/
def MinuteOp.reports : MinuteOp K → List (Candle K)
  | .applyForming _ => []
  | .sealMinute bar => [bar]
  | .mergeMinutes bars _ => bars

def reportsIn (ops : List (MinuteOp K)) : List (Candle K) := ops.flatMap MinuteOp.reports

/-- Apart from a provisional report, the slot of minute `t` holds its reports among `reports`. -/
def Shows (t : Int) (reports : List (Candle K)) (book : MinuteBook K) : Prop :=
  ∀ e : String × Candle K, e.1 ≠ provisionalKind →
    (e ∈ book.heldAt t ↔ e.2 ∈ reports ∧ e.2.t = t ∧ e.1 = e.2.src)

/-- The forming bar is of a minute not sealed. -/
def FormingOpen (book : MinuteBook K) : Prop :=
  ∀ f, book.forming = some f → book.sealed f.t = false

variable [DecidableEq K] [LT K] [DecidableLT K]

/-- What a book is once `reports` were delivered. -/
structure Delivered (t : Int) (reports : List (Candle K)) (book : MinuteBook K) : Prop where
  ok : BookOk book
  holds : Shows t reports book
  forming : FormingOpen book

/-- Fewer than 2,880 newer minutes are held after the report. -/
def RoomAfter (t : Int) (book : MinuteBook K) (bar : Candle K) : Prop :=
  ∀ book' ∈ book.putBar bar, newerThan t book'.slots < minuteCap

/-- Fewer than 2,880 newer minutes are held at every moment of the call. -/
def RoomDuring (t : Int) (book : MinuteBook K) : MinuteOp K → Prop
  | .applyForming bar => ∀ book' ∈ book.applyForming bar, newerThan t book'.slots < minuteCap
  | .sealMinute bar =>
    RoomAfter t book bar ∧ ∀ book' ∈ book.sealMinute bar, newerThan t book'.slots < minuteCap
  | .mergeMinutes bars _ => Lts.Meets MinuteBook.putBar (RoomAfter t) book.newest.2 bars

instance (t : Int) (book : MinuteBook K) (bar : Candle K) : Decidable (RoomAfter t book bar) := by
  unfold RoomAfter; infer_instance

instance (t : Int) (book : MinuteBook K) (op : MinuteOp K) : Decidable (RoomDuring t book op) := by
  cases op <;> unfold RoomDuring <;> infer_instance

variable {t : Int} {reports all : List (Candle K)} {book : MinuteBook K} {bar : Candle K}

/-! ## One report -/

omit [DecidableEq K] [LT K] [DecidableLT K] in
theorem Shows.congr {reports' : List (Candle K)} (h : Shows t reports book)
    (hmem : ∀ r, r.t = t → (r ∈ reports' ↔ r ∈ reports)) : Shows t reports' book := by
  intro e he
  rw [h e he]
  constructor
  · rintro ⟨hr, ht, hs⟩
    exact ⟨(hmem e.2 ht).mpr hr, ht, hs⟩
  · rintro ⟨hr, ht, hs⟩
    exact ⟨(hmem e.2 ht).mp hr, ht, hs⟩

omit [DecidableEq K] in
/-- A provisional report changes nothing of the others. -/
theorem Shows.provisional {book' : MinuteBook K} (h : Shows t reports book)
    (hspec : PutSpec book bar provisionalKind book') (hroom : newerThan t book'.slots < minuteCap) :
    Shows t reports book' := by
  intro e he
  rw [← h e he]
  constructor
  · intro hmem
    rcases hspec.only t e hmem with ⟨-, rfl | ⟨hin, -⟩⟩ | ⟨-, hin⟩
    · exact absurd rfl he
    · exact hin
    · exact hin
  · intro hin
    refine hspec.kept t e hroom ?_
    by_cases ht : t = bar.t
    · exact Or.inl ⟨ht, Or.inr ⟨hin, he, fun hk => he hk.2⟩⟩
    · exact Or.inr ⟨ht, hin⟩

omit [DecidableEq K] in
/-- A source report is held, in place of nothing else. -/
theorem Shows.report {book' : MinuteBook K} (h : Shows t reports book) (hall : Sources t all)
    (hin : ∀ r ∈ bar :: reports, r ∈ all) (hspec : PutSpec book bar bar.src book')
    (hroom : newerThan t book'.slots < minuteCap) : Shows t (bar :: reports) book' := by
  have hbar := hin bar (List.mem_cons_self ..)
  intro e he
  constructor
  · intro hmem
    rcases hspec.only t e hmem with ⟨ht, rfl | ⟨hold, -⟩⟩ | ⟨-, hold⟩
    · exact ⟨List.mem_cons_self .., ht.symm, rfl⟩
    · exact ((h e he).mp hold).imp_left (List.mem_cons_of_mem _)
    · exact ((h e he).mp hold).imp_left (List.mem_cons_of_mem _)
  · rintro ⟨hr, ht, hs⟩
    refine hspec.kept t e hroom ?_
    by_cases hbt : t = bar.t
    · refine Or.inl ⟨hbt, ?_⟩
      by_cases hkind : e.1 = bar.src
      · -- the minute has one report of this source
        have heq : e.2 = bar :=
          hall.unique e.2 (hin e.2 hr) bar hbar ht hbt.symm (hs.symm.trans hkind)
        exact Or.inl (Prod.ext hkind heq)
      · have hne : e.2 ≠ bar := fun heq => hkind (hs.trans (congrArg Candle.src heq))
        have hold : e.2 ∈ reports := (List.mem_cons.mp hr).resolve_left hne
        exact Or.inr ⟨(h e he).mpr ⟨hold, ht, hs⟩, hkind, fun hk => he hk.2⟩
    · have hne : e.2 ≠ bar := fun heq => hbt (by rw [← heq]; exact ht.symm)
      have hold : e.2 ∈ reports := (List.mem_cons.mp hr).resolve_left hne
      exact Or.inr ⟨hbt, (h e he).mpr ⟨hold, ht, hs⟩⟩

/-- **What a source report leaves.** -/
theorem Shows.putBar (hok : BookOk book) (h : Shows t reports book) (hall : Sources t all)
    (hin : ∀ r ∈ bar :: reports, r ∈ all) (hroom : RoomAfter t book bar) :
    ∃ book', book.putBar bar = some book' ∧ BookOk book' ∧ book'.forming = book.forming ∧
      (∀ x, x ≠ bar.t → book'.sealed x = true → book.sealed x = true) ∧
      Shows t (bar :: reports) book' := by
  obtain ⟨book', hput, hspec⟩ := put_total hok bar bar.src
  have hroom' := hroom book' hput
  refine ⟨book', hput, ?_⟩
  rcases hspec with hspec | ⟨hkind, rfl⟩
  · refine ⟨hspec.ok, hspec.forming, fun x hx hs => ?_, h.report hall hin hspec hroom'⟩
    obtain ⟨e, he, hse⟩ := MinuteBook.sealed_iff.mp hs
    rcases hspec.only x e he with ⟨hxt, -⟩ | ⟨-, hold⟩
    · exact absurd hxt hx
    · exact MinuteBook.sealed_iff.mpr ⟨e, hold, hse⟩
  · -- ignored: then it is no report of this minute
    refine ⟨hok, rfl, fun _ _ hs => hs, h.congr fun r hr => ?_⟩
    rw [List.mem_cons]
    refine ⟨fun hm => hm.resolve_left ?_, Or.inr⟩
    rintro rfl
    have hsrc := hall.source r (hin r (List.mem_cons_self ..)) hr
    rw [hkind] at hsrc
    exact absurd hsrc (by decide)

/-- Holding the last forming bar of another minute provisionally. -/
theorem Shows.provisionalBar (hok : BookOk book) (h : Shows t reports book) (f : Candle K)
    (hroom : ∀ book' ∈ book.provisional f, newerThan t book'.slots < minuteCap) :
    ∃ book', book.provisional f = some book' ∧ BookOk book' ∧ book'.forming = book.forming ∧
      (∀ x, book'.sealed x = true → book.sealed x = true) ∧ Shows t reports book' := by
  obtain ⟨book', hput, hspec⟩ := put_total hok { f with src := "stream" } provisionalKind
  have hroom' := hroom book' hput
  refine ⟨book', hput, ?_⟩
  rcases hspec with hspec | ⟨-, rfl⟩
  · refine ⟨hspec.ok, hspec.forming, fun x hs => ?_, h.provisional hspec hroom'⟩
    obtain ⟨e, he, hse⟩ := MinuteBook.sealed_iff.mp hs
    rcases hspec.only x e he with ⟨-, rfl | ⟨hold, -⟩⟩ | ⟨-, hold⟩
    · exact absurd hse (by rw [MinuteBook.isSealed_provisional]; decide)
    · exact MinuteBook.sealed_iff.mpr ⟨e, hold, hse⟩
    · exact MinuteBook.sealed_iff.mpr ⟨e, hold, hse⟩
  · exact ⟨hok, rfl, fun _ hs => hs, h⟩

/-! ## One call -/

omit [DecidableEq K] in
theorem BookOk.withForming (h : BookOk book) (f : Option (Candle K)) :
    BookOk { book with forming := f } := ⟨h.slot, h.few, h.cache⟩

/-- A frame's cumulative bar. -/
theorem Delivered.applyForming (h : Delivered t reports book)
    (hroom : RoomDuring t book (.applyForming bar)) :
    ∃ book', book.applyForming bar = some book' ∧ Delivered t reports book' := by
  unfold RoomDuring at hroom
  unfold MinuteBook.applyForming at hroom ⊢
  dsimp only at hroom ⊢
  split at hroom
  · next hstale => rw [if_pos hstale]; exact ⟨book, rfl, h⟩
  · next hstale =>
    rw [if_neg hstale]
    split at hroom
    · next hs => rw [if_pos hs]; exact ⟨book, rfl, h⟩
    · next hs =>
      rw [if_neg hs]
      have hok := h.ok.withForming (some bar)
      have hholds : Shows t reports { book with forming := some bar } := h.holds
      have hopen : book.sealed bar.t = false := by rwa [Bool.not_eq_true] at hs
      cases hcur : book.forming with
      | none =>
        refine ⟨_, rfl, hok, hholds, fun f hf => ?_⟩
        cases hf
        exact hopen
      | some cur =>
        rw [hcur] at hroom
        dsimp only at hroom ⊢
        split
        · next hlt =>
          rw [if_pos hlt] at hroom
          obtain ⟨book', hput, hok', hf', hsealed, hholds'⟩ := hholds.provisionalBar hok cur hroom
          refine ⟨book', hput, hok', hholds', fun f hf => ?_⟩
          rw [hf'] at hf
          cases hf
          by_contra hs'
          have hb := hsealed bar.t (by simpa using hs')
          rw [show ({ book with forming := some bar } : MinuteBook K).sealed bar.t
            = book.sealed bar.t from rfl, hopen] at hb
          cases hb
        · refine ⟨_, rfl, hok, hholds, fun f hf => ?_⟩
          cases hf
          exact hopen

/-- A seal. -/
theorem Delivered.sealMinute (h : Delivered t reports book) (hall : Sources t all)
    (hin : ∀ r ∈ bar :: reports, r ∈ all) (hroom : RoomDuring t book (.sealMinute bar)) :
    ∃ book', book.sealMinute bar = some book' ∧ Delivered t (bar :: reports) book' := by
  obtain ⟨hroom₁, hroom₂⟩ := hroom
  obtain ⟨book₁, hput, hok₁, hf₁, hsealed₁, hholds₁⟩ := h.holds.putBar h.ok hall hin hroom₁
  unfold MinuteBook.sealMinute at hroom₂ ⊢
  rw [hput, Option.bind_some] at hroom₂ ⊢
  cases hf : book₁.forming with
  | none => exact ⟨book₁, rfl, hok₁, hholds₁, fun f hf' => by rw [hf] at hf'; cases hf'⟩
  | some f =>
    rw [hf] at hroom₂
    dsimp only at hroom₂ ⊢
    split
    · next hle =>
      rw [if_pos hle] at hroom₂
      split
      · next hlt =>
        rw [if_pos hlt] at hroom₂
        have hroom' : ∀ b ∈ book₁.provisional f, newerThan t b.slots < minuteCap := fun b hb =>
          hroom₂ { b with forming := none } (Option.mem_map_of_mem _ hb)
        obtain ⟨book₂, hprov, hok₂, -, -, hholds₂⟩ := hholds₁.provisionalBar hok₁ f hroom'
        rw [hprov]
        exact ⟨_, rfl, hok₂.withForming none, hholds₂, fun _ hf' => by cases hf'⟩
      · exact ⟨_, rfl, hok₁.withForming none, hholds₁, fun _ hf' => by cases hf'⟩
    · next hnle =>
      refine ⟨book₁, rfl, hok₁, hholds₁, fun g hg => ?_⟩
      rw [hf] at hg
      cases hg
      by_contra hs
      have hold := hsealed₁ f.t (by omega) (by simpa using hs)
      rw [h.forming f (hf₁ ▸ hf)] at hold
      cases hold

/-- The reports of a merge, one after the other. -/
theorem Shows.putBars (hall : Sources t all) {bars : List (Candle K)} (hok : BookOk book)
    (h : Shows t reports book) (hin : ∀ r ∈ bars ++ reports, r ∈ all)
    (hroom : Lts.Meets MinuteBook.putBar (RoomAfter t) book bars) :
    ∃ book', bars.foldlM MinuteBook.putBar book = some book' ∧ BookOk book' ∧
      Shows t (bars ++ reports) book' := by
  induction bars generalizing book reports with
  | nil => exact ⟨book, rfl, hok, h⟩
  | cons bar bars ih =>
    have hin₁ : ∀ r ∈ bar :: reports, r ∈ all := by
      intro r hr
      refine hin r ?_
      rcases List.mem_cons.mp hr with rfl | hr
      · exact List.mem_cons_self ..
      · exact List.mem_append_right _ hr
    obtain ⟨book₁, hput, hok₁, -, -, hholds₁⟩ := h.putBar hok hall hin₁ hroom.1
    have hin₂ : ∀ r ∈ bars ++ bar :: reports, r ∈ all := by
      intro r hr
      refine hin r ?_
      simp only [List.mem_append, List.mem_cons, List.cons_append] at hr ⊢
      tauto
    obtain ⟨book₂, hputs, hok₂, hholds₂⟩ := ih hok₁ hholds₁ hin₂ (hroom.2 book₁ hput)
    refine ⟨book₂, ?_, hok₂, hholds₂.congr fun r _ => ?_⟩
    · rw [List.foldlM_cons, hput]
      exact hputs
    · simp only [List.mem_append, List.mem_cons, List.cons_append]
      tauto

/-- A snapshot or a page of history. -/
theorem Delivered.mergeMinutes {pair : PairMinutes K} (h : Delivered t reports pair.book)
    (hall : Sources t all) {bars : List (Candle K)} (hin : ∀ r ∈ bars ++ reports, r ∈ all)
    (source : MergeFrom) (hroom : RoomDuring t pair.book (.mergeMinutes bars source)) :
    ∃ pair', pair.mergeMinutes bars source = some pair' ∧
      Delivered t (bars ++ reports) pair'.book := by
  have hsorted : pair.book.newest.2.slots = pair.book.slots := by
    unfold MinuteBook.newest MinuteBook.sorted
    split <;> rfl
  have hholds₀ : Shows t reports pair.book.newest.2 := by
    intro e he
    unfold MinuteBook.heldAt
    rw [hsorted]
    exact h.holds e he
  have hok₀ : BookOk pair.book.newest.2 := h.ok.sorted_snd
  obtain ⟨book₁, hputs, hok₁, hholds₁⟩ := hholds₀.putBars hall hok₀ hin hroom
  obtain ⟨book₂, hmerge, hok₂, hholds₂⟩ : ∃ book₂, pair.book.newest.2.mergeBars bars = some book₂ ∧
      BookOk book₂ ∧ Shows t (bars ++ reports) book₂ := by
    unfold MinuteBook.mergeBars
    rw [hputs, Option.bind_some]
    cases bars with
    | nil => exact ⟨book₁, rfl, hok₁, hholds₁⟩
    | cons first rest =>
      obtain ⟨book₂, hdrop, hok₂, -, hmem⟩ := dropUnsealed_spec hok₁
        (MinuteBook.spanOf first rest).1 (MinuteBook.spanOf first rest).2
        ((first :: rest).map Candle.t)
      refine ⟨book₂, hdrop, hok₂, fun e he => ?_⟩
      rw [hmem, ← hholds₁ e he]
      exact ⟨And.left, fun hin => ⟨hin, fun hd => he hd.2.2.2⟩⟩
  unfold PairMinutes.mergeMinutes
  dsimp only
  rw [hmerge]
  refine ⟨_, rfl, ?_⟩
  show Delivered t _ book₂.dropForming
  unfold MinuteBook.dropForming
  split
  · exact ⟨hok₂.withForming none, hholds₂, fun _ hf => by cases hf⟩
  · next hany =>
    refine ⟨hok₂, hholds₂, fun f hf => ?_⟩
    rw [hf, Option.any_some, Bool.not_eq_true] at hany
    exact hany

/-- **What one call leaves.** -/
theorem Delivered.apply {pair : PairMinutes K} (h : Delivered t reports pair.book)
    (hall : Sources t all) {op : MinuteOp K} (hin : ∀ r ∈ op.reports ++ reports, r ∈ all)
    (hroom : RoomDuring t pair.book op) :
    ∃ pair', MinuteOp.apply pair op = some pair' ∧
      Delivered t (op.reports ++ reports) pair'.book := by
  cases op with
  | applyForming bar =>
    obtain ⟨book', happ, hd⟩ := h.applyForming hroom
    exact ⟨{ pair with book := book' }, by rw [MinuteOp.apply, happ]; rfl, hd⟩
  | sealMinute bar =>
    obtain ⟨book', happ, hd⟩ := h.sealMinute hall hin hroom
    exact ⟨{ pair with book := book' }, by rw [MinuteOp.apply, happ]; rfl, hd⟩
  | mergeMinutes bars source => exact h.mergeMinutes hall hin source hroom

/-! ## A run -/

omit [LT K] [DecidableLT K] [DecidableEq K] in
theorem mem_reportsIn_cons {op : MinuteOp K} {ops : List (MinuteOp K)} {r : Candle K} :
    r ∈ reportsIn (op :: ops) ↔ r ∈ op.reports ∨ r ∈ reportsIn ops := by
  simp [reportsIn]

/-- **What a run leaves.** -/
theorem Delivered.run {pair : PairMinutes K} (h : Delivered t reports pair.book)
    (hall : Sources t all) {ops : List (MinuteOp K)}
    (hin : ∀ r ∈ reportsIn ops ++ reports, r ∈ all)
    (hroom : Lts.Meets MinuteOp.apply (fun pair op => RoomDuring t pair.book op) pair ops) :
    ∃ pair', Lts.exec MinuteOp.apply pair ops = some pair' ∧
      Delivered t (reportsIn ops ++ reports) pair'.book := by
  induction ops generalizing pair reports with
  | nil => exact ⟨pair, rfl, h⟩
  | cons op ops ih =>
    have hin₁ : ∀ r ∈ op.reports ++ reports, r ∈ all := by
      intro r hr
      refine hin r ?_
      simp only [List.mem_append, mem_reportsIn_cons] at hr ⊢
      tauto
    obtain ⟨pair₁, happ, h₁⟩ := h.apply hall hin₁ hroom.1
    have hin₂ : ∀ r ∈ reportsIn ops ++ (op.reports ++ reports), r ∈ all := by
      intro r hr
      refine hin r ?_
      simp only [List.mem_append, mem_reportsIn_cons] at hr ⊢
      tauto
    obtain ⟨pair₂, hexec, h₂⟩ := ih h₁ hin₂ (hroom.2 pair₁ happ)
    refine ⟨pair₂, by rw [Lts.exec, happ]; exact hexec, h₂.ok, h₂.holds.congr fun r _ => ?_,
      h₂.forming⟩
    simp only [List.mem_append, mem_reportsIn_cons]
    tauto

omit [LT K] [DecidableLT K] [DecidableEq K] in
/-- Of one minute, sources of one rank are one source. -/
theorem Sources.eq_of_rank (hall : Sources t all) {a b : Candle K} (ha : a ∈ all) (hb : b ∈ all)
    (hat : a.t = t) (hbt : b.t = t) (h : rank a.src = rank b.src) : a = b := by
  refine hall.unique a ha b hb hat hbt ?_
  rcases hall.source a ha hat with hs | hs | hs <;> rcases hall.source b hb hbt with hs' | hs' | hs' <;>
    rw [hs, hs'] at h ⊢ <;> revert h <;> decide

omit [DecidableEq K] in
/-- **A sealed minute shows the join of its reports**, whatever order they came in. -/
theorem Delivered.shown (h : Delivered t all book) (hall : Sources t all)
    (hsealed : ∃ r ∈ all, r.t = t ∧ isSealed r.src = true) {parts : List (Candle K)}
    (hnd : parts.Nodup) (hparts : ∀ r, r ∈ parts ↔ r ∈ all ∧ r.t = t) :
    ∃ m, join parts = some m ∧ book.sorted.1.filter (fun m => m.t = t) = [m] := by
  obtain ⟨r, hr, hrt, hrs⟩ := hsealed
  have hkind : ∀ p ∈ all, p.t = t → p.src ≠ provisionalKind := by
    intro p hp hpt
    rcases hall.source p hp hpt with hs | hs | hs <;> rw [hs] <;> decide
  have hheld : (r.src, r) ∈ book.heldAt t :=
    (h.holds (r.src, r) (hkind r hr hrt)).mpr ⟨hr, hrt, rfl⟩
  cases hget : book.slots.get? t with
  | none => rw [h.ok.heldAt_eq_nil_iff.mpr hget] at hheld; cases hheld
  | some slot =>
    have hslot := h.ok.slot t slot hget
    rw [MinuteBook.heldAt_of_get? hget] at hheld
    -- beside the sealed report there is no provisional one
    have hno : ∀ e ∈ slot.held, e.1 ≠ provisionalKind := by
      intro e he hp
      have := hslot.unsealed e he hp _ hheld
      rw [hrs] at this
      cases this
    have hmem : ∀ e, e ∈ slot.held → e.2 ∈ all ∧ e.2.t = t ∧ e.1 = e.2.src := by
      intro e he
      refine (h.holds e (hno e he)).mp ?_
      rw [MinuteBook.heldAt_of_get? hget]
      exact he
    have hnd' : (slot.held.map Prod.snd).Nodup := by
      have hfst : slot.held.map Prod.fst = (slot.held.map Prod.snd).map Candle.src := by
        rw [List.map_map]
        exact List.map_congr_left fun e he => (hmem e he).2.2
      exact List.Nodup.of_map Candle.src (hfst ▸ hslot.nodup)
    have hperm : (slot.held.map Prod.snd).Perm parts := by
      refine (List.perm_ext_iff_of_nodup hnd' hnd).mpr fun p => ?_
      rw [hparts, List.mem_map]
      constructor
      · rintro ⟨e, he, rfl⟩
        exact ⟨(hmem e he).1, (hmem e he).2.1⟩
      · rintro ⟨hp, hpt⟩
        have hin := (h.holds (p.src, p) (hkind p hp hpt)).mpr ⟨hp, hpt, rfl⟩
        rw [MinuteBook.heldAt_of_get? hget] at hin
        exact ⟨_, hin, rfl⟩
    refine ⟨slot.merged, ?_, by rw [h.ok.filter_sorted, hget]; rfl⟩
    rw [← hslot.merged]
    refine (join_perm hperm fun a ha b hb hab => ?_).symm
    obtain ⟨ha, hat⟩ := (hparts a).mp (hperm.subset ha)
    obtain ⟨hb, hbt⟩ := (hparts b).mp (hperm.subset hb)
    exact hall.eq_of_rank ha hb hat hbt hab

/--
**The minute shown is independent of delivery.**

From a fresh store, any calls: forming bars of any kind, seals, snapshots and pages of history.
Minute `t` has at most one value per source among history, mixed and stream, at least one of them
from our stream, and fewer than 2,880 newer minutes are held throughout. Then no call raises, the
store shows one bar for the minute, the join of the source reports delivered, and the forming bar
is of another minute.
-/
theorem minute_independent_of_delivery (t : Int) (ops : List (MinuteOp K))
    (hsources : Sources t (reportsIn ops))
    (hsealed : ∃ r ∈ reportsIn ops, r.t = t ∧ isSealed r.src = true)
    (hroom : Lts.Meets MinuteOp.apply (fun pair op => RoomDuring t pair.book op) {} ops) :
    ∃ pair : PairMinutes K, Lts.exec MinuteOp.apply {} ops = some pair ∧
      (∀ f, pair.book.forming = some f → f.t ≠ t) ∧
      ∀ parts : List (Candle K), parts.Nodup → (∀ r, r ∈ parts ↔ r ∈ reportsIn ops ∧ r.t = t) →
        ∃ m, join parts = some m ∧ pair.book.sorted.1.filter (fun m => m.t = t) = [m] := by
  have hfresh : Delivered t ([] : List (Candle K)) ({} : PairMinutes K).book :=
    ⟨bookOk_fresh, fun e _ => by simp [MinuteBook.heldAt], fun f hf => by cases hf⟩
  obtain ⟨pair, hexec, h⟩ := hfresh.run hsources (fun r hr => by simpa using hr) hroom
  rw [List.append_nil] at h
  refine ⟨pair, hexec, fun f hf hft => ?_, fun parts hnd hparts => h.shown hsources hsealed hnd hparts⟩
  obtain ⟨r, hr, hrt, hrs⟩ := hsealed
  have hkind : r.src ≠ provisionalKind := fun hk => by rw [hk] at hrs; cases hrs
  have hs : pair.book.sealed t = true :=
    MinuteBook.sealed_iff.mpr ⟨(r.src, r), (h.holds (r.src, r) hkind).mpr ⟨hr, hrt, rfl⟩, hrs⟩
  rw [← hft, h.forming f hf] at hs
  cases hs

/-- History, a forming bar, the seal, and the forming bar again, stale. -/
def sampleOps : List (MinuteOp Int) :=
  [.applyForming ⟨0, 4, 9, 2, 4, 3, "stream"⟩, .mergeMinutes [⟨0, 2, 5, 1, 3, 0, "backfill"⟩] .history,
    .applyForming ⟨60, 4, 4, 4, 4, 1, "stream"⟩, .sealMinute ⟨0, 4, 6, 2, 4, 7, "stream"⟩,
    .applyForming ⟨0, 4, 9, 2, 4, 3, "stream"⟩]

theorem minute_independent_of_delivery_sampleOps :
    ∃ pair : PairMinutes Int, Lts.exec MinuteOp.apply {} sampleOps = some pair ∧
      ∃ m, join [⟨0, 2, 5, 1, 3, 0, "backfill"⟩, ⟨0, 4, 6, 2, 4, 7, "stream"⟩] = some m ∧
        pair.book.sorted.1.filter (fun m => m.t = 0) = [m] := by
  have hsources : Sources 0 (reportsIn sampleOps) := ⟨by decide, by decide⟩
  obtain ⟨pair, hexec, -, hshown⟩ := minute_independent_of_delivery 0 sampleOps hsources
    (by decide) (by decide +kernel)
  refine ⟨pair, hexec, hshown _ (by decide) fun r => ?_⟩
  simp only [sampleOps, reportsIn, List.flatMap_cons, List.flatMap_nil, MinuteOp.reports,
    List.nil_append, List.cons_append, List.mem_cons, List.not_mem_nil, or_false]
  constructor
  · rintro (rfl | rfl) <;> simp
  · exact And.left

end FxTracker.Web
