import FxTracker.Web.Delivery

/-!
# What an authoritative merge leaves out

A snapshot or a page of history returns every sealed minute of its span, so a minute inside it that
it lacks was never sealed, and `dropUnsealed` takes a provisional report of it away. The drop looks
at the slots; the forming bar is held beside them, and the next minute promotes it.

* `Bounded.apply` — what a call can hold and form, from what it is given
* `merge_final_iff` — the merge is final exactly when it does not cover a forming bar it lacks
-/

namespace FxTracker.Web

variable {K : Type} [DecidableEq K] [LT K] [DecidableLT K]

/-! ## Bounds on what is held -/

/-- Every report held of a minute meets `P`, and the forming bar meets `F`. -/
structure Bounded (P : Int → String × Candle K → Prop) (F : Candle K → Prop)
    (book : MinuteBook K) : Prop where
  ok : BookOk book
  held : ∀ t e, e ∈ book.heldAt t → P t e
  forming : ∀ f, book.forming = some f → F f

/-- The bars of a call meet them. -/
def OpBounded (P : Int → String × Candle K → Prop) (F : Candle K → Prop) : MinuteOp K → Prop
  | .applyForming bar => F bar
  | .sealMinute bar => P bar.t (bar.src, bar)
  | .mergeMinutes bars _ => ∀ bar ∈ bars, P bar.t (bar.src, bar)

variable {P : Int → String × Candle K → Prop} {F : Candle K → Prop} {book : MinuteBook K}

omit [DecidableEq K] in
theorem Bounded.withForming (h : Bounded P F book) {f : Option (Candle K)}
    (hf : ∀ g, f = some g → F g) : Bounded P F { book with forming := f } :=
  ⟨h.ok.withForming f, h.held, hf⟩

theorem Bounded.put (h : Bounded P F book) {bar : Candle K} {kind : String}
    (hbar : P bar.t (kind, bar)) :
    ∃ book', (book.put bar kind).map Prod.fst = some book' ∧ book'.forming = book.forming ∧
      Bounded P F book' := by
  obtain ⟨book', hput, hspec | ⟨-, rfl⟩⟩ := put_total h.ok bar kind
  · refine ⟨book', hput, hspec.forming, hspec.ok, fun t e he => ?_, fun f hf => ?_⟩
    · rcases hspec.only t e he with ⟨rfl, rfl | ⟨hold, -⟩⟩ | ⟨-, hold⟩
      · exact hbar
      · exact h.held _ e hold
      · exact h.held t e hold
    · exact h.forming f (hspec.forming ▸ hf)
  · exact ⟨_, hput, rfl, h⟩

theorem Bounded.provisional (h : Bounded P F book) {f : Candle K}
    (hf : P f.t (provisionalKind, { f with src := "stream" })) :
    ∃ book', book.provisional f = some book' ∧ Bounded P F book' := by
  have hbar : P ({ f with src := "stream" } : Candle K).t
      (provisionalKind, { f with src := "stream" }) := hf
  obtain ⟨book', hput, -, h'⟩ := h.put hbar
  exact ⟨book', hput, h'⟩

theorem Bounded.puts (h : Bounded P F book) {bars : List (Candle K)}
    (hbars : ∀ bar ∈ bars, P bar.t (bar.src, bar)) :
    ∃ book', bars.foldlM MinuteBook.putBar book = some book' ∧ book'.forming = book.forming ∧
      Bounded P F book' := by
  induction bars generalizing book with
  | nil => exact ⟨book, rfl, rfl, h⟩
  | cons bar bars ih =>
    obtain ⟨book₁, hput, hf₁, h₁⟩ := h.put (hbars bar (List.mem_cons_self ..))
    obtain ⟨book₂, hputs, hf₂, h₂⟩ := ih h₁ fun b hb => hbars b (List.mem_cons_of_mem _ hb)
    refine ⟨book₂, ?_, hf₂.trans hf₁, h₂⟩
    rw [List.foldlM_cons, MinuteBook.putBar, hput]
    exact hputs

/-- A merge, up to the forming bar: what it drops is a part of what its puts left. -/
theorem Bounded.mergeBars (h : Bounded P F book) {bars : List (Candle K)}
    (hbars : ∀ bar ∈ bars, P bar.t (bar.src, bar)) :
    ∃ book', book.mergeBars bars = some book' ∧ book'.forming = book.forming ∧ Bounded P F book' ∧
      ∀ first rest, bars = first :: rest → ∀ t e, e ∈ book'.heldAt t →
        ¬ DroppedFrom (MinuteBook.spanOf first rest).1 (MinuteBook.spanOf first rest).2
          (bars.map Candle.t) t e := by
  obtain ⟨book₁, hputs, hf₁, h₁⟩ := h.puts hbars
  unfold MinuteBook.mergeBars
  rw [hputs, Option.bind_some]
  cases bars with
  | nil => exact ⟨book₁, rfl, hf₁, h₁, fun _ _ h => by cases h⟩
  | cons first rest =>
    obtain ⟨book₂, hdrop, hok₂, hf₂, hmem⟩ := dropUnsealed_spec h₁.ok
      (MinuteBook.spanOf first rest).1 (MinuteBook.spanOf first rest).2
      ((first :: rest).map Candle.t)
    refine ⟨book₂, hdrop, hf₂.trans hf₁, ⟨hok₂, ?_, ?_⟩, ?_⟩
    · exact fun t e he => h₁.held t e ((hmem t e).mp he).1
    · exact fun f hf => h₁.forming f (hf₂ ▸ hf)
    · intro first' rest' hbars t e he
      cases hbars
      exact ((hmem t e).mp he).2

/-- What `mergeMinutes` makes of the book. -/
theorem mergeMinutes_book (pair : PairMinutes K) (bars : List (Candle K)) (source : MergeFrom) :
    (pair.mergeMinutes bars source).map PairMinutes.book
      = (pair.book.newest.2.mergeBars bars).map MinuteBook.dropForming := by
  unfold PairMinutes.mergeMinutes
  rw [Option.map_map]
  rfl

omit [DecidableEq K] [LT K] [DecidableLT K] in
theorem heldAt_newest (book : MinuteBook K) (t : Int) :
    book.newest.2.heldAt t = book.heldAt t ∧ book.newest.2.forming = book.forming := by
  unfold MinuteBook.newest MinuteBook.sorted MinuteBook.heldAt
  split <;> exact ⟨rfl, rfl⟩

omit [DecidableEq K] in
theorem Bounded.newest (h : Bounded P F book) : Bounded P F book.newest.2 where
  ok := h.ok.sorted_snd
  held := fun t e he => h.held t e ((heldAt_newest book t).1 ▸ he)
  forming := fun f hf => h.forming f ((heldAt_newest book 0).2 ▸ hf)

omit [DecidableEq K] in
theorem Bounded.dropForming (h : Bounded P F book) : Bounded P F book.dropForming := by
  unfold MinuteBook.dropForming
  split
  · exact h.withForming fun _ hg => by cases hg
  · exact h

/-- **What a call can hold and form**, from what it is given. -/
theorem Bounded.apply {pair : PairMinutes K} (h : Bounded P F pair.book)
    (hprov : ∀ f, F f → P f.t (provisionalKind, { f with src := "stream" })) {op : MinuteOp K}
    (hop : OpBounded P F op) :
    ∃ pair', MinuteOp.apply pair op = some pair' ∧ Bounded P F pair'.book := by
  cases op with
  | applyForming bar =>
    have hbook : ∃ book', pair.book.applyForming bar = some book' ∧ Bounded P F book' := by
      unfold MinuteBook.applyForming
      dsimp only
      split
      · exact ⟨_, rfl, h⟩
      · split
        · exact ⟨_, rfl, h⟩
        · have h₁ : Bounded P F { pair.book with forming := some bar } :=
            h.withForming fun g hg => by cases hg; exact hop
          cases hcur : pair.book.forming with
          | none => exact ⟨_, rfl, h₁⟩
          | some cur =>
            dsimp only
            split
            · exact h₁.provisional (hprov cur (h.forming cur hcur))
            · exact ⟨_, rfl, h₁⟩
    obtain ⟨book', happ, h'⟩ := hbook
    exact ⟨{ pair with book := book' }, by rw [MinuteOp.apply, happ]; rfl, h'⟩
  | sealMinute bar =>
    have hbook : ∃ book', pair.book.sealMinute bar = some book' ∧ Bounded P F book' := by
      obtain ⟨book₁, hput, -, h₁⟩ := h.put hop
      unfold MinuteBook.sealMinute MinuteBook.putBar
      rw [hput, Option.bind_some]
      cases hf : book₁.forming with
      | none => exact ⟨book₁, rfl, h₁⟩
      | some f =>
        dsimp only
        have hnone : ∀ g : Candle K, (none : Option (Candle K)) = some g → F g := fun _ hg => by cases hg
        split
        · split
          · obtain ⟨book₂, hput₂, h₂⟩ := h₁.provisional (hprov f (h₁.forming f hf))
            rw [hput₂]
            exact ⟨_, rfl, h₂.withForming hnone⟩
          · exact ⟨_, rfl, h₁.withForming hnone⟩
        · exact ⟨book₁, rfl, h₁⟩
    obtain ⟨book', happ, h'⟩ := hbook
    exact ⟨{ pair with book := book' }, by rw [MinuteOp.apply, happ]; rfl, h'⟩
  | mergeMinutes bars source =>
    obtain ⟨book₁, hmerge, -, h₁, -⟩ := h.newest.mergeBars hop
    have hbook := mergeMinutes_book pair bars source
    rw [hmerge, Option.map_some, Option.map_eq_some_iff] at hbook
    obtain ⟨pair', hpair, heq⟩ := hbook
    exact ⟨pair', hpair, heq ▸ h₁.dropForming⟩

/-- **Along a run.** -/
theorem Bounded.run {pair : PairMinutes K} (h : Bounded P F pair.book)
    (hprov : ∀ f, F f → P f.t (provisionalKind, { f with src := "stream" }))
    {ops : List (MinuteOp K)} (hops : ∀ op ∈ ops, OpBounded P F op) :
    ∃ pair', Lts.exec MinuteOp.apply pair ops = some pair' ∧ Bounded P F pair'.book := by
  induction ops generalizing pair with
  | nil => exact ⟨pair, rfl, h⟩
  | cons op ops ih =>
    obtain ⟨pair₁, happ, h₁⟩ := h.apply hprov (hops op (List.mem_cons_self ..))
    obtain ⟨pair₂, hexec, h₂⟩ := ih h₁ fun o ho => hops o (List.mem_cons_of_mem _ ho)
    exact ⟨pair₂, by rw [Lts.exec, happ]; exact hexec, h₂⟩

/-! ## After the merge -/

/-- A forming bar or a seal of a minute past the span. -/
def LaterThan (hi : Int) : MinuteOp K → Prop
  | .applyForming bar | .sealMinute bar => hi < bar.t
  | .mergeMinutes .. => False

/-- From here on no minute of the span that is not known is ever shown. -/
def NeverShown (pair : PairMinutes K) (span : Int × Int) (known : Int → Prop) : Prop :=
  ∀ later pair', (∀ op ∈ later, LaterThan span.2 op) →
    Lts.exec MinuteOp.apply pair later = some pair' →
    ∀ t, span.1 ≤ t → t ≤ span.2 → ¬ known t → pair'.book.sorted.1.filter (fun m => m.t = t) = []

theorem exists_later (l : List Int) (b : Int) : ∃ t, b < t ∧ ∀ x ∈ l, x < t := by
  induction l with
  | nil => exact ⟨b + 1, by omega, fun _ h => by cases h⟩
  | cons x l ih =>
    obtain ⟨t, hb, hl⟩ := ih
    refine ⟨max t (x + 1), by omega, fun y hy => ?_⟩
    rcases List.mem_cons.mp hy with rfl | hy
    · omega
    · have := hl y hy
      omega

omit [DecidableEq K] [LT K] [DecidableLT K] in
theorem get?_changed_of_small {book : MinuteBook K}
    (h : book.slots.size ≤ minuteCap + trimSlack) : book.changed.slots = book.slots := by
  rw [MinuteBook.slots_changed, if_pos h]

/-- Promoting the forming bar of a minute not held shows the minute, where there is room. -/
theorem get?_provisional (book : MinuteBook K) {f : Candle K} (hnone : book.slots.get? f.t = none)
    (hsize : book.slots.size < minuteCap + trimSlack) :
    ∃ book' slot, book.provisional f = some book' ∧ book'.slots.get? f.t = some slot := by
  have hput := put_of_none book { f with src := "stream" } hnone provisionalKind
  refine ⟨_, ⟨[(provisionalKind, { f with src := "stream" })], { f with src := "stream" }⟩,
    by rw [MinuteBook.provisional, hput]; rfl, ?_⟩
  dsimp only
  rw [get?_changed_of_small]
  · exact Dict.get?_set_self ..
  · show (book.slots.set _ _).size ≤ _
    rw [Dict.size_set]
    split <;> omega

/-- A new minute in a full book trims it. -/
theorem putBar_full (hfull : book.slots.size = minuteCap + trimSlack) (bar : Candle K)
    (hnone : book.slots.get? bar.t = none) :
    ∃ book', book.putBar bar = some book' ∧ book'.slots.size = minuteCap ∧
      book'.forming = book.forming ∧
      ∀ t, t ≠ bar.t → book.slots.get? t = none → book'.slots.get? t = none := by
  have hput := put_of_none book bar hnone bar.src
  refine ⟨({ book with slots := book.slots.set bar.t ⟨[(bar.src, bar)], bar⟩ } : MinuteBook K).changed,
    by rw [MinuteBook.putBar, hput]; rfl, ?_, MinuteBook.forming_changed _, fun t ht hno => ?_⟩
  · have hbig : (book.slots.set bar.t ⟨[(bar.src, bar)], bar⟩).size = minuteCap + trimSlack + 1 := by
      rw [Dict.size_set, Dict.contains, hnone, ← hfull]
      rfl
    rw [MinuteBook.size_changed, if_neg]
    dsimp only
    omega
  · cases hget : (MinuteBook.changed _).slots.get? t with
    | none => rfl
    | some slot =>
      have hold := (MinuteBook.changed_spec _).1 t slot hget
      dsimp only at hold
      rw [Dict.get?_set_ne _ _ ht, hno] at hold
      cases hold

/-- **The bad continuation.** A forming bar of a minute not held is promoted by a later minute. -/
theorem exists_shown {pair : PairMinutes K} (h : BookOk pair.book) {f : Candle K}
    (hf : pair.book.forming = some f) (hnone : pair.book.slots.get? f.t = none) {hi : Int}
    (hhi : f.t ≤ hi) :
    ∃ op pair' slot, LaterThan hi op ∧ MinuteOp.apply pair op = some pair' ∧
      pair'.book.slots.get? f.t = some slot := by
  obtain ⟨t, hlater, hnew⟩ := exists_later pair.book.slots.keys hi
  have hfree : pair.book.slots.get? t = none := by
    rw [Dict.get?_eq_none_iff]
    exact fun hm => absurd (hnew t hm) (lt_irrefl t)
  have hft : f.t < t := by omega
  by_cases hsize : pair.book.slots.size < minuteCap + trimSlack
  · -- there is room for one more minute: the next forming bar promotes it
    obtain ⟨book', slot, hprov, hget⟩ :=
      get?_provisional { pair.book with forming := some { f with t := t } } hnone hsize
    refine ⟨.applyForming { f with t := t }, { pair with book := book' }, slot, hlater, ?_, hget⟩
    have hsealed : pair.book.sealed t = false := by
      unfold MinuteBook.sealed
      rw [hfree]
      rfl
    unfold MinuteOp.apply MinuteBook.applyForming
    rw [hf]
    dsimp only
    rw [if_neg (by simp; omega), hsealed, if_neg (by simp), if_pos hft, hprov]
    rfl
  · -- the book is full: a seal trims it first
    have hfull : pair.book.slots.size = minuteCap + trimSlack := by
      have := h.few
      omega
    obtain ⟨book₁, hput, hsize₁, hforming₁, hstill⟩ :=
      putBar_full hfull { f with t := t } hfree
    obtain ⟨book', slot, hprov, hget⟩ := get?_provisional book₁ (hstill f.t hft.ne hnone) (by
      rw [hsize₁]
      decide)
    refine ⟨.sealMinute { f with t := t }, { pair with book := { book' with forming := none } }, slot,
      hlater, ?_, hget⟩
    unfold MinuteOp.apply MinuteBook.sealMinute
    dsimp only
    rw [hput, Option.bind_some, hforming₁, hf]
    dsimp only
    rw [if_pos hft.le, if_pos hft, hprov]
    rfl

omit [DecidableEq K] in
theorem BookOk.filter_sorted_eq_nil_iff (h : BookOk book) {t : Int} :
    book.sorted.1.filter (fun m => m.t = t) = [] ↔ book.slots.get? t = none := by
  rw [h.filter_sorted]
  cases book.slots.get? t <;> simp

omit [DecidableEq K] [LT K] [DecidableLT K] in
/-- The calls of a run are given reports of known minutes only. -/
theorem opBounded_known {ops : List (MinuteOp K)} {known : Int → Prop}
    (hknown : ∀ r ∈ reportsIn ops, known r.t) {op : MinuteOp K} (hop : op ∈ ops) :
    OpBounded (fun t e => e.1 ≠ provisionalKind → known t) (fun _ => True) op := by
  have hin : ∀ r ∈ op.reports, known r.t := fun r hr =>
    hknown r (List.mem_flatMap.mpr ⟨op, hop, hr⟩)
  cases op with
  | applyForming bar => trivial
  | sealMinute bar => exact fun _ => hin bar (List.mem_singleton_self _)
  | mergeMinutes bars source => exact fun bar hbar _ => hin bar hbar

/-- What an authoritative merge leaves of its span: nothing of a minute that is not known is held, and
the forming bar stays if nothing of its minute is. -/
structure Swept (known : Int → Prop) (span : Int × Int) (book book' : MinuteBook K) : Prop where
  ok : BookOk book'
  empty : ∀ t, span.1 ≤ t → t ≤ span.2 → ¬ known t → book'.slots.get? t = none
  forming : ∀ f, book'.forming = some f → book.forming = some f
  kept : ∀ f, book.forming = some f → book'.slots.get? f.t = none → book'.forming = some f

variable {known : Int → Prop} {span : Int × Int} {book' : MinuteBook K}

omit [DecidableEq K] in
/-- The forming bar is checked after the slots, and only against them. -/
theorem Swept.dropForming (hok : BookOk book') (hforming : book'.forming = book.forming)
    (hempty : ∀ t, span.1 ≤ t → t ≤ span.2 → ¬ known t → book'.slots.get? t = none) :
    Swept known span book book'.dropForming := by
  have hbound : Bounded (fun _ _ => True) (fun _ : Candle K => True) book' :=
    ⟨hok, fun _ _ _ => trivial, fun _ _ => trivial⟩
  have hslots : book'.dropForming.slots = book'.slots := by
    unfold MinuteBook.dropForming
    split <;> rfl
  refine ⟨hbound.dropForming.ok, fun t hlo hhi hno => ?_, fun f hf => ?_, fun f hf hnone => ?_⟩
  · rw [hslots]
    exact hempty t hlo hhi hno
  · unfold MinuteBook.dropForming at hf
    split at hf
    · cases hf
    · exact hforming ▸ hf
  · have hopen : book'.sealed f.t = false := by
      unfold MinuteBook.sealed
      rw [← hslots, hnone]
      rfl
    unfold MinuteBook.dropForming
    rw [hforming, hf, Option.any_some, hopen, if_neg (by simp), hforming, hf]

/-- **After any calls a merge sweeps its span**, of the minutes that neither its bars nor a report
received before are of. -/
theorem exists_swept (ops : List (MinuteOp K)) (first : Candle K) (rest : List (Candle K))
    (source : MergeFrom) :
    ∃ pair, Lts.exec MinuteOp.apply {} ops = some pair ∧
      ∃ pair', pair.mergeMinutes (first :: rest) source = some pair' ∧
        Swept (fun t => t ∈ (first :: rest).map Candle.t ∨ t ∈ (reportsIn ops).map Candle.t)
          (MinuteBook.spanOf first rest) pair.book pair'.book := by
  let known : Int → Prop := fun t =>
    t ∈ (first :: rest).map Candle.t ∨ t ∈ (reportsIn ops).map Candle.t
  have hfresh : Bounded (fun t e => e.1 ≠ provisionalKind → known t) (fun _ : Candle K => True)
      ({} : PairMinutes K).book :=
    ⟨bookOk_fresh, fun t e he => by simp [MinuteBook.heldAt] at he, fun _ _ => trivial⟩
  have hprov : ∀ f : Candle K, True →
      provisionalKind ≠ provisionalKind → known f.t := fun f _ h => absurd rfl h
  obtain ⟨pair, hexec, h⟩ := hfresh.run hprov fun op hop => opBounded_known
    (fun r hr => Or.inr (List.mem_map_of_mem hr)) hop
  have hgiven : ∀ bar ∈ first :: rest, bar.src ≠ provisionalKind → known bar.t :=
    fun bar hbar _ => Or.inl (List.mem_map_of_mem hbar)
  obtain ⟨book₁, hmerge, hf₁, h₁, hdrop⟩ := h.newest.mergeBars hgiven
  have hbook := mergeMinutes_book pair (first :: rest) source
  rw [hmerge, Option.map_some, Option.map_eq_some_iff] at hbook
  obtain ⟨pair', hpair', hbook'⟩ := hbook
  refine ⟨pair, hexec, pair', hpair', hbook' ▸ ?_⟩
  refine Swept.dropForming h₁.ok (hf₁.trans (heldAt_newest pair.book 0).2) fun t hlo hhi hno => ?_
  -- a report held of a minute that is not known is provisional, and those of the span are dropped
  refine h₁.ok.heldAt_eq_nil_iff.mp (List.eq_nil_iff_forall_not_mem.mpr fun e he => ?_)
  have hkind : e.1 = provisionalKind := by
    by_contra hk
    exact hno (h₁.held t e he hk)
  exact hdrop first rest rfl t e he ⟨hlo, hhi, fun hm => hno (Or.inl hm), hkind⟩

/-- A forming bar of a swept minute is shown in the end, so the minute of one is known. -/
theorem Swept.known_of_neverShown {pair : PairMinutes K} (h : Swept known span book pair.book)
    (hnever : NeverShown pair span known) {f : Candle K} (hf : book.forming = some f)
    (hlo : span.1 ≤ f.t) (hhi : f.t ≤ span.2) : known f.t := by
  by_contra hno
  have hnone := h.empty f.t hlo hhi hno
  obtain ⟨op, pair', slot, hlater, happ, hget⟩ := exists_shown h.ok (h.kept f hf hnone) hnone hhi
  have hbound : Bounded (fun _ _ => True) (fun _ : Candle K => True) pair.book :=
    ⟨h.ok, fun _ _ _ => trivial, fun _ _ => trivial⟩
  have hop : OpBounded (fun _ _ => True) (fun _ : Candle K => True) op := by
    cases op <;> simp [OpBounded]
  obtain ⟨pair₂, happ₂, h₂⟩ := hbound.apply (fun _ _ => trivial) hop
  rw [happ] at happ₂
  cases happ₂
  have hnil := hnever [op] pair' (by simpa using hlater) (by rw [Lts.exec, happ]; rfl) f.t hlo hhi hno
  rw [h₂.ok.filter_sorted_eq_nil_iff, hget] at hnil
  cases hnil

omit [DecidableEq K] [LT K] [DecidableLT K] in
/-- Calls of later minutes bring nothing of a minute of the span. -/
theorem opBounded_later {op : MinuteOp K} (h : LaterThan span.2 op) :
    OpBounded (fun t _ => ¬ (span.1 ≤ t ∧ t ≤ span.2 ∧ ¬ known t))
      (fun f : Candle K => ¬ (span.1 ≤ f.t ∧ f.t ≤ span.2 ∧ ¬ known f.t)) op := by
  cases op with
  | applyForming bar =>
    intro hbad
    exact absurd hbad.2.1 (not_le.mpr h)
  | sealMinute bar =>
    intro hbad
    exact absurd hbad.2.1 (not_le.mpr h)
  | mergeMinutes bars source => exact h.elim

/-- Where the forming bar is of a known minute, or of one out of the span, a swept minute stays out. -/
theorem Swept.neverShown {pair : PairMinutes K} (h : Swept known span book pair.book)
    (hforming : ∀ f, book.forming = some f → span.1 ≤ f.t → f.t ≤ span.2 → known f.t) :
    NeverShown pair span known := by
  intro later pair' hlater hrun t hlo hhi hno
  have hbound : Bounded (fun t _ => ¬ (span.1 ≤ t ∧ t ≤ span.2 ∧ ¬ known t))
      (fun f : Candle K => ¬ (span.1 ≤ f.t ∧ f.t ≤ span.2 ∧ ¬ known f.t)) pair.book := by
    refine ⟨h.ok, fun t e he hbad => ?_, fun f hf hbad => ?_⟩
    · unfold MinuteBook.heldAt at he
      rw [h.empty t hbad.1 hbad.2.1 hbad.2.2] at he
      cases he
    · exact hbad.2.2 (hforming f (h.forming f hf) hbad.1 hbad.2.1)
  obtain ⟨pair₂, hrun₂, h₂⟩ :=
    hbound.run (fun f hf => hf) fun op hop => opBounded_later (hlater op hop)
  rw [hrun] at hrun₂
  cases hrun₂
  rw [h₂.ok.filter_sorted_eq_nil_iff, ← h₂.ok.heldAt_eq_nil_iff, List.eq_nil_iff_forall_not_mem]
  exact fun e he => h₂.held t e he ⟨hlo, hhi, hno⟩

/--
**An authoritative merge is final exactly when it does not cover a forming bar it lacks.**

After any calls, bars covering a span are merged. For every later sequence of forming bars and
seals of minutes past the span, the store never shows a minute of the span that the bars lack and
no report was received of, if and only if the forming bar held at the merge is not of such a minute.
-/
theorem merge_final_iff (ops : List (MinuteOp K)) (first : Candle K) (rest : List (Candle K))
    (source : MergeFrom) :
    ∃ pair, Lts.exec MinuteOp.apply {} ops = some pair ∧
      ∃ pair', pair.mergeMinutes (first :: rest) source = some pair' ∧
        (NeverShown pair' (MinuteBook.spanOf first rest) (fun t =>
            t ∈ (first :: rest).map Candle.t ∨ t ∈ (reportsIn ops).map Candle.t) ↔
          ∀ f, pair.book.forming = some f → (MinuteBook.spanOf first rest).1 ≤ f.t →
            f.t ≤ (MinuteBook.spanOf first rest).2 →
            f.t ∈ (first :: rest).map Candle.t ∨ f.t ∈ (reportsIn ops).map Candle.t) := by
  obtain ⟨pair, hexec, pair', hmerge, h⟩ := exists_swept ops first rest source
  refine ⟨pair, hexec, pair', hmerge, ?_, ?_⟩
  · intro hnever f hf hlo hhi
    exact h.known_of_neverShown hnever hf hlo hhi
  · intro hforming
    exact h.neverShown hforming

/-- **A minute the server never sealed comes back.** Its forming bar is held through the merge that
lacks it, and the first bar of a later minute promotes it. -/
theorem merged_minute_returns :
    ∃ pair pair' pair'' : PairMinutes Int,
      Lts.exec MinuteOp.apply {} [.applyForming ⟨60, 4, 9, 2, 4, 3, "stream"⟩] = some pair ∧
      pair.mergeMinutes [⟨0, 2, 5, 1, 3, 2, "stream"⟩, ⟨120, 3, 3, 3, 3, 1, "stream"⟩] .snapshot
        = some pair' ∧
      pair'.book.sorted.1.filter (fun m => m.t = 60) = [] ∧
      Lts.exec MinuteOp.apply pair' [.applyForming ⟨180, 3, 3, 3, 3, 1, "stream"⟩] = some pair'' ∧
      pair''.book.sorted.1.filter (fun m => m.t = 60) = [⟨60, 4, 9, 2, 4, 3, "stream"⟩] := by
  refine ⟨_, _, _, rfl, rfl, ?_, rfl, ?_⟩ <;> decide +kernel

end FxTracker.Web
