import FxTracker.Lib.Observed
import FxTracker.Web.Store

/-!
# Nobody looks at an old price

Each call of the store marks the topics it writes as dirty and then calls their subscribers. A topic that
is missed here is a component that stands still on old data.

* `Tracked` — what is not marked reads as before, kept by everything that is written
* `Settled` — what the store is between calls
* `kept_call` — so every call wakes whoever reads differently after it, and none but who it concerns
* `store_upToDate` — nobody goes on with an old reading
-/

namespace FxTracker.Web

open Alerts (Regime)

variable {K : Type}

/-! ## What is not marked dirty -/

namespace MarketStore

variable {s t u : MarketStore K} {topics topics' : List Topic}

@[simp] theorem view_dirty (store : MarketStore K) (dirty : List Topic) (topic : Topic) :
    ({ store with dirty := dirty } : MarketStore K).view topic = store.view topic := by
  cases topic <;> rfl

@[simp] theorem view_touch (store : MarketStore K) (x topic : Topic) :
    (store.touch x).view topic = store.view topic := by
  unfold touch
  split
  · rfl
  · exact view_dirty ..

@[simp] theorem mem_dirty_touch {store : MarketStore K} {x topic : Topic} :
    topic ∈ (store.touch x).dirty ↔ topic ∈ store.dirty ∨ topic = x := by
  unfold touch
  split
  · next h =>
    refine ⟨Or.inl, ?_⟩
    rintro (h' | rfl)
    · exact h'
    · exact h
  · simp

@[simp] theorem books_touch (store : MarketStore K) (x : Topic) : (store.touch x).books = store.books := by
  unfold touch; split <;> rfl

@[simp] theorem buf_touch (store : MarketStore K) (x : Topic) : (store.touch x).buf = store.buf := by
  unfold touch; split <;> rfl

@[simp] theorem frame_touch (store : MarketStore K) (x : Topic) : (store.touch x).frame = store.frame := by
  unfold touch; split <;> rfl

/-- From `s` on, only `topics` were marked, and every topic that is not marked reads as in `s`. -/
structure Tracked (s : MarketStore K) (topics : List Topic) (t : MarketStore K) : Prop where
  kept : ∀ topic ∈ s.dirty, topic ∈ t.dirty
  only : ∀ topic ∈ t.dirty, topic ∈ s.dirty ∨ topic ∈ topics
  same : ∀ topic, topic ∉ t.dirty → t.view topic = s.view topic

theorem Tracked.refl (s : MarketStore K) (topics : List Topic) : Tracked s topics s :=
  ⟨fun _ h => h, fun _ h => .inl h, fun _ _ => rfl⟩

theorem Tracked.trans (h : Tracked s topics t) (h' : Tracked t topics' u) :
    Tracked s (topics ++ topics') u where
  kept topic hmem := h'.kept topic (h.kept topic hmem)
  only topic hmem := by
    rcases h'.only topic hmem with hmem | hmem
    · exact (h.only topic hmem).imp_right (List.mem_append_left _)
    · exact .inr (List.mem_append_right _ hmem)
  same topic hclean := (h'.same topic hclean).trans (h.same topic fun hmem => hclean (h'.kept topic hmem))

theorem Tracked.mono (h : Tracked s topics t) (hsub : ∀ topic ∈ topics, topic ∈ topics') :
    Tracked s topics' t :=
  ⟨h.kept, fun topic hmem => (h.only topic hmem).imp_right (hsub topic), h.same⟩

/-- A write that one topic reads, and that topic marked. -/
theorem Tracked.write {x : Topic} (hdirty : t.dirty = s.dirty)
    (hother : ∀ topic, topic ≠ x → t.view topic = s.view topic) : Tracked s [x] (t.touch x) where
  kept topic hmem := mem_dirty_touch.mpr (.inl (hdirty ▸ hmem))
  only topic hmem := by
    rcases mem_dirty_touch.mp hmem with hmem | rfl
    · exact .inl (hdirty ▸ hmem)
    · exact .inr (List.mem_singleton_self _)
  same topic hclean := by
    rw [view_touch]
    exact hother topic fun heq => hclean (mem_dirty_touch.mpr (.inr heq))

theorem Tracked.of_view (hdirty : t.dirty = s.dirty) (hsame : ∀ topic, t.view topic = s.view topic) :
    Tracked s topics t :=
  ⟨fun _ hmem => hdirty ▸ hmem, fun _ hmem => .inl (hdirty ▸ hmem), fun topic _ => hsame topic⟩

theorem Tracked.touch (s : MarketStore K) (x : Topic) : Tracked s [x] (s.touch x) :=
  .write rfl fun _ _ => rfl

/-! ## What is written -/

theorem tracked_paint (s : MarketStore K) (q : Quote K) : Tracked s [.quote q.symbol] (s.paint q) := by
  refine .write rfl ?_
  intro topic hne
  cases topic with
  | quote a =>
    have ha : a ≠ q.symbol := fun heq => hne (by rw [heq])
    simp [view, Dict.get?_set_ne, ha]
  | _ => rfl

theorem tracked_paints (qs : List (Quote K)) (s : MarketStore K) :
    Tracked s (qs.map fun q => .quote q.symbol) (qs.foldl paint s) ∧ (qs.foldl paint s).books = s.books ∧
      (qs.foldl paint s).frame = s.frame := by
  induction qs generalizing s with
  | nil => exact ⟨.refl s _, rfl, rfl⟩
  | cons q qs ih =>
    obtain ⟨htracked, hbooks, hframe⟩ := ih (s.paint q)
    refine ⟨(tracked_paint s q).trans htracked, hbooks.trans ?_, hframe.trans ?_⟩
    · simp [paint]
    · simp [paint]

theorem tracked_setRegime (s : MarketStore K) (a : String) (r : Option Regime) :
    Tracked s [.vol a, .alerts a] (s.setRegime a r) := by
  unfold setRegime
  split
  · exact .refl s _
  · have hregime : ∀ b, b ≠ a → (s.regimes.setRegime a r).regime b = s.regimes.regime b := by
      intro b hb
      simp [RegimeStore.regime, hb]
    have hvol : Tracked s [.vol a] ({ s with regimes := s.regimes.setRegime a r }.touch (.vol a)) := by
      refine .write rfl ?_
      intro topic hne
      cases topic with
      | vol b =>
        have hb : b ≠ a := fun heq => hne (by rw [heq])
        simp [view, hregime b hb]
      | alerts b => simp [view, RegimeStore.alerts_setRegime]
      | _ => rfl
    exact hvol.trans (.touch _ _)

@[simp] theorem books_setRegime (s : MarketStore K) (a : String) (r : Option Regime) :
    (s.setRegime a r).books = s.books := by
  unfold setRegime; split <;> simp

@[simp] theorem buf_setRegime (s : MarketStore K) (a : String) (r : Option Regime) :
    (s.setRegime a r).buf = s.buf := by
  unfold setRegime; split <;> simp

@[simp] theorem frame_setRegime (s : MarketStore K) (a : String) (r : Option Regime) :
    (s.setRegime a r).frame = s.frame := by
  unfold setRegime; split <;> simp

theorem tracked_putBars (l : List (String × List (Candle K))) (s : MarketStore K) :
    Tracked s (l.map fun e => .bars e.1) (l.foldl putBars s) ∧ (l.foldl putBars s).books = s.books ∧
      (l.foldl putBars s).buf = s.buf ∧ (l.foldl putBars s).frame = s.frame := by
  induction l generalizing s with
  | nil => exact ⟨.refl s _, rfl, rfl, rfl⟩
  | cons e l ih =>
    obtain ⟨htracked, hbooks, hbuf, hframe⟩ := ih (s.putBars e)
    have hput : Tracked s [.bars e.1] (s.putBars e) := by
      refine .write rfl ?_
      intro topic hne
      cases topic with
      | bars a =>
        have ha : a ≠ e.1 := fun heq => hne (by rw [heq])
        simp [view, Dict.get?_set_ne, ha]
      | _ => rfl
    refine ⟨hput.trans htracked, hbooks.trans ?_, hbuf.trans ?_, hframe.trans ?_⟩
    all_goals simp [putBars]

theorem touches_spec (topics : List Topic) (s : MarketStore K) :
    (∀ topic, (topics.foldl touch s).view topic = s.view topic) ∧
      (∀ topic, topic ∈ (topics.foldl touch s).dirty ↔ topic ∈ s.dirty ∨ topic ∈ topics) ∧
      (topics.foldl touch s).books = s.books ∧ (topics.foldl touch s).buf = s.buf := by
  induction topics generalizing s with
  | nil => simp
  | cons x topics ih =>
    obtain ⟨hview, hdirty, hbooks, hbuf⟩ := ih (s.touch x)
    refine ⟨?_, ?_, hbooks.trans (books_touch s x), hbuf.trans (buf_touch s x)⟩
    · intro topic
      rw [List.foldl_cons, hview, view_touch]
    · intro topic
      rw [List.foldl_cons, hdirty, mem_dirty_touch, List.mem_cons, or_assoc]

theorem book_withBook (s : MarketStore K) (a b : String) (book : MinuteBook K) :
    (s.withBook a book).book b = if b = a then book else s.book b := by
  unfold MarketStore.book withBook
  rw [Dict.get?_set]
  split <;> rfl

/-- A pair's book is read under one topic. -/
theorem view_withBook (s : MarketStore K) (a : String) (book : MinuteBook K) {topic : Topic}
    (hne : topic ≠ .minutes a) : (s.withBook a book).view topic = s.view topic := by
  cases topic with
  | minutes b =>
    have hb : b ≠ a := fun heq => hne (by rw [heq])
    simp only [view, book_withBook, if_neg hb]
    rfl
  | _ => rfl

theorem view_withBook_of_sorted (s : MarketStore K) {a : String} {book : MinuteBook K}
    (hsorted : book.sorted.1 = (s.book a).sorted.1) (topic : Topic) :
    (s.withBook a book).view topic = s.view topic := by
  by_cases htopic : topic = .minutes a
  · subst htopic
    simp only [view, book_withBook, if_true, hsorted]
    rfl
  · exact view_withBook s a book htopic

/-- The pair marked for a history request, where it is. -/
theorem tracked_gen (s : MarketStore K) (a : String) (gen : Nat) :
    Tracked s [.minutes a] ({ s with gen := s.gen.set a gen }.touch (.minutes a)) := by
  refine .write rfl ?_
  intro topic hne
  cases topic with
  | minutes b =>
    have hb : b ≠ a := fun heq => hne (by rw [heq])
    have hgen : ({ s with gen := s.gen.set a gen } : MarketStore K).minuteGen b = s.minuteGen b := by
      simp [minuteGen, Dict.get?_set_ne, hb]
    simp only [view, needsHistory, hgen]
    rfl
  | _ => rfl

/-! ## Between calls -/

variable [LT K] [DecidableLT K]

/-- The store as its calls leave it. -/
structure Settled (store : MarketStore K) : Prop where
  dirty : store.dirty = []
  book : ∀ a, BookOk (store.book a)
  /-- A price that waits has a frame to come. -/
  armed : store.buf.isEmpty = false → store.frame = true

/-- What a call that wakes none but `topics` leaves. -/
structure Kept (s : MarketStore K) (subscribed topics : List Topic) (r : MarketStore K × List Topic) :
    Prop where
  settled : Settled r.1
  only : ∀ topic ∈ r.2, topic ∈ topics
  same : ∀ topic ∈ subscribed, topic ∉ r.2 → r.1.view topic = s.view topic

theorem kept_emit {subscribed : List Topic} (h : Settled s) (ht : Tracked s topics t)
    (hbook : ∀ a, BookOk (t.book a)) (harmed : t.buf.isEmpty = false → t.frame = true) :
    Kept s subscribed topics t.emit where
  settled := ⟨rfl, hbook, harmed⟩
  only topic hmem := by
    rcases ht.only topic hmem with hmem | hmem
    · rw [h.dirty] at hmem
      cases hmem
    · exact hmem
  same topic _ hclean := (view_dirty t [] topic).trans (ht.same topic hclean)

/-- A write beside the books and the buffer. -/
theorem kept_emit_of_eq {subscribed : List Topic} (h : Settled s) (ht : Tracked s topics t)
    (hbooks : t.books = s.books) (hbuf : t.buf = s.buf) (hframe : t.frame = s.frame) :
    Kept s subscribed topics t.emit := by
  refine kept_emit h ht ?_ ?_
  · intro a
    rw [book, hbooks]
    exact h.book a
  · rw [hbuf, hframe]
    exact h.armed

theorem kept_quiet {subscribed : List Topic} (ht : Settled t) (hsame : ∀ topic, t.view topic = s.view topic) :
    Kept s subscribed topics (t, []) :=
  ⟨ht, (fun _ hmem => by cases hmem), fun topic _ _ => hsame topic⟩

/-! ## Each call -/

theorem settled_init : Settled ({} : MarketStore K) :=
  ⟨rfl, fun _ => bookOk_fresh, fun h => by cases h⟩

variable {subscribed : List Topic}

theorem kept_offer (h : Settled s) (q : Quote K) : Kept s subscribed [] (s.offer q, []) := by
  refine kept_quiet ⟨h.dirty, h.book, fun _ => rfl⟩ ?_
  intro topic
  cases topic <;> rfl

theorem kept_flush (h : Settled s) {r : MarketStore K × List Topic} (hflush : s.flush = some r) :
    Kept s subscribed (s.buf.values.map fun q => .quote q.symbol) r := by
  unfold flush at hflush
  split at hflush
  · dsimp only at hflush
    split at hflush
    · next hempty =>
      cases hflush
      refine kept_quiet ⟨h.dirty, h.book, ?_⟩ fun topic => by cases topic <;> rfl
      intro hfull
      rw [show s.buf.isEmpty = true from hempty] at hfull
      cases hfull
    · cases hflush
      obtain ⟨htracked, hbooks, -⟩ := tracked_paints s.buf.values { s with frame := false }
      have hview : ∀ topic, ({ s with frame := false } : MarketStore K).view topic = s.view topic :=
        fun topic => by cases topic <;> rfl
      refine ⟨⟨rfl, ?_, fun hfull => by cases hfull⟩, ?_, ?_⟩
      · intro a
        show BookOk (((s.buf.values.foldl paint { s with frame := false }).books.get? a).getD {})
        rw [hbooks]
        exact h.book a
      · intro topic hmem
        rcases htracked.only topic hmem with hmem | hmem
        · rw [show ({ s with frame := false } : MarketStore K).dirty = [] from h.dirty] at hmem
          cases hmem
        · exact hmem
      · intro topic _ hclean
        have hsame := (htracked.same topic hclean).trans (hview topic)
        rw [← hsame]
        cases topic <;> rfl
  · cases hflush

theorem book_ok_withBook (h : ∀ b, BookOk (s.book b)) (a : String) {book : MinuteBook K}
    (hbook : BookOk book) (b : String) : BookOk ((s.withBook a book).book b) := by
  rw [book_withBook]
  split
  · exact hbook
  · exact h b

theorem kept_tellMinutes (h : Settled s) (a : String) {r : MinuteBook K × Bool} (hr : Told (s.book a) r) :
    Kept s subscribed [.minutes a] (s.tellMinutes a r) := by
  have hbook := book_ok_withBook h.book a hr.ok
  unfold tellMinutes
  split
  · have htracked : Tracked s [.minutes a] ((s.withBook a r.1).touch (.minutes a)) :=
      .write rfl fun topic hne => view_withBook s a r.1 hne
    refine kept_emit h htracked ?_ ?_
    · intro b
      rw [book, books_touch]
      exact hbook b
    · rw [buf_touch, frame_touch]
      exact h.armed
  · next hno =>
    refine kept_quiet ⟨h.dirty, hbook, h.armed⟩ ?_
    exact view_withBook_of_sorted s (hr.quiet (by simpa using hno))

section

variable [DecidableEq K]

theorem kept_mergeMinutes (h : Settled s) (subscribed : List Topic) (a : String) (bars : List (Candle K))
    (source : MergeFrom) :
    ∃ r, s.mergeMinutes a bars source = some r ∧ Kept s subscribed [.minutes a] r := by
  obtain ⟨hok, hsorted⟩ := sorted_newest (h.book a)
  obtain ⟨r, hmerge, hr⟩ := told_mergeBars hok bars
  obtain ⟨hok', hsorted'⟩ := sorted_dropForming hr.ok
  unfold mergeMinutes
  dsimp only
  rw [hmerge]
  refine ⟨_, rfl, ?_⟩
  -- the generation first: it is marked, or the store is as it was
  obtain ⟨m, hm⟩ : ∃ m, m = if (s.book a).newest.1.any fun newest =>
      decide (source = .snapshot) && bars.head?.any fun bar => newest < bar.t
    then { s with gen := s.gen.set a (s.minuteGen a + 1) }.touch (.minutes a) else s := ⟨_, rfl⟩
  have hmarked : Tracked s [.minutes a] m ∧ m.books = s.books ∧ m.buf = s.buf ∧ m.frame = s.frame := by
    rw [hm]
    split
    · exact ⟨tracked_gen s a _, by simp, by simp, by simp⟩
    · exact ⟨.refl s _, rfl, rfl, rfl⟩
  rw [← hm]
  obtain ⟨htracked, hbooks, hbuf, hframe⟩ := hmarked
  have hmbook : ∀ b, m.book b = s.book b := fun b => by rw [book, hbooks]; rfl
  have hbook := book_ok_withBook (fun b => (hmbook b).symm ▸ h.book b) a hok'
  have harmed : m.buf.isEmpty = false → m.frame = true := by
    rw [hbuf, hframe]
    exact h.armed
  dsimp only
  split
  · have hwritten : Tracked m [.minutes a] ((m.withBook a r.1.dropForming).touch (.minutes a)) :=
      .write rfl fun topic hne => view_withBook m a _ hne
    refine kept_emit h ((htracked.trans hwritten).mono ?_) ?_ ?_
    · simp
    · intro b
      rw [book, books_touch]
      exact hbook b
    · rw [buf_touch, frame_touch]
      exact harmed
  · next hno =>
    have hshown : r.1.dropForming.sorted.1 = (m.book a).sorted.1 := by
      rw [hmbook, hsorted', hr.quiet (by simpa using hno), hsorted]
    have hwritten : Tracked m [.minutes a] (m.withBook a r.1.dropForming) :=
      .of_view rfl (view_withBook_of_sorted m hshown)
    refine kept_emit h ((htracked.trans hwritten).mono ?_) hbook harmed
    simp

end

/-! ## Every call -/

theorem clear_books (l : List String) {books : Dict String (MinuteBook K)}
    (h : ∀ a, BookOk ((books.get? a).getD {})) (a : String) :
    BookOk (((l.foldl (fun books a => books.set a {}) books).get? a).getD {}) := by
  induction l generalizing books with
  | nil => exact h a
  | cons b l ih =>
    refine ih ?_
    intro a
    rw [Dict.get?_set]
    split
    · exact bookOk_fresh
    · exact h a

theorem kept_clearMarket (h : Settled s) : Kept s subscribed subscribed (s.clearMarket subscribed) := by
  obtain ⟨cleared, hcleared⟩ : ∃ cleared : MarketStore K, cleared = { s with
    quotes := .empty
    vol := .empty
    regimes := {}
    bars := .empty
    z := .empty
    buf := .empty
    books := s.books.keys.foldl (fun books a => books.set a {}) s.books
    gen := s.books.keys.foldl (fun gen a => gen.set a ((gen.get? a).getD 0 + 1)) s.gen
    daily := .empty } := ⟨_, rfl⟩
  have hcall : s.clearMarket subscribed = (subscribed.foldl MarketStore.touch cleared).emit := by
    rw [hcleared]
    rfl
  obtain ⟨-, hdirty, hbooks, hbuf⟩ := touches_spec subscribed cleared
  have hdirty' : ∀ topic, topic ∈ (subscribed.foldl MarketStore.touch cleared).dirty ↔ topic ∈ subscribed := by
    intro topic
    rw [hdirty, hcleared, h.dirty]
    simp
  rw [hcall]
  refine ⟨⟨rfl, ?_, ?_⟩, fun topic hmem => (hdirty' topic).mp hmem, ?_⟩
  · intro a
    show BookOk (((subscribed.foldl MarketStore.touch cleared).books.get? a).getD {})
    rw [hbooks, hcleared]
    exact clear_books s.books.keys h.book a
  · intro hfull
    have hempty : (subscribed.foldl MarketStore.touch cleared).buf = .empty := by
      rw [hbuf, hcleared]
    rw [show (subscribed.foldl MarketStore.touch cleared).emit.1.buf = .empty from hempty] at hfull
    cases hfull
  · intro topic hmem hclean
    exact absurd ((hdirty' topic).mpr hmem) hclean

theorem kept_recordAlert (h : Settled s) (alert : Transition) :
    Kept s subscribed [.vol alert.s, .alerts alert.s] (s.recordAlert alert).1 := by
  unfold recordAlert
  dsimp only
  split
  · exact kept_quiet h fun _ => rfl
  · obtain ⟨m, hm⟩ : ∃ m : MarketStore K, m = { s with
      regimes := { s.regimes with
        alerts := s.regimes.alerts.set alert.s
          ((alert :: (s.regimes.alerts.get? alert.s).getD []).take alertCap) } } := ⟨_, rfl⟩
    have hother : ∀ topic, topic ≠ .alerts alert.s → m.view topic = s.view topic := by
      rw [hm]
      intro topic hne
      cases topic with
      | alerts a =>
        have ha : a ≠ alert.s := fun heq => hne (by rw [heq])
        simp [view, Dict.get?_set_ne, ha]
      | _ => rfl
    rw [← hm]
    have hset := tracked_setRegime m alert.s (some alert.newRegime)
    have htracked : Tracked s [.vol alert.s, .alerts alert.s]
        ((m.setRegime alert.s (some alert.newRegime)).touch (.alerts alert.s)) := by
      refine ⟨?_, ?_, ?_⟩
      · intro topic hmem
        exact mem_dirty_touch.mpr (.inl (hset.kept topic (by rw [hm]; exact hmem)))
      · intro topic hmem
        rcases mem_dirty_touch.mp hmem with hmem | rfl
        · exact (hset.only topic hmem).imp_left fun hold => by rw [hm] at hold; exact hold
        · simp
      · intro topic hclean
        rw [mem_dirty_touch, not_or] at hclean
        rw [view_touch, hset.same topic hclean.1]
        exact hother topic hclean.2
    exact kept_emit_of_eq h htracked (by simp [hm]) (by simp [hm]) (by simp [hm])

theorem kept_setVol (h : Settled s) (v : Vol K) :
    Kept s subscribed [.vol v.symbol, .alerts v.symbol] (s.setVol v) := by
  have hvol : Tracked s [.vol v.symbol] ({ s with vol := s.vol.set v.symbol v }.touch (.vol v.symbol)) := by
    refine .write rfl ?_
    intro topic hne
    cases topic with
    | vol a =>
      have ha : a ≠ v.symbol := fun heq => hne (by rw [heq])
      simp [view, Dict.get?_set_ne, ha]
    | _ => rfl
  unfold setVol
  dsimp only
  split
  · refine kept_emit_of_eq h ((hvol.trans (tracked_setRegime _ v.symbol v.regime)).mono ?_) ?_ ?_ ?_
    all_goals simp
  · refine kept_emit_of_eq h (hvol.mono ?_) ?_ ?_ ?_
    all_goals simp

/-- The calls that write one dictionary, and mark its topic. -/
theorem kept_write (h : Settled s) {x : Topic} (hdirty : t.dirty = s.dirty) (hbooks : t.books = s.books)
    (hbuf : t.buf = s.buf) (hframe : t.frame = s.frame)
    (hother : ∀ topic, topic ≠ x → t.view topic = s.view topic) :
    Kept s subscribed [x] (t.touch x).emit := by
  refine kept_emit_of_eq h (.write hdirty hother) ?_ ?_ ?_
  · rw [books_touch, hbooks]
  · rw [buf_touch, hbuf]
  · rw [frame_touch, hframe]

theorem kept_readMinutes (h : Settled s) (a : String) : Kept s subscribed [] (s.readMinutes a, []) := by
  have hok := (h.book a).sorted_snd
  have hsame := (sorted_newest (h.book a)).2
  unfold readMinutes
  split
  · exact kept_quiet ⟨h.dirty, book_ok_withBook h.book a hok, h.armed⟩ (view_withBook_of_sorted s hsame)
  · exact kept_quiet h fun _ => rfl

variable [DecidableEq K]

/-- **One call** wakes whoever reads differently after it, and none but who it concerns. -/
theorem kept_call (h : Settled s) {c : StoreCall K} {r : MarketStore K × List Topic}
    (hcall : s.call subscribed c = some r) : Kept s subscribed (c.concerns s subscribed) r := by
  cases c with
  | offer q =>
    cases hcall
    exact kept_offer h q
  | frame => exact kept_flush h hcall
  | applyForming a bar =>
    obtain ⟨p, hp, htold⟩ := told_applyForming (h.book a) bar
    obtain ⟨p', hp', rfl⟩ := Option.map_eq_some_iff.mp hcall
    rw [hp] at hp'
    cases hp'
    exact kept_tellMinutes h a htold
  | applyQuote a mid ts =>
    unfold MarketStore.call applyQuote at hcall
    dsimp only at hcall
    obtain ⟨p', hp', rfl⟩ := Option.map_eq_some_iff.mp hcall
    obtain ⟨p, hp, htold⟩ := told_applyForming (h.book a) _
    rw [hp] at hp'
    cases hp'
    exact kept_tellMinutes h a htold
  | sealMinute a bar =>
    obtain ⟨p, hp, htold⟩ := told_sealMinute (h.book a) bar
    obtain ⟨p', hp', rfl⟩ := Option.map_eq_some_iff.mp hcall
    rw [hp] at hp'
    cases hp'
    exact kept_tellMinutes h a htold
  | mergeMinutes a bars source =>
    obtain ⟨r', hr', hkept⟩ := kept_mergeMinutes h subscribed a bars source
    rw [show s.call subscribed (.mergeMinutes a bars source) = some r' from hr'] at hcall
    cases hcall
    exact hkept
  | historyLoaded a gen =>
    cases hcall
    unfold historyLoaded
    split
    · exact kept_quiet h fun _ => rfl
    · refine kept_write h rfl rfl rfl rfl ?_
      intro topic hne
      cases topic with
      | minutes b =>
        have hb : b ≠ a := fun heq => hne (by rw [heq])
        have hneeds : ({ s with loaded := s.loaded.set a gen } : MarketStore K).needsHistory b
            = s.needsHistory b := by
          unfold needsHistory
          rw [Dict.get?_set_ne _ _ hb]
          rfl
        simp only [view, hneeds]
        rfl
      | _ => rfl
  | setDaily a bars fetched =>
    cases hcall
    refine kept_write h rfl rfl rfl rfl ?_
    intro topic hne
    cases topic with
    | daily b =>
      have hb : b ≠ a := fun heq => hne (by rw [heq])
      simp [view, Dict.get?_set_ne, hb]
    | _ => rfl
  | setVol v =>
    cases hcall
    exact kept_setVol h v
  | setZHist a points =>
    cases hcall
    refine kept_write h rfl rfl rfl rfl ?_
    intro topic hne
    cases topic with
    | z b =>
      have hb : b ≠ a := fun heq => hne (by rw [heq])
      simp [view, Dict.get?_set_ne, hb]
    | _ => rfl
  | pushZ a p =>
    cases hcall
    refine kept_write h rfl rfl rfl rfl ?_
    intro topic hne
    cases topic with
    | z b =>
      have hb : b ≠ a := fun heq => hne (by rw [heq])
      simp [view, Dict.get?_set_ne, hb]
    | _ => rfl
  | pushAlert alert =>
    cases hcall
    exact kept_recordAlert h alert
  | seedAlert alert =>
    cases hcall
    exact kept_recordAlert h alert
  | setBars bars =>
    cases hcall
    obtain ⟨htracked, hbooks, hbuf, hframe⟩ := tracked_putBars bars.entries s
    exact kept_emit_of_eq h htracked hbooks hbuf hframe
  | setFeed f =>
    cases hcall
    refine kept_write h rfl rfl rfl rfl ?_
    intro topic hne
    cases topic with
    | feed => exact absurd rfl hne
    | _ => rfl
  | clearMarket =>
    cases hcall
    exact kept_clearMarket h
  | setConn state attempt =>
    cases hcall
    refine kept_write h rfl rfl rfl rfl ?_
    intro topic hne
    cases topic with
    | conn => exact absurd rfl hne
    | _ => rfl
  | seedRegime a r =>
    cases hcall
    unfold seedRegime
    split
    · exact kept_quiet h fun _ => rfl
    · refine kept_emit_of_eq h (tracked_setRegime s a r) ?_ ?_ ?_
      all_goals simp
  | readMinutes a =>
    cases hcall
    exact kept_readMinutes h a

/-- Every call returns; a frame runs where one was asked for. -/
theorem call_total (h : Settled s) (subscribed : List Topic) (c : StoreCall K)
    (hframe : c = .frame → s.frame = true) : ∃ r, s.call subscribed c = some r := by
  have hforming : ∀ a bar, ∃ r, s.applyForming a bar = some r := by
    intro a bar
    obtain ⟨p, hp, -⟩ := told_applyForming (h.book a) bar
    exact ⟨_, by rw [applyForming, hp]; rfl⟩
  cases c with
  | frame =>
    show ∃ r, s.flush = some r
    unfold flush
    rw [if_pos (hframe rfl)]
    dsimp only
    split <;> exact ⟨_, rfl⟩
  | applyForming a bar => exact hforming a bar
  | applyQuote a mid ts => exact hforming a _
  | sealMinute a bar =>
    obtain ⟨p, hp, -⟩ := told_sealMinute (h.book a) bar
    exact ⟨_, by rw [call, sealMinute, hp]; rfl⟩
  | mergeMinutes a bars source =>
    obtain ⟨r, hr, -⟩ := kept_mergeMinutes h subscribed a bars source
    exact ⟨r, hr⟩
  | _ => exact ⟨_, rfl⟩

/-- Every call covers what it writes. -/
theorem covers_call : Observed.Covers (view (K := K)) call Settled where
  keeps _ _ _ _ h hcall := (kept_call h hcall).settled
  wakes _ _ _ _ h hcall := (kept_call h hcall).same

end MarketStore

/-! ## Whole runs -/

section Runs

variable [LT K] [DecidableLT K] [DecidableEq K] {γ : Type} [DecidableEq γ]

/-- The store with its components, from an empty page on. -/
def storeLts (K γ : Type) [LT K] [DecidableLT K] [DecidableEq K] [DecidableEq γ] :
    Lts (Observed (MarketStore K) γ Topic (Reading K)) (Observed.Event (StoreCall K) γ Topic) :=
  Observed.lts MarketStore.view MarketStore.call {}

theorem settled_of_reachable {o : Observed (MarketStore K) γ Topic (Reading K)}
    (h : (storeLts K γ).Reachable o) :
    MarketStore.Settled o.store ∧ Observed.UpToDate MarketStore.view o :=
  Observed.upToDate_of_reachable MarketStore.covers_call MarketStore.settled_init h

/--
**Nobody goes on with an old reading.**

Whatever is called, subscribed and cancelled, in any order, where each subscription is a callback of its own that is
cancelled once: each component has read what its topic shows now. No call raises, a price that waits has a frame to come, and a call wakes the components of what it is
about and no others.
-/
theorem store_upToDate {o : Observed (MarketStore K) γ Topic (Reading K)} (h : (storeLts K γ).Reachable o) :
    (∀ sub ∈ o.subs, sub.seen = o.store.view sub.topic) ∧
      (o.store.buf.isEmpty = false → o.store.frame = true) ∧
      ∀ c : StoreCall K, (c = .frame → o.store.frame = true) →
        ∃ r, o.store.call o.topics c = some r ∧ ∀ topic ∈ r.2, topic ∈ c.concerns o.store o.topics := by
  obtain ⟨hsettled, hfresh⟩ := settled_of_reachable h
  refine ⟨hfresh, hsettled.armed, ?_⟩
  intro c hframe
  obtain ⟨r, hr⟩ := MarketStore.call_total hsettled o.topics c hframe
  exact ⟨r, hr, (MarketStore.kept_call hsettled hr).only⟩

/-- Two cells for one pair and one for another: a price, then its frame. -/
def samplePage : List (Observed.Event (StoreCall Int) String Topic) :=
  [.subscribe "ticker" (.quote "EURUSD"), .subscribe "table" (.quote "GBPUSD"),
    .subscribe "chart" (.minutes "EURUSD"), .call (.offer ⟨"EURUSD", 1, 3, 2, "12:00:00Z"⟩),
    .call (.sealMinute "EURUSD" ⟨0, 2, 2, 2, 2, 1, "stream"⟩), .call .frame, .unsubscribe "table" (.quote "GBPUSD")]

theorem store_upToDate_samplePage :
    ∃ o, Lts.exec (Observed.step MarketStore.view MarketStore.call) ⟨{}, []⟩ samplePage = some o ∧
      o.store.quotes.size = 1 ∧ o.subs.length = 2 ∧ ∀ sub ∈ o.subs, sub.seen = o.store.view sub.topic := by
  obtain ⟨o, ho⟩ : ∃ o, Lts.exec (Observed.step MarketStore.view MarketStore.call) ⟨{}, []⟩ samplePage
    = some o := ⟨_, rfl⟩
  have hreach : (storeLts Int String).Reachable o := Lts.reachable_exec (.init rfl) ho
  have hsizes : (Lts.exec (Observed.step MarketStore.view MarketStore.call) ⟨{}, []⟩ samplePage).map
      (fun o => (o.store.quotes.size, o.subs.length)) = some (1, 2) := rfl
  rw [ho, Option.map_some, Option.some.injEq, Prod.mk.injEq] at hsizes
  exact ⟨o, ho, hsizes.1, hsizes.2, (store_upToDate hreach).1⟩

end Runs

end FxTracker.Web
