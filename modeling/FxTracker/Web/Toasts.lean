import FxTracker.Web.Cells

/-!
# News and history

`pushAlert` and `seedAlert` of `apps/web/src/lib/stream/store.ts`. Both list a transition that is new, and
only `pushAlert` tells `onAlert`. New is what the list does not hold, and it holds sixty of a pair, so a
transition that is delivered again is new again once sixty others came between.

* `News.Sound` — the list of a pair is the newest sixty that were recorded of it
* `toasts_of_reachable` — so a number is told twice only with sixty others between, and nothing delivered goes
  unrecorded
-/

namespace FxTracker.Web

variable {K : Type}

/-- A store with what it took since the market was last cleared, oldest first. -/
structure News (K : Type) where
  store : MarketStore K := {}
  /-- What `pushAlert` and `seedAlert` were called with. -/
  given : List Transition := []
  recorded : List Transition := []
  /-- What `onAlert` was told. -/
  toasts : List Transition := []

namespace News

/-- What was recorded of a pair. -/
def told (news : News K) (a : String) : List Transition := news.recorded.filter fun t => t.s = a

/-- A number comes again only with at least `alertCap` others of its pair between. -/
def Spaced (l : List Transition) : Prop :=
  ∀ i j x y, i < j → l[i]? = some x → l[j]? = some y → x.seq = y.seq → i + alertCap < j

structure Sound (news : News K) : Prop where
  listed : ∀ a, (news.store.cell a).alerts = (news.told a).reverse.take alertCap
  spaced : ∀ a, Spaced (news.told a)
  kept : ∀ t ∈ news.given, ∃ t' ∈ news.recorded, t'.s = t.s ∧ t'.seq = t.seq
  toasts : news.toasts.Sublist news.recorded

/-- One more, that is none of the newest. -/
theorem Spaced.concat {l : List Transition} (h : Spaced l) {t : Transition}
    (hnew : ∀ x ∈ l.reverse.take alertCap, x.seq ≠ t.seq) : Spaced (l ++ [t]) := by
  intro i j x y hij hx hy hseq
  rcases Nat.lt_or_ge j l.length with hj | hj
  · rw [List.getElem?_append_left (by omega)] at hx
    rw [List.getElem?_append_left hj] at hy
    exact h i j x y hij hx hy hseq
  · have hlast : j = l.length ∧ y = t := by
      obtain ⟨hlt, -⟩ := List.getElem?_eq_some_iff.mp hy
      rw [List.length_append, List.length_singleton] at hlt
      have hjl : j = l.length := by omega
      subst hjl
      simpa using hy.symm
    obtain ⟨rfl, rfl⟩ := hlast
    rw [List.getElem?_append_left hij] at hx
    by_contra hnear
    refine hnew x (List.mem_of_getElem? (i := l.length - 1 - i) ?_) hseq
    rw [List.getElem?_take_of_lt (by omega), List.getElem?_reverse (by omega), ← hx]
    congr 1
    omega

/-- The list of a pair after a transition that may be new, and whether it was. -/
theorem alerts_recordAlert (store : MarketStore K) (t : Transition) (a : String) :
    ((store.recordAlert t).2 = true → (∀ x ∈ (store.cell t.s).alerts, x.seq ≠ t.seq) ∧
      ((store.recordAlert t).1.1.cell a).alerts
        = if t.s = a then (t :: (store.cell a).alerts).take alertCap else (store.cell a).alerts) ∧
    ((store.recordAlert t).2 = false → (∃ x ∈ (store.cell t.s).alerts, x.seq = t.seq) ∧
      ((store.recordAlert t).1.1.cell a).alerts = (store.cell a).alerts) := by
  have hanswer : (store.recordAlert t).2 = !(store.cell t.s).alerts.any (·.seq = t.seq) := by
    show _ = !((store.regimes.alerts.get? t.s).getD []).any (·.seq = t.seq)
    unfold MarketStore.recordAlert
    dsimp only
    split
    · next h => rw [h]; rfl
    · next h => rw [Bool.not_eq_true] at h; rw [h]; rfl
  rw [hanswer, MarketStore.cell_recordAlert]
  refine ⟨?_, ?_⟩
  · intro hnew
    have hfresh : ¬ (store.cell t.s).alerts.any (·.seq = t.seq) = true := by simpa using hnew
    refine ⟨by simpa using hnew, ?_⟩
    by_cases hs : t.s = a
    · subst hs
      simp only [if_true, Cell.alert, if_neg hfresh]
    · rw [if_neg hs, if_neg hs]
  · intro hold
    have hlisted : (store.cell t.s).alerts.any (·.seq = t.seq) = true := by simpa using hold
    refine ⟨by simpa using hold, ?_⟩
    split
    · next hs =>
      subst hs
      simp only [Cell.alert, if_pos hlisted]
    · rfl

/-- A transition that is recorded. -/
theorem Sound.record {news : News K} (h : Sound news) {t : Transition}
    (hnew : (news.store.recordAlert t).2 = true) {toasts : List Transition}
    (htoasts : toasts.Sublist (news.recorded ++ [t])) :
    Sound ⟨(news.store.recordAlert t).1.1, news.given ++ [t], news.recorded ++ [t], toasts⟩ := by
  have htold : ∀ a, (⟨(news.store.recordAlert t).1.1, news.given ++ [t], news.recorded ++ [t], toasts⟩ :
      News K).told a = if t.s = a then news.told a ++ [t] else news.told a := by
    intro a
    unfold told
    rw [List.filter_append]
    by_cases hs : t.s = a <;> simp [hs]
  refine ⟨?_, ?_, ?_, htoasts⟩
  · intro a
    have halerts := ((alerts_recordAlert news.store t a).1 hnew).2
    rw [htold, halerts, h.listed a]
    by_cases hs : t.s = a
    · rw [if_pos hs, if_pos hs, List.reverse_append, List.reverse_singleton, List.singleton_append]
      simp [alertCap, List.take_take]
    · rw [if_neg hs, if_neg hs]
  · intro a
    rw [htold]
    split
    · next hs =>
      subst hs
      refine (h.spaced t.s).concat ?_
      rw [← h.listed t.s]
      exact ((alerts_recordAlert news.store t t.s).1 hnew).1
    · exact h.spaced a
  · intro x hx
    rcases List.mem_append.mp hx with hx | hx
    · obtain ⟨x', hx', hsame⟩ := h.kept x hx
      exact ⟨x', List.mem_append_left _ hx', hsame⟩
    · rw [List.mem_singleton.mp hx]
      exact ⟨t, by simp, rfl, rfl⟩

/-- A transition that is listed already. -/
theorem Sound.relist {news : News K} (h : Sound news) {t : Transition}
    (hold : (news.store.recordAlert t).2 = false) :
    Sound { news with store := (news.store.recordAlert t).1.1, given := news.given ++ [t] } := by
  refine ⟨?_, h.spaced, ?_, h.toasts⟩
  · intro a
    rw [((alerts_recordAlert news.store t a).2 hold).2]
    exact h.listed a
  · intro x hx
    rcases List.mem_append.mp hx with hx | hx
    · exact h.kept x hx
    · rw [List.mem_singleton.mp hx]
      obtain ⟨y, hy, hseq⟩ := ((alerts_recordAlert news.store t t.s).2 hold).1
      rw [h.listed] at hy
      have hy' := List.mem_reverse.mp (List.mem_of_mem_take hy)
      obtain ⟨hmem, hpair⟩ := List.mem_filter.mp hy'
      exact ⟨y, hmem, of_decide_eq_true hpair, hseq⟩

variable [DecidableEq K] [LT K] [DecidableLT K]

def step (news : News K) (e : List Topic × StoreCall K) : Option (News K) :=
  (news.store.call e.1 e.2).map fun r =>
    match e.2 with
    | .pushAlert t =>
      if (news.store.recordAlert t).2 then
        ⟨r.1, news.given ++ [t], news.recorded ++ [t], news.toasts ++ [t]⟩
      else { news with store := r.1, given := news.given ++ [t] }
    | .seedAlert t =>
      if (news.store.recordAlert t).2 then
        { news with store := r.1, given := news.given ++ [t], recorded := news.recorded ++ [t] }
      else { news with store := r.1, given := news.given ++ [t] }
    | .clearMarket => ⟨r.1, [], [], []⟩
    | _ => { news with store := r.1 }

/-- The other calls leave the lists alone. -/
theorem alerts_call {cell : Cell K} {a : String} {c : StoreCall K} (hpush : ∀ t, c ≠ .pushAlert t)
    (hseed : ∀ t, c ≠ .seedAlert t) (hclear : c ≠ .clearMarket) : (cell.call a c).alerts = cell.alerts := by
  unfold Cell.call
  split
  · cases c with
    | pushAlert t => exact absurd rfl (hpush t)
    | seedAlert t => exact absurd rfl (hseed t)
    | clearMarket => exact absurd rfl hclear
    | _ => simp only [Cell.take]
  · rfl

/-- **One step.** -/
theorem Sound.step {news news' : News K} (h : Sound news)
    (hkeyed : ∀ a q, news.store.buf.get? a = some q → q.symbol = a) {e : List Topic × StoreCall K}
    (hstep : news.step e = some news') : Sound news' := by
  obtain ⟨subscribed, c⟩ := e
  obtain ⟨r, hr, hnews⟩ := Option.map_eq_some_iff.mp hstep
  cases c with
  | pushAlert t =>
    cases hr
    cases hnew : (news.store.recordAlert t).2 with
    | true =>
      simp only [hnew, if_true] at hnews
      cases hnews
      exact h.record hnew (h.toasts.append_right [t])
    | false =>
      simp only [hnew, Bool.false_eq_true, if_false] at hnews
      cases hnews
      exact h.relist hnew
  | seedAlert t =>
    cases hr
    cases hnew : (news.store.recordAlert t).2 with
    | true =>
      simp only [hnew, if_true] at hnews
      cases hnews
      exact h.record hnew (h.toasts.trans (List.sublist_append_left ..))
    | false =>
      simp only [hnew, Bool.false_eq_true, if_false] at hnews
      cases hnews
      exact h.relist hnew
  | clearMarket =>
    cases hr
    cases hnews
    refine ⟨?_, ?_, ?_, List.Sublist.refl _⟩
    · intro a
      rw [MarketStore.cell_clearMarket]
      rfl
    · intro a i j x y _ hx
      cases hx
    · intro t ht
      cases ht
  | _ =>
    cases hnews
    refine ⟨?_, h.spaced, h.kept, h.toasts⟩
    intro a
    rw [MarketStore.cell_call hkeyed hr, alerts_call]
    · exact h.listed a
    all_goals intros; intro heq; cases heq

end News

/-- The store of a page with its news, whoever subscribes. -/
def newsLts (K : Type) [DecidableEq K] [LT K] [DecidableLT K] : Lts (News K) (List Topic × StoreCall K) :=
  .ofFn {} News.step

section Runs

variable [DecidableEq K] [LT K] [DecidableLT K] {news : News K}

theorem news_of_reachable (h : (newsLts K).Reachable news) :
    MarketStore.Settled news.store ∧ (∀ a q, news.store.buf.get? a = some q → q.symbol = a) ∧
      News.Sound news := by
  refine h.invariant (I := fun news => MarketStore.Settled news.store ∧
    (∀ a q, news.store.buf.get? a = some q → q.symbol = a) ∧ News.Sound news) ?_ ?_
  · rintro _ rfl
    refine ⟨MarketStore.settled_init, (fun _ _ hq => by cases hq), ?_⟩
    exact ⟨fun _ => rfl, (fun _ _ _ _ _ _ hx => by cases hx), (fun _ ht => by cases ht), .refl _⟩
  · rintro news ⟨subscribed, c⟩ news' ⟨hsettled, hkeyed, hsound⟩ hstep
    obtain ⟨r, hr, hnews⟩ := Option.map_eq_some_iff.mp hstep
    have hstore : news'.store = r.1 := by
      rw [← hnews]
      cases c with
      | pushAlert t => dsimp only; split <;> rfl
      | seedAlert t => dsimp only; split <;> rfl
      | _ => rfl
    refine ⟨?_, ?_, hsound.step hkeyed hstep⟩
    · rw [hstore]
      exact (MarketStore.kept_call hsettled hr).settled
    · intro a q hq
      have hwaiting : ∀ q, (news.store.cell a).waiting = some q → q.symbol = a := hkeyed a
      refine Cell.waiting_call hwaiting c q ?_
      have hcell := MarketStore.cell_call hkeyed hr a
      rw [hstore] at hq
      exact (congrArg Cell.waiting hcell).symm.trans hq

/--
**A number is told twice only with sixty others between, and nothing delivered goes unrecorded.**

Since the market was last cleared: the list of a pair is the newest sixty that were recorded of it; a number
is recorded of a pair again only with at least sixty others of it between; every transition pushed or seeded is
recorded under its number; and what `onAlert` was told is a part of it, in its order.
-/
theorem toasts_of_reachable (h : (newsLts K).Reachable news) :
    (∀ a, (news.store.regimes.alerts.get? a).getD []
        = ((news.recorded.filter fun t => t.s = a).reverse).take 60) ∧
      (∀ a i j x y, i < j → (news.recorded.filter fun t => t.s = a)[i]? = some x →
        (news.recorded.filter fun t => t.s = a)[j]? = some y → x.seq = y.seq → i + 60 < j) ∧
      (∀ t ∈ news.given, ∃ t' ∈ news.recorded, t'.s = t.s ∧ t'.seq = t.seq) ∧
      news.toasts.Sublist news.recorded := by
  obtain ⟨-, -, hsound⟩ := news_of_reachable h
  exact ⟨hsound.listed, hsound.spaced, hsound.kept, hsound.toasts⟩

/-- One seeded, one told, and the first of them again. -/
def sampleNews : List (List Topic × StoreCall Int) :=
  [([], .seedAlert ⟨"EURUSD", 1, .stressed⟩), ([], .pushAlert ⟨"EURUSD", 2, .normal⟩),
    ([], .pushAlert ⟨"EURUSD", 1, .stressed⟩)]

theorem toasts_of_reachable_sampleNews :
    ∃ news, Lts.exec News.step {} sampleNews = some news ∧ news.toasts = [⟨"EURUSD", 2, .normal⟩] ∧
      news.given.length = 3 ∧ news.toasts.Sublist news.recorded := by
  obtain ⟨news, hnews⟩ : ∃ news, Lts.exec News.step {} sampleNews = some news := ⟨_, rfl⟩
  have hparts : (Lts.exec News.step {} sampleNews).map (fun news => (news.toasts, news.given.length))
      = some ([⟨"EURUSD", 2, .normal⟩], 3) := rfl
  rw [hnews, Option.map_some, Option.some.injEq, Prod.mk.injEq] at hparts
  have hreach : (newsLts Int).Reachable news := Lts.reachable_exec (.init rfl) hnews
  exact ⟨news, hnews, hparts.1, hparts.2, (toasts_of_reachable hreach).2.2.2⟩

end Runs

end FxTracker.Web
