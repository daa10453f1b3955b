import FxTracker.Ingestor.Feed

/-!
# Sealing across leaderships

A pipeline keeps its open buckets when its process loses the lead. A process that leads again with one that
was sealed meanwhile, or is older than one that was, seals it again.

* `sealed_once` — where no leadership starts with such a bucket, the bars of a symbol only go forward
* `sealed_twice` — a run in which a minute is sealed twice
-/

namespace FxTracker.Ingestor.Feed

open Alerts

variable {K κ : Type} [DecidableEq κ]

/-- The ticks of a symbol come in the order of their times. -/
def Chronological (s : State K κ) : Action K κ → Prop
  | .tick _ tick _ => ∀ earlier ∈ s.ticks, earlier.symbol = tick.symbol → earlier.tsEvent ≤ tick.tsEvent
  | _ => True

instance decidableChronological (s : State K κ) : ∀ a, Decidable (Chronological s a)
  | .tick _ tick _ => inferInstanceAs
    (Decidable (∀ earlier ∈ s.ticks, earlier.symbol = tick.symbol → earlier.tsEvent ≤ tick.tsEvent))
  | .start .. | .acquire _ | .adopt _ | .adoptUnheard _ | .holdOff _ | .feedStale .. | .handBack _ | .crash _ =>
    inferInstanceAs (Decidable True)

/-- The open bucket of the symbol, if there is one, is later than every bar fed of it. -/
def Ahead (fed : List (String × SealedBar K)) (symbol : String) (st : SymbolState K) : Prop :=
  ∀ acc ∈ st.bucket, ∀ f ∈ fed, f.1 = symbol → f.2.ts < acc.bucket * 1000000

/-- A process that gets the lead has kept no open bucket that is not later than what was sealed. -/
def Settled (s : State K κ) : Action K κ → Prop
  | .acquire k => ∀ m, s.process k = some m → ∀ symbol, Ahead s.fed symbol (m.pipeline.state symbol)
  | _ => True

/-- The bars of each symbol go forward: those the detectors are fed, and those in the history. -/
def SealedOnce (s : State K κ) : Prop :=
  ∀ symbol,
    ((s.fed.filter fun f => f.1 = symbol).Pairwise fun f g => f.2.ts < g.2.ts) ∧
      ((s.history.filter fun b => b.1 = symbol).Pairwise fun b c => b.2.bucket < c.2.bucket)

variable [FloatMath K] [LT K] [DecidableLT K] {cfg : IngestConfig K} {s t : State K κ} {k : κ}

/-! ## One tick -/

/-- What a tick does to the logs: none of them grows, or the leader closes its bucket. -/
theorem logs_stepTick {tick : Tick K} {outcome : Outcome} (h : stepTick cfg s k tick outcome = some t) :
    t.ticks = s.ticks ++ [tick] ∧
      ((t.fed = s.fed ∧ t.history = s.history) ∨
        ∃ m closed f bucketStart, s.leads k .leading = some m ∧
          (m.pipeline.state tick.symbol).bucket = some closed ∧
          floorToBucket tick.tsEvent cfg.bucketSeconds = some bucketStart ∧ closed.bucket < bucketStart ∧
          f.ts = closed.bucket * 1000000 ∧ t.fed = s.fed ++ [(tick.symbol, f)] ∧
          (t.history = s.history ∨ t.history = s.history ++ [(tick.symbol, closed.sealBar)])) := by
  obtain ⟨m, pipeline, hm, ⟨-, rfl⟩ | ⟨w, fed, hhandle, rfl, hend⟩⟩ := stepTick_cases h
  · exact ⟨rfl, .inl ⟨rfl, rfl⟩⟩
  · obtain ⟨bucketStart, acc, acc', heff⟩ := IngestPipeline.effect_of_handle hhandle
    refine ⟨by rcases hend with rfl | rfl | rfl <;> rfl, ?_⟩
    rcases heff.bar_cases with hbar | ⟨closed, f, hclosed, hlt, hbar, hts⟩
    · have hnone : ∀ {β : Type} (l : List β) (g : Bar K × SealedBar K → β),
          l ++ (w.bar.map g).toList = l := fun l g => by rw [hbar]; exact List.append_nil l
      refine .inl ?_
      rcases hend with rfl | rfl | rfl
      · exact ⟨hnone _ _, hnone _ _⟩
      · exact ⟨hnone _ _, hnone _ _⟩
      · exact ⟨hnone _ _, rfl⟩
    · have hfed : s.fed ++ (w.bar.map fun b => (tick.symbol, b.2)).toList = s.fed ++ [(tick.symbol, f)] := by
        rw [hbar]
        rfl
      have hhist : s.history ++ (w.bar.map fun b => (tick.symbol, b.1)).toList =
          s.history ++ [(tick.symbol, closed.sealBar)] := by
        rw [hbar]
        rfl
      refine .inr ⟨m, closed, f, bucketStart, hm, hclosed, heff.floor, hlt, hts, ?_, ?_⟩
      · rcases hend with rfl | rfl | rfl <;> exact hfed
      · rcases hend with rfl | rfl | rfl
        · exact .inr hhist
        · exact .inr hhist
        · exact .inl rfl

/-! ## Every chronological run -/

/-- What was sealed was behind some tick of its symbol. -/
def Behind (bucketSeconds : Int) (s : State K κ) : Prop :=
  ∀ f ∈ s.fed, ∃ tick ∈ s.ticks, tick.symbol = f.1 ∧
    ∃ b, floorToBucket tick.tsEvent bucketSeconds = some b ∧ f.2.ts < b * 1000000

theorem Behind.step (h : Behind cfg.bucketSeconds s) {a : Action K κ} (hstep : step cfg s a = some t) :
    Behind cfg.bucketSeconds t := by
  by_cases ha : ∃ k tick o, a = .tick k tick o
  · obtain ⟨k, tick, o, rfl⟩ := ha
    obtain ⟨hticks, ⟨hfed, -⟩ | ⟨_, closed, f, b, -, -, hfloor, hlt, hts, hfed, -⟩⟩ :=
      logs_stepTick hstep
    · intro f hf
      rw [hfed] at hf
      obtain ⟨tick', htick', hrest⟩ := h f hf
      exact ⟨tick', hticks ▸ List.mem_append_left _ htick', hrest⟩
    · intro g hg
      rw [hfed] at hg
      rcases List.mem_append.mp hg with hg | hg
      · obtain ⟨tick', htick', hrest⟩ := h g hg
        exact ⟨tick', hticks ▸ List.mem_append_left _ htick', hrest⟩
      · rw [List.mem_singleton.mp hg]
        refine ⟨tick, hticks ▸ List.mem_append_right _ (List.mem_singleton_self _), rfl, b, hfloor, ?_⟩
        show f.ts < b * 1000000
        omega
  · have hquiet := quiet_step hstep fun k tick o heq => ha ⟨k, tick, o, heq⟩
    unfold Behind
    rw [hquiet.fed, hquiet.ticks]
    exact h

omit [DecidableEq κ] [FloatMath K] [LT K] [DecidableLT K] in
/-- A tick in order is past every bar of its symbol. -/
theorem Behind.lt_tick (h : Behind cfg.bucketSeconds s) {tick : Tick K} {o : Outcome} {b : Int}
    (hord : Chronological s (.tick k tick o)) (hfloor : floorToBucket tick.tsEvent cfg.bucketSeconds = some b)
    {f : String × SealedBar K} (hf : f ∈ s.fed) (hsymbol : f.1 = tick.symbol) : f.2.ts < b * 1000000 := by
  obtain ⟨earlier, hmem, hsame, b', hfloor', hlt⟩ := h f hf
  have hle : b' ≤ b := floorToBucket_mono cfg.bucketSeconds_pos (hord earlier hmem (hsame.trans hsymbol))
    hfloor' hfloor
  omega

theorem behind_of_reachable {marker : Option String}
    (h : ((system cfg κ marker).guard Chronological).Reachable s) : Behind cfg.bucketSeconds s :=
  h.of_guard.invariant (fun _ hs => by cases hs; exact fun _ hf => (nomatch hf))
    fun _ _ _ hs hstep => hs.step hstep

/-! ## Runs whose leaderships start settled -/

/-- What holds between two steps: the bars went forward, only they were written, and the leader is ahead of
them. -/
structure Forward (s : State K κ) : Prop where
  increasing : s.fed.Pairwise fun f g => f.1 = g.1 → f.2.ts < g.2.ts
  written : (s.history.map fun b => (b.1, b.2.bucket * 1000000)).Sublist
    (s.fed.map fun f => (f.1, f.2.ts))
  ahead : ∀ k phase m, s.leader = some (k, phase) → s.process k = some m →
    ∀ symbol, Ahead s.fed symbol (m.pipeline.state symbol)

omit [DecidableEq κ] [FloatMath K] [LT K] [DecidableLT K] in
theorem ahead_new (fed : List (String × SealedBar K)) (symbol : String) :
    Ahead fed symbol (.new : SymbolState K) := fun _ hacc => (nomatch hacc)

omit [DecidableEq κ] [FloatMath K] [LT K] [DecidableLT K] in
theorem Forward.quiet {a : Action K κ} (h : Forward s) (hq : Quiet s t a) (hsettled : Settled s a) :
    Forward t := by
  refine ⟨hq.fed ▸ h.increasing, ?_, fun k phase m hlead hm symbol => ?_⟩
  · rw [hq.history, hq.fed]
    exact h.written
  · rw [hq.fed]
    rcases hq.process k m hm with hnew | ⟨m₀, hm₀, hstate⟩
    · rw [hnew]
      exact ahead_new s.fed symbol
    · rw [hstate]
      rcases hq.leader k phase hlead with ⟨phase', hlead'⟩ | rfl
      · exact h.ahead k phase' m₀ hlead' hm₀ symbol
      · exact hsettled m₀ hm₀ symbol

/-- Once the leader has handled a tick, the tick's bucket or a later one is open. -/
theorem Forward.ahead_handle {m : Member K} {pipeline : IngestPipeline K} {tick : Tick K} {o : Outcome}
    {w : Written K} (h : Forward s) (hbehind : Behind cfg.bucketSeconds s)
    (hord : Chronological s (.tick k tick o)) (hm : s.leads k .leading = some m)
    (hhandle : m.pipeline.handle cfg tick = some (pipeline, some w)) (symbol : String) :
    Ahead (s.fed ++ (w.bar.map fun b => (tick.symbol, b.2)).toList) symbol (pipeline.state symbol) := by
  obtain ⟨hlead, hproc⟩ := leads_eq_some_iff.mp hm
  obtain ⟨bucketStart, acc, acc', heff⟩ := IngestPipeline.effect_of_handle hhandle
  intro open' hopen f hf hsymbol
  by_cases hother : symbol = tick.symbol
  · subst hother
    rw [heff.after] at hopen
    cases hopen
    rcases heff.bucket_after with ⟨hkept, hsame, hbar⟩ | hsame
    · rw [hbar] at hf
      rw [hsame]
      exact h.ahead k .leading m hlead hproc _ acc hkept f (by simpa using hf) hsymbol
    · rw [hsame]
      rcases List.mem_append.mp hf with hf | hf
      · exact hbehind.lt_tick hord heff.floor hf hsymbol
      · rcases heff.bar_cases with hbar | ⟨closed, g, -, hlt, hbar, hts⟩
        · rw [hbar] at hf
          cases hf
        · rw [hbar] at hf
          rw [List.mem_singleton.mp hf]
          show g.ts < bucketStart * 1000000
          omega
  · rw [heff.others symbol hother] at hopen
    refine h.ahead k .leading m hlead hproc symbol open' hopen f ?_ hsymbol
    rcases List.mem_append.mp hf with hf | hf
    · exact hf
    · obtain ⟨b, -, hb⟩ := Option.map_eq_some_iff.mp (Option.mem_toList.mp hf)
      exact absurd (hsymbol.symm.trans (congrArg Prod.fst hb).symm) hother

/-- **A tick keeps the bars going forward.** -/
theorem Forward.tick {tick : Tick K} {o : Outcome} (h : Forward s) (hbehind : Behind cfg.bucketSeconds s)
    (hord : Chronological s (.tick k tick o)) (hstep : stepTick cfg s k tick o = some t) : Forward t := by
  have hahead : ∀ k' phase m', t.leader = some (k', phase) → t.process k' = some m' →
      ∀ symbol, Ahead t.fed symbol (m'.pipeline.state symbol) := by
    obtain ⟨m, pipeline, hm, ⟨-, rfl⟩ | ⟨w, fed, hhandle, rfl, hend⟩⟩ := stepTick_cases hstep
    · exact h.ahead
    · have hlead := (leads_eq_some_iff.mp hm).1
      have hgone : ∀ u : State K κ, u.leader = some (k, .leading) → ∀ l, (u.kill k).leader ≠ some l := by
        intro u hu l hl
        obtain ⟨hsome, hne⟩ := Option.filter_eq_some_iff.mp hl
        rw [hu] at hsome
        cases hsome
        simp at hne
      intro k' phase m' hlead' hm' symbol
      rcases hend with rfl | rfl | rfl
      · have heq : some (k, Phase.leading) = some (k', phase) := hlead.symm.trans hlead'
        cases heq
        have hput : (if k = k then some { m with pipeline } else s.process k) = some m' := hm'
        rw [if_pos rfl] at hput
        cases hput
        exact h.ahead_handle hbehind hord hm hhandle symbol
      · exact absurd hlead' (hgone _ hlead _)
      · exact absurd hlead' (hgone _ hlead _)
  obtain ⟨-, ⟨hfed, hhist⟩ | ⟨m, closed, f, b, hm, hclosed, -, -, hts, hfed, hhist⟩⟩ := logs_stepTick hstep
  · refine ⟨hfed ▸ h.increasing, ?_, hahead⟩
    rw [hhist, hfed]
    exact h.written
  · obtain ⟨hlead, hproc⟩ := leads_eq_some_iff.mp hm
    refine ⟨?_, ?_, hahead⟩
    · rw [hfed]
      refine List.pairwise_append.mpr ⟨h.increasing, List.pairwise_singleton _ _, fun g hg g' hg' hsame => ?_⟩
      rw [List.mem_singleton.mp hg'] at hsame ⊢
      show g.2.ts < f.ts
      rw [hts]
      exact h.ahead k .leading m hlead hproc _ closed hclosed g hg hsame
    · rw [hfed, List.map_append]
      rcases hhist with hhist | hhist
      · rw [hhist]
        exact h.written.trans (List.sublist_append_left _ _)
      · rw [hhist, List.map_append]
        refine h.written.append ?_
        rw [List.map_singleton, List.map_singleton, hts]
        exact List.Sublist.refl _

theorem forward_of_reachable {marker : Option String}
    (h : ((system cfg κ marker).guard fun s a => Chronological s a ∧ Settled s a).Reachable s) :
    Forward s := by
  induction h with
  | init hs =>
    cases hs
    exact ⟨List.Pairwise.nil, List.Sublist.slnil, fun _ _ _ hlead => (nomatch hlead)⟩
  | @step s t a hs hstep ih =>
    obtain ⟨hstep, hord, hsettled⟩ := hstep
    by_cases ha : ∃ k tick o, a = .tick k tick o
    · obtain ⟨k, tick, o, rfl⟩ := ha
      exact ih.tick (behind_of_reachable (hs.guard_mono fun _ _ h => h.1)) hord hstep
    · exact ih.quiet (quiet_step hstep fun k tick o heq => ha ⟨k, tick, o, heq⟩) hsettled

omit [DecidableEq κ] [FloatMath K] [LT K] [DecidableLT K] in
theorem Forward.sealedOnce (h : Forward s) : SealedOnce s := by
  intro symbol
  have hsame : ∀ {β : Type} {l : List (String × β)} (r : β → β → Prop),
      (l.Pairwise fun f g => f.1 = g.1 → r f.2 g.2) →
        (l.filter fun f => f.1 = symbol).Pairwise fun f g => r f.2 g.2 := by
    intro β l r hl
    refine (hl.filter _).imp_of_mem fun hf hg hr => hr ?_
    have hf := (List.mem_filter.mp hf).2
    have hg := (List.mem_filter.mp hg).2
    rw [of_decide_eq_true hf, of_decide_eq_true hg]
  refine ⟨hsame (fun f g : SealedBar K => f.ts < g.ts) h.increasing, hsame (fun b c : Bar K => b.bucket < c.bucket) ?_⟩
  have hmap : (s.fed.map fun f => (f.1, f.2.ts)).Pairwise fun f g => f.1 = g.1 → f.2 < g.2 :=
    List.pairwise_map.mpr h.increasing
  refine (List.pairwise_map.mp (hmap.sublist h.written)).imp fun hlt heq => ?_
  have hts := hlt heq
  dsimp only at hts
  omega

/-! ## A bucket that was kept too long -/

/-- **A leader that is not ahead** seals an old bar with the first tick of the symbol that it handles. -/
theorem Behind.not_sealedOnce {m : Member K} {tick : Tick K} {o : Outcome}
    (h : Behind cfg.bucketSeconds s) (hm : s.leads k .leading = some m)
    (hkept : ¬ Ahead s.fed tick.symbol (m.pipeline.state tick.symbol)) (hpass : m.pipeline.held tick = false)
    (hord : Chronological s (.tick k tick o)) (hstep : stepTick cfg s k tick o = some t) :
    ¬ SealedOnce t := by
  unfold Ahead at hkept
  push Not at hkept
  obtain ⟨acc, hacc, f, hf, hsymbol, hle⟩ := hkept
  have hacc : (m.pipeline.state tick.symbol).bucket = some acc := hacc
  obtain ⟨m', pipeline, hm', ⟨hdrop, -⟩ | ⟨w, fed, hhandle, rfl, hend⟩⟩ := stepTick_cases hstep
  · rw [hm] at hm'
    cases hm'
    rw [(IngestPipeline.handle_dropped hdrop).2] at hpass
    cases hpass
  · rw [hm] at hm'
    cases hm'
    obtain ⟨bucketStart, acc₁, acc', heff⟩ := IngestPipeline.effect_of_handle hhandle
    have hlt : f.2.ts < bucketStart * 1000000 := h.lt_tick hord heff.floor hf hsymbol
    have hclosed : ∃ g, w.bar = some (acc.sealBar, g) ∧ g.ts = acc.bucket * 1000000 := by
      rcases heff.kept_or_opened with ⟨hkept, hge, -⟩ | ⟨-, ⟨hnone, -⟩ | ⟨closed, g, hkept, -, hbar, hts⟩⟩
      · -- the tick is past `f`, so it does not go into `acc`
        rw [hacc] at hkept
        cases hkept
        omega
      · rw [hacc] at hnone
        cases hnone
      · rw [hacc] at hkept
        cases hkept
        exact ⟨g, hbar, hts⟩
    obtain ⟨g, hbar, hts⟩ := hclosed
    have hfed : t.fed = s.fed ++ [(tick.symbol, g)] := by
      have hadd : s.fed ++ (w.bar.map fun b => (tick.symbol, b.2)).toList = s.fed ++ [(tick.symbol, g)] := by
        rw [hbar]
        rfl
      rcases hend with rfl | rfl | rfl <;> exact hadd
    intro honce
    have hforward := (honce tick.symbol).1
    rw [hfed, List.filter_append] at hforward
    have hlt : f.2.ts < g.ts :=
      (List.pairwise_append.mp hforward).2.2 f (List.mem_filter.mpr ⟨hf, by simpa using hsymbol⟩)
        (tick.symbol, g) (List.mem_filter.mpr ⟨List.mem_singleton_self _, by simp⟩)
    omega

/--
**Sealing across leaderships.**

The ticks of each symbol come in the order of their times. Over any processes, leaderships, crashes and
switches, as long as no process gets the lead with a bucket open that is not later than what was sealed of its
symbol: the bars that are fed to a detector, and those in the history, have increasing times. Where the leader
does have such a bucket open, its next tick of the symbol breaks that.
-/
theorem sealed_once (cfg : IngestConfig K) (marker : Option String) :
    (∀ s, ((system cfg κ marker).guard fun s a => Chronological s a ∧ Settled s a).Reachable s →
        SealedOnce s) ∧
      ∀ s, ((system cfg κ marker).guard Chronological).Reachable s →
        ∀ k m tick o t, s.leads k .leading = some m →
          ¬ Ahead s.fed tick.symbol (m.pipeline.state tick.symbol) → m.pipeline.held tick = false →
          Chronological s (.tick k tick o) → step cfg s (.tick k tick o) = some t → ¬ SealedOnce t :=
  ⟨fun _ hs => (forward_of_reachable hs).sealedOnce,
    fun _ hs _ _ _ _ _ hm hkept hpass hord hstep =>
      (behind_of_reachable hs).not_sealedOnce hm hkept hpass hord hstep⟩

/-- A tick at twice the price. -/
def dearerAt (k minute : Nat) : Action ℚ Nat := .tick k { sampleTick minute with bid := 2, ask := 2 } .applied

/-- The first process opens minute 0; the second takes over and seals it, at the price it saw. -/
def handedOver : List (Action ℚ Nat) :=
  [.start 0 "tiingo", .start 1 "tiingo"] ++ lead 0 ++ [tickAt 0 0, .handBack 0] ++ lead 1 ++
    [dearerAt 1 0, dearerAt 1 1]

/-- The first process leads again, with its minute 0 still open. -/
def ledAgain : List (Action ℚ Nat) := handedOver ++ [.handBack 1] ++ lead 0

def stateAfter (as : List (Action ℚ Nat)) : Option (State ℚ Nat) :=
  Lts.exec (step sampleConfig) (.idle (some "tiingo")) as

/-- Minute 0 is written to the history twice, as two bars that differ, and fed to a detector twice. -/
theorem sealed_twice :
    ∃ s, ((system sampleConfig Nat (some "tiingo")).guard Chronological).Reachable s ∧ ¬ SealedOnce s ∧
      s.history.map (fun b => (b.1, b.2.bucket, b.2.close)) = [("EURUSD", 0, 2), ("EURUSD", 0, 1)] ∧
      s.fed.map (fun f => (f.1, f.2.ts)) = [("EURUSD", 0), ("EURUSD", 0)] := by
  have hrun : stateAfter (ledAgain ++ [tickAt 0 2]) = some _ :=
    (Option.some_get (show (stateAfter (ledAgain ++ [tickAt 0 2])).isSome by decide +kernel)).symm
  refine ⟨_, Lts.reachable_of_meets (.init rfl) ?_ hrun, fun h => ?_, ?_, ?_⟩
  · decide +kernel
  · have hforward := (h "EURUSD").2
    revert hforward
    decide +kernel
  · decide +kernel
  · decide +kernel

theorem settled_of_unfed {s : State ℚ Nat} {a : Action ℚ Nat}
    (h : (match a with | .acquire _ => s.fed.isEmpty | _ => true) = true) : Settled s a := by
  cases a with
  | acquire k =>
    intro m _ symbol acc _ f hf
    rw [List.isEmpty_iff.mp h] at hf
    cases hf
  | _ => trivial

/-- The first process leads with the bucket that the second has sealed. -/
def keptOpen : State ℚ Nat := (stateAfter ledAgain).get (by decide +kernel)

def keptMember : Member ℚ := (keptOpen.leads 0 .leading).get (by decide +kernel)

/-- The takeover seals minute 0 once. With its next tick the first process seals it again. -/
theorem sealed_once_handedOver :
    (∃ s, stateAfter handedOver = some s ∧ SealedOnce s ∧ s.history.length = 1) ∧
      ∃ t, step sampleConfig keptOpen (tickAt 0 2) = some t ∧ ¬ SealedOnce t := by
  have hrun : stateAfter handedOver = some _ :=
    (Option.some_get (show (stateAfter handedOver).isSome by decide +kernel)).symm
  -- nothing is sealed yet when the second process gets the lead
  have hmeets : Lts.Meets (step sampleConfig)
      (fun s a => Chronological s a ∧
        (match a with | .acquire _ => s.fed.isEmpty | _ => true) = true)
      (.idle (some "tiingo")) handedOver := by decide +kernel
  have hreach : ((system sampleConfig Nat (some "tiingo")).guard fun s a =>
      Chronological s a ∧ Settled s a).Reachable _ :=
    Lts.reachable_of_meets (.init rfl) (hmeets.mono fun _ _ h => ⟨h.1, settled_of_unfed h.2⟩) hrun
  have hagain : ((system sampleConfig Nat (some "tiingo")).guard Chronological).Reachable keptOpen :=
    Lts.reachable_of_meets (.init rfl) (by decide +kernel) (Option.some_get _).symm
  have hleads : keptOpen.leads 0 .leading = some keptMember := (Option.some_get _).symm
  have hkept : ¬ Ahead keptOpen.fed "EURUSD" (keptMember.pipeline.state "EURUSD") := by
    unfold Ahead
    decide +kernel
  have hstep : step sampleConfig keptOpen (tickAt 0 2) = some _ :=
    (Option.some_get (show (step sampleConfig keptOpen (tickAt 0 2)).isSome by decide +kernel)).symm
  have honce := (sealed_once sampleConfig (some "tiingo")).1 _ hreach
  have hagain_not := (sealed_once sampleConfig (some "tiingo")).2 _ hagain _ _ _ _ _ hleads hkept
    (by decide +kernel) (by decide +kernel) hstep
  exact ⟨⟨_, hrun, honce, by decide +kernel⟩, _, hstep, hagain_not⟩

end FxTracker.Ingestor.Feed
