import FxTracker.Ingestor.Numbering

/-!
# One provider throughout

Nothing is archived, so what a new leader restores is the snapshot written last, or nothing where no bar of
the symbol was ever sealed.

* `Single.step` — every step keeps the snapshot of a symbol at the end of the symbol's log
* `transitions_chain` — the transitions of a symbol form one chain, over any number of leaders
-/

namespace FxTracker.Ingestor

open Alerts

variable {K : Type}

/-- What is known where everything is. -/
theorem knows_standing (cooldown : Int) :
    Knows (K := K) id (Standing.Continues cooldown) cooldown where
  ok s s' tr hview hc := by
    cases hview
    exact hc
  next s s' tr hview := by
    cases hview
    rfl

variable [LE K] [DecidableLE K] {setup : Setup K} {κ : Type} {provider : Provider}
  {s t : State setup κ} {a : Action K κ}

/-- Nothing is archived, and what is live belongs to the provider. -/
structure Unarchived (provider : Provider) (store : Keyspace (Stored K)) : Prop where
  archives : ∀ p symbol, store.value (.archive p .regime symbol) = none
  marker : store.marker = some provider.name ∨
    store.marker = none ∧ ∀ symbol, store.value (.state .regime symbol) = none

/-- Every process is of one provider. -/
def OfProvider (provider : Provider) : State setup κ → Action K κ → Prop
  | _, .start _ p _ => p = provider
  | _, _ => True

/-- The snapshot of a symbol is at the end of its log. Without one there is no log, and no process has
seen a transition. -/
def AtEnd (s : State setup κ) (symbol : String) : Prop :=
  (∃ d, s.store.value (.state .regime symbol) = some (.snapshot d) ∧
    d.trigger.standing = standingOf s.alerts symbol) ∨
  s.store.value (.state .regime symbol) = none ∧ standingOf s.alerts symbol = .initial ∧
    ∀ k p, s.process k = some p → (p.detector symbol).trigger.standing = .initial

theorem AtEnd.of_none {symbol : String} (h : AtEnd s symbol)
    (hlive : s.store.value (.state .regime symbol) = none) : standingOf s.alerts symbol = .initial ∧
      ∀ k p, s.process k = some p → (p.detector symbol).trigger.standing = .initial := by
  rcases h with ⟨d, hd, -⟩ | ⟨-, h⟩
  · rw [hlive] at hd
    cases hd
  · exact h

structure Single (provider : Provider) (s : State setup κ) : Prop where
  unarchived : Unarchived provider s.store
  processes : ∀ k p, s.process k = some p → p.provider = provider
  adopted : ∀ k φ, s.leader = some (k, φ) → φ ≠ .elected → s.store.marker = some provider.name
  atEnd : ∀ symbol, AtEnd s symbol

theorem Fresh.single (h : Fresh s) (hun : Unarchived provider s.store) : Single provider s where
  unarchived := hun
  processes k p hp := by
    rw [h.process] at hp
    cases hp
  adopted k φ hlead := by
    rw [h.leader] at hlead
    cases hlead
  atEnd symbol := by
    have hempty : standingOf s.alerts symbol = .initial := by
      rw [h.alerts]
      rfl
    cases hv : s.store.value (.state .regime symbol) with
    | none =>
      refine .inr ⟨hv, hempty, fun k p hp => ?_⟩
      rw [h.process] at hp
      cases hp
    | some v =>
      obtain ⟨d, rfl, hstanding⟩ := h.stored _ symbol rfl v hv
      exact .inl ⟨d, hv, hstanding.trans hempty.symm⟩

/-! ## One step -/

omit [LE K] [DecidableLE K] in
/-- **Adopting the one provider** moves nothing. -/
theorem adoptProvider_unarchived {store : Keyspace (Stored K)} {symbols : List String}
    (h : Unarchived provider store) (hnd : symbols.Nodup) :
    Unarchived provider (adoptProvider store symbols provider.name).1 ∧
      (∀ symbol, (adoptProvider store symbols provider.name).1.value (.state .regime symbol) =
        store.value (.state .regime symbol)) ∧
      ∀ r, (adoptProvider store symbols provider.name).2 = .ok r →
        (adoptProvider store symbols provider.name).1.marker = some provider.name := by
  rcases h.marker with hmarker | ⟨hmarker, hlive⟩
  · rw [adoptProvider_self hmarker]
    exact ⟨h, fun _ => rfl, fun _ _ => hmarker⟩
  · have hnone : store.marker = (none : Option Provider).map Provider.name := hmarker
    have hother : (none : Option Provider) ≠ some provider := fun heq => (nomatch heq)
    have harchives : ∀ p symbol,
        (adoptProvider store symbols provider.name).1.value (.archive p .regime symbol) = none := by
      intro p symbol
      refine Option.eq_none_iff_forall_ne_some.mpr fun v hv => ?_
      rcases archive_adoptProvider hnd hnone hv with hold | ⟨-, hold⟩
      · rw [h.archives] at hold
        cases hold
      · rw [hlive] at hold
        cases hold
    rcases adoptProvider_cases hnd hnone hother with ⟨-, e, he⟩ | ⟨-, r, hr⟩
    · rw [he]
      exact ⟨h, fun _ => rfl, fun _ hok => (nomatch hok)⟩
    · refine ⟨⟨harchives, .inl ?_⟩, fun symbol => ?_, fun _ _ => ?_⟩
      · rw [hr]
      · rw [hr, hlive]
        dsimp only
        by_cases hs : symbol ∈ symbols
        · rw [adopted_state_mem hs, h.archives]
        · exact (adopted_not_mem hs).trans (hlive symbol)
      · rw [hr]

section Frames

variable [DecidableEq κ]

theorem AtEnd.kill {symbol : String} (h : AtEnd s symbol) (k : κ) : AtEnd (s.kill k) symbol := by
  refine h.imp_right ?_
  rintro ⟨hlive, hinitial, hkept⟩
  exact ⟨hlive, hinitial, fun k' p hp => hkept k' p (process_kill_some hp)⟩

theorem Single.kill (h : Single provider s) (k : κ) : Single provider (s.kill k) where
  unarchived := h.unarchived
  processes k' p hp := h.processes k' p (process_kill_some hp)
  adopted k' φ hlead := h.adopted k' φ (leader_kill hlead).1
  atEnd symbol := (h.atEnd symbol).kill k

/-- A process in the place of another that has seen no more where nothing is stored. -/
theorem Single.setProcess (h : Single provider s) (k : κ) {p : Process setup}
    (hp : p.provider = provider) (hseen : ∀ symbol, s.store.value (.state .regime symbol) = none →
      (p.detector symbol).trigger.standing = .initial) :
    Single provider (s.setProcess k (some p)) where
  unarchived := h.unarchived
  processes k' p' hp' := by
    rcases process_setProcess_some hp' with ⟨-, heq⟩ | hold
    · cases heq
      exact hp
    · exact h.processes k' p' hold
  adopted := h.adopted
  atEnd symbol := by
    refine (h.atEnd symbol).imp_right ?_
    rintro ⟨hlive, hinitial, hkept⟩
    refine ⟨hlive, hinitial, fun k' p' hp' => ?_⟩
    rcases process_setProcess_some hp' with ⟨-, heq⟩ | hold
    · cases heq
      exact hseen symbol hlive
    · exact hkept k' p' hold

end Frames

theorem Single.lead (h : Single provider s) {k : κ} {φ : Phase}
    (hmarker : φ ≠ .elected → s.store.marker = some provider.name) :
    Single provider { s with leader := some (k, φ) } where
  unarchived := h.unarchived
  processes := h.processes
  adopted k' φ' hlead hφ := by
    cases hlead
    exact hmarker hφ
  atEnd := h.atEnd

theorem Single.adopt (h : Single provider s) {p : Process setup} {k : κ} (hp : s.process k = some p) :
    Single provider { s with store := (adoptProvider s.store p.symbols p.provider.name).1 } := by
  obtain ⟨hun, hlive, -⟩ := adoptProvider_unarchived h.unarchived p.nodup
  rw [h.processes k p hp]
  refine ⟨hun, h.processes, fun k' φ hlead hφ => ?_, fun symbol => ?_⟩
  · have hmarker := h.adopted k' φ hlead hφ
    rw [adoptProvider_self hmarker]
    exact hmarker
  · unfold AtEnd
    dsimp only
    rw [hlive]
    exact h.atEnd symbol

variable [LT K] [DecidableLT K] [FloatMath K]

/-- **A new leader's detectors** come back where the log ends. -/
theorem standing_restoreDetectors (h : Single provider s) {k : κ} {p : Process setup}
    (hp : s.process k = some p) (scanned : List (String × String)) {symbol : String}
    (hmem : symbol ∈ p.symbols) :
    (restoreDetectors s.store p.symbols scanned p.detector symbol).trigger.standing =
      standingOf s.alerts symbol := by
  have hback : (restoreDetector s.store symbol (p.detector symbol)).trigger.standing =
      standingOf s.alerts symbol := by
    rcases standing_restoreDetector s.store symbol (p.detector symbol) with
      ⟨d, hd, hstanding⟩ | ⟨hnone, hsame⟩
    · rcases h.atEnd symbol with ⟨d', hd', hend⟩ | ⟨hlive, -⟩
      · cases hd.symm.trans hd'
        exact hstanding.trans hend
      · rw [hlive] at hd
        cases hd
    · rw [hsame]
      rcases h.atEnd symbol with ⟨d', hd', -⟩ | ⟨-, hinitial, hkept⟩
      · exact absurd hd' (hnone d')
      · exact (hkept k p hp).trans hinitial.symm
  unfold restoreDetectors
  rw [if_pos hmem]
  obtain ⟨seq, heq, -, -, hfrom⟩ := foldl_liftSeq symbol s.store scanned
    (restoreDetector s.store symbol (p.detector symbol))
  rw [heq, ← hback]
  rcases hfrom with rfl | ⟨p', d, hd, -⟩
  · rfl
  · rw [h.unarchived.archives] at hd
    cases hd

/-- **A sealed bar** stores a snapshot at the end of the log it extends. -/
theorem Single.commit (h : Single provider s) {k : κ} {p : Process setup} {symbol : String}
    {d : RegimeDetector K} {bar : SealedBar K} {o : Option (RegimeTransition K)} {φ : Phase}
    (hlead : s.leader = some (k, φ)) (hφ : φ ≠ .elected)
    (hview : (p.detector symbol).trigger.standing = standingOf s.alerts symbol)
    (hup : (p.detector symbol).update bar = some (d, o)) : Single provider (s.commit symbol d o) := by
  obtain ⟨hsymbol, -, hstanding⟩ := update_facts (p.built symbol) hup
  refine ⟨⟨fun p' symbol' => h.unarchived.archives p' symbol', .inl (h.adopted k φ hlead hφ)⟩,
    h.processes, h.adopted, fun symbol' => ?_⟩
  by_cases heq : symbol' = symbol
  · subst heq
    refine .inl ⟨d.snapshot, if_pos rfl, ?_⟩
    show d.trigger.standing = standingOf (s.alerts ++ o.toList) symbol'
    rw [standingOf_append hsymbol, if_pos rfl, hstanding, hview]
  · have hother : (s.commit symbol d o).store.value (.state .regime symbol') =
        s.store.value (.state .regime symbol') := if_neg fun hkey => heq (by cases hkey; rfl)
    have hsame : standingOf (s.commit symbol d o).alerts symbol' = standingOf s.alerts symbol' :=
      (standingOf_append hsymbol symbol').trans (if_neg heq)
    unfold AtEnd
    rw [hother, hsame]
    exact h.atEnd symbol'

/-- **A step keeps the snapshots at the end of the logs.** -/
theorem Single.step [DecidableEq κ] (h : Single provider s)
    (hled : Led id (Standing.Continues setup.trigger.cooldown) s) (hstep : Step setup s a t)
    (hone : OfProvider provider s a) : Single provider t := by
  cases hstep with
  | @start k p symbols hidle hnd =>
    exact h.setProcess k hone fun symbol hlive => rfl
  | @acquire k p hp hfree => exact h.lead fun hφ => absurd rfl hφ
  | @adopt k p r hp hlead hok =>
    refine (h.adopt hp).lead (k := k) fun _ => ?_
    rw [h.processes k p hp] at hok ⊢
    exact (adoptProvider_unarchived h.unarchived p.nodup).2.2 r hok
  | @adoptUnheard k p hp hlead => exact (h.adopt hp).kill k
  | @restore k p scanned hp hlead hscan =>
    have hseen : ∀ symbol, s.store.value (.state .regime symbol) = none →
        ((p.rehydrated s.store scanned).detector symbol).trigger.standing = .initial := by
      intro symbol hlive
      obtain ⟨hinitial, hkept⟩ := (h.atEnd symbol).of_none hlive
      by_cases hmem : symbol ∈ p.symbols
      · exact (standing_restoreDetectors h hp scanned hmem).trans hinitial
      · have hsame : (p.rehydrated s.store scanned).detector symbol = p.detector symbol := if_neg hmem
        rw [hsame]
        exact hkept k p hp
    have hset : Single provider (s.setProcess k (some (p.rehydrated s.store scanned))) :=
      h.setProcess k (h.processes k p hp) hseen
    exact hset.lead fun _ => h.adopted k .adopted hlead (by decide)
  | @sealBar k p symbol bar d o hp hlead hmem hup =>
    have hcommit := h.commit hlead (by decide) (hled.leading k p hlead hp symbol hmem) hup
    refine hcommit.setProcess k (h.processes k p hp) fun symbol' hlive => ?_
    -- what was just sealed is stored
    have hne : symbol' ≠ symbol := by
      rintro rfl
      have hstored : (s.commit symbol' d o).store.value (.state .regime symbol') =
          some (.snapshot d.snapshot) := if_pos rfl
      rw [hstored] at hlive
      cases hlive
    show (if symbol' = symbol then d else p.detector symbol').trigger.standing = .initial
    rw [if_neg hne]
    exact ((hcommit.atEnd symbol').of_none hlive).2 k p hp
  | @sealBarUnheard k p symbol bar d o hp hlead hmem hup =>
    exact (h.commit hlead (by decide) (hled.leading k p hlead hp symbol hmem) hup).kill k
  | @handBack k hlead =>
    exact ⟨h.unarchived, h.processes, fun _ _ hlead' => (nomatch hlead'), h.atEnd⟩
  | @crash k => exact h.kill k
  | @touch key value hkey =>
    have hsame : ∀ k, k.detectorOf ≠ none →
        (if k = key then value else s.store.value k) = s.store.value k := by
      intro k hk
      refine if_neg ?_
      rintro rfl
      exact hk hkey
    have hlive : ∀ symbol, (if Key.state .regime symbol = key then value else
        s.store.value (.state .regime symbol)) = s.store.value (.state .regime symbol) :=
      fun symbol => hsame _ (by simp [Key.detectorOf])
    refine ⟨⟨fun p symbol => ?_, ?_⟩, h.processes, h.adopted, fun symbol => ?_⟩
    · have hkey : (Key.archive p .regime symbol).detectorOf ≠ none := by simp [Key.detectorOf]
      exact (hsame _ hkey).trans (h.unarchived.archives p symbol)
    · refine h.unarchived.marker.imp_right ?_
      rintro ⟨hmarker, hnone⟩
      exact ⟨hmarker, fun symbol => (hlive symbol).trans (hnone symbol)⟩
    · unfold AtEnd
      dsimp only
      rw [hlive]
      exact h.atEnd symbol

/-! ## Every run -/

variable (setup κ) in
/-- The ingestors of one provider, with nothing archived when they start. -/
def singleProvider [DecidableEq κ] (provider : Provider) : Lts (State setup κ) (Action K κ) where
  init s := Fresh s ∧ Unarchived provider s.store
  step s a t := Step setup s a t ∧ OfProvider provider s a

theorem single_of_reachable [DecidableEq κ] (h : (singleProvider setup κ provider).Reachable s) :
    Single provider s ∧ Led id (Standing.Continues setup.trigger.cooldown) s := by
  induction h with
  | init hs => exact ⟨hs.1.single hs.2, hs.1.led⟩
  | @step u _ a _ hstep ih =>
    obtain ⟨hsingle, hled⟩ := ih
    refine ⟨hsingle.step hled hstep.1 hstep.2, hled.step (knows_standing _) hstep.1 ?_⟩
    cases a with
    | restore k scanned =>
      exact fun p hp symbol hmem => standing_restoreDetectors hsingle hp scanned hmem
    | _ => trivial

/-- **The transitions of a symbol form one chain** with one provider throughout: over any number of
leaders, crashes and hand-backs they are numbered 1, 2, 3, …, the first starts from normal, each starts in
the regime the one before ended in, and any two escalations are at least `cooldown` apart. -/
theorem transitions_chain [DecidableEq κ] (h : (singleProvider setup κ provider).Reachable s)
    (symbol : String) :
    (∀ i (hi : i < (logOf s.alerts symbol).length), (logOf s.alerts symbol)[i].seq = i + 1) ∧
      (∀ tr ∈ (logOf s.alerts symbol).head?, tr.oldRegime = .normal) ∧
      ((logOf s.alerts symbol).IsChain fun tr tr' => tr'.oldRegime = tr.newRegime) ∧
      ((logOf s.alerts symbol).filter (·.isEscalation)).Pairwise fun tr tr' =>
        setup.trigger.cooldown ≤ |tr'.ts - tr.ts| := by
  have hchained : Chained setup.trigger.cooldown (logOf s.alerts symbol) :=
    (single_of_reachable h).2.log symbol
  exact ⟨hchained.seq_getElem, hchained.head, hchained.regimes, hchained.spaced⟩

/-- One detector that escalates on a bar of volatility 1, and nothing archived. -/
def loneState : State sampleSetup Nat :=
  { sampleState with
    store :=
      { marker := some "tiingo"
        value := fun k => if k = .state .regime "EURUSD" then some (.snapshot readySnapshot) else none } }

theorem fresh_loneState : Fresh loneState where
  alerts := rfl
  process _ := rfl
  leader := rfl
  recorded := ⟨some tiingo, rfl⟩
  stored k symbol _ v hv := by
    unfold loneState at hv
    dsimp only at hv
    split at hv
    · exact ⟨readySnapshot, (Option.some.inj hv).symm, rfl⟩
    · cases hv

def loneSealed : RegimeDetector ℚ × Option (RegimeTransition ℚ) :=
  ((loneState.ledDetector tiingo ["EURUSD"] [] "EURUSD").update (RegimeDetector.sampleBar 1)).get
    (by decide +kernel)

/-- After an escalation and a crash. -/
def loneEscalated : State sampleSetup Nat :=
  loneState.stint 0 tiingo ["EURUSD"] (List.nodup_singleton "EURUSD") [] "EURUSD" loneSealed.1 loneSealed.2

theorem reachable_loneEscalated : (singleProvider sampleSetup Nat tiingo).Reachable loneEscalated := by
  have hM : ∀ s a t, Step sampleSetup s a t → OfProvider tiingo s a →
      (singleProvider sampleSetup Nat tiingo).step s a t := fun _ _ _ hs ho => ⟨hs, ho⟩
  have hinit : (singleProvider sampleSetup Nat tiingo).init loneState :=
    ⟨fresh_loneState, ⟨fun _ _ => rfl, .inl rfl⟩⟩
  have hidle : loneState.process 0 = none := rfl
  have hok : (adoptProvider loneState.store ["EURUSD"] tiingo.name).2 = .ok none := rfl
  have hscan : ∀ p symbol v, (adoptProvider loneState.store ["EURUSD"] tiingo.name).1.value
      (.archive p .regime symbol) = some v → (p, symbol) ∈ [] := fun _ _ _ hv => (nomatch hv)
  have hled := reachable_led hM (.init hinit) (by decide) hidle rfl hok hscan rfl
    (fun _ => ⟨trivial, trivial⟩) trivial
  exact reachable_stint hM (by decide) hled (by decide) (Option.some_get _).symm fun _ => trivial

/-- The next leader sees a bar that is held back, and an hour later another one: what was observed is lost. -/
def loneHeld : RegimeDetector ℚ × Option (RegimeTransition ℚ) :=
  ((loneEscalated.ledDetector tiingo ["EURUSD"] [] "EURUSD").update (gapBar 2)).get (by decide +kernel)

def loneLost : RegimeDetector ℚ × Option (RegimeTransition ℚ) :=
  (loneHeld.1.update (gapBar 3600000002)).get (by decide +kernel)

theorem built_loneHeld : Built sampleSetup "EURUSD" loneHeld.1 :=
  built_update (((Process.fresh sampleSetup tiingo ["EURUSD"] (List.nodup_singleton "EURUSD")).rehydrated
    (adoptProvider loneEscalated.store ["EURUSD"] tiingo.name).1 []).built "EURUSD") (Option.some_get _).symm

/-- After the failover and that. -/
def loneRelaxed : State sampleSetup Nat :=
  loneEscalated.shift 1 tiingo ["EURUSD"] (List.nodup_singleton "EURUSD") [] "EURUSD" built_loneHeld loneHeld.2
    loneLost.1 loneLost.2

theorem reachable_loneRelaxed : (singleProvider sampleSetup Nat tiingo).Reachable loneRelaxed := by
  have hM : ∀ s a t, Step sampleSetup s a t → OfProvider tiingo s a →
      (singleProvider sampleSetup Nat tiingo).step s a t := fun _ _ _ hs ho => ⟨hs, ho⟩
  have hidle : loneEscalated.process 1 = none := rfl
  have hfree : loneEscalated.leader = none := rfl
  have hok : (adoptProvider loneEscalated.store ["EURUSD"] tiingo.name).2 = .ok none := rfl
  have hscan : ∀ p symbol v, (adoptProvider loneEscalated.store ["EURUSD"] tiingo.name).1.value
      (.archive p .regime symbol) = some v → (p, symbol) ∈ [] := fun _ _ _ hv => by cases hv
  have hled := reachable_led hM reachable_loneEscalated (by decide) hidle hfree hok hscan rfl
    (fun _ => ⟨trivial, trivial⟩) trivial
  exact reachable_shift hM (by decide) hled (by decide) (Option.some_get _).symm (Option.some_get _).symm
    built_loneHeld (fun _ => trivial) fun _ => trivial

/-- The chain over two leaders. -/
theorem transitions_chain_loneRelaxed :
    (logOf loneRelaxed.alerts "EURUSD").map (fun tr => (tr.seq, tr.oldRegime, tr.newRegime)) =
        [(1, .normal, .stressed), (2, .stressed, .normal)] ∧
      (logOf loneRelaxed.alerts "EURUSD").IsChain fun tr tr' => tr'.oldRegime = tr.newRegime :=
  ⟨by decide +kernel, (transitions_chain reachable_loneRelaxed "EURUSD").2.2.1⟩

end FxTracker.Ingestor
