import FxTracker.Ingestor.Adoption
import FxTracker.Ingestor.Succession

/-!
# The numbers of the transitions

* `Counted.step` — no stored or remembered count is past the last number written, and one that is stored
  reaches it
* `returns_seq` — so a new leader goes on counting where the last transition was
* `seq_increases` — numbers are never used again, whichever provider is live
-/

namespace FxTracker.Ingestor

open Alerts

theorem Key.detectorOf_eq (k : Key) :
    k.detectorOf = k.stateKey.bind fun key => if key.1 = .regime then some key.2 else none := by
  cases k with
  | state kind symbol => cases kind <;> rfl
  | archive provider kind symbol => cases kind <;> rfl
  | quote symbol => rfl
  | vol symbol => rfl

theorem Key.detectorOf_congr {k k' : Key} (h : k'.stateKey = k.stateKey) :
    k'.detectorOf = k.detectorOf := by
  rw [detectorOf_eq, detectorOf_eq, h]

theorem Key.stateKey_of_detectorOf {k : Key} {symbol : String} (h : k.detectorOf = some symbol) :
    k.stateKey.isSome := by
  cases k <;> first | rfl | cases h

variable {K : Type}

/-- What is known of the numbers. -/
theorem knows_seq (cooldown : Int) :
    Knows (K := K) Standing.seq Standing.Numbers cooldown where
  ok s s' tr hview hc := by
    have hnum : tr.seq = s.seq + 1 := hc.numbered
    rw [hview] at hnum
    exact hnum
  next _ _ _ _ := rfl

variable [LE K] [DecidableLE K] {setup : Setup K} {κ : Type} {s t : State setup κ} {a : Action K κ}

/-- A count that the transitions written for a symbol bound. -/
def Within (alerts : List (RegimeTransition K)) (symbol : String) (seq : Int) : Prop :=
  0 ≤ seq ∧ seq ≤ (standingOf alerts symbol).seq

structure Counted (s : State setup κ) : Prop where
  recorded : ∃ recorded : Option Provider, s.store.marker = recorded.map Provider.name
  stored : ∀ k symbol, k.detectorOf = some symbol → ∀ d, s.store.value k = some (.snapshot d) →
    Within s.alerts symbol d.trigger.seq
  /-- One of the snapshots has the last number written. -/
  reached : ∀ symbol, (standingOf s.alerts symbol).seq = 0 ∨ ∃ k d, k.detectorOf = some symbol ∧
    s.store.value k = some (.snapshot d) ∧ d.trigger.seq = (standingOf s.alerts symbol).seq
  kept : ∀ k p, s.process k = some p → ∀ symbol, Within s.alerts symbol (p.detector symbol).trigger.seq

theorem Fresh.counted (h : Fresh s) : Counted s where
  recorded := h.recorded
  stored k symbol hk d hd := by
    obtain ⟨d', heq, hstanding⟩ := h.stored k symbol hk _ hd
    cases heq
    have hseq : d.trigger.seq = 0 := congrArg Standing.seq hstanding
    rw [h.alerts, hseq]
    exact ⟨Int.le_refl _, Int.le_refl _⟩
  reached symbol := by
    rw [h.alerts]
    exact .inl rfl
  kept k p hp := by
    rw [h.process] at hp
    cases hp

theorem Counted.nonneg (h : Counted s) (symbol : String) : 0 ≤ (standingOf s.alerts symbol).seq := by
  rcases h.reached symbol with hzero | ⟨k, d, hk, hd, hseq⟩
  · exact Int.le_of_eq hzero.symm
  · exact hseq ▸ (h.stored k symbol hk d hd).1

/-! ## One step -/

theorem Counted.setProcess [DecidableEq κ] (h : Counted s) (k : κ) {p : Process setup}
    (hp : ∀ symbol, Within s.alerts symbol (p.detector symbol).trigger.seq) :
    Counted (s.setProcess k (some p)) where
  recorded := h.recorded
  stored := h.stored
  reached := h.reached
  kept k' p' hp' := by
    rcases process_setProcess_some hp' with ⟨-, heq⟩ | hold
    · cases heq
      exact hp
    · exact h.kept k' p' hold

theorem Counted.kill [DecidableEq κ] (h : Counted s) (k : κ) : Counted (s.kill k) where
  recorded := h.recorded
  stored := h.stored
  reached := h.reached
  kept k' p hp := h.kept k' p (process_kill_some hp)

/-- **A switch moves the counts** and loses none. -/
theorem Counted.adopt (h : Counted s) (p : Process setup) :
    Counted { s with store := (adoptProvider s.store p.symbols p.provider.name).1 } := by
  obtain ⟨recorded, hmarker⟩ := h.recorded
  have hadopt : (∃ recorded : Option Provider,
      (adoptProvider s.store p.symbols p.provider.name).1.marker = recorded.map Provider.name) ∧
      Rearranged s.store (adoptProvider s.store p.symbols p.provider.name).1 :=
    rearranged_adoptProvider p.nodup hmarker
  obtain ⟨hrecorded, hmoved⟩ := hadopt
  refine ⟨hrecorded, fun k symbol hk d hd => ?_, fun symbol => ?_, h.kept⟩
  · obtain ⟨k', hkey, hd'⟩ := hmoved.source k _ hd
    exact h.stored k' symbol ((Key.detectorOf_congr hkey).trans hk) d hd'
  · refine (h.reached symbol).imp_right ?_
    rintro ⟨k, d, hk, hd, hseq⟩
    obtain ⟨k', hkey, hd'⟩ := hmoved.kept k _ (Key.stateKey_of_detectorOf hk) hd
    exact ⟨k', d, (Key.detectorOf_congr hkey).trans hk, hd', hseq⟩

variable [LT K] [DecidableLT K] [FloatMath K]

/-- What a sealed bar does to the last numbers. -/
theorem seq_commit {alerts : List (RegimeTransition K)} {symbol : String} {d d' : RegimeDetector K}
    {bar : SealedBar K} {o : Option (RegimeTransition K)} (hb : Built setup symbol d)
    (hview : d.trigger.seq = (standingOf alerts symbol).seq) (hup : d.update bar = some (d', o)) :
    (standingOf (alerts ++ o.toList) symbol).seq = d'.trigger.seq ∧
      ∀ symbol', (standingOf alerts symbol').seq ≤ (standingOf (alerts ++ o.toList) symbol').seq := by
  obtain ⟨hsymbol, hcont, hstanding⟩ := update_facts hb hup
  have hd' : d'.trigger.seq = (o.toList.foldl Standing.next d.trigger.standing).seq :=
    congrArg Standing.seq hstanding
  constructor
  · rw [standingOf_append hsymbol, if_pos rfl, hd']
    cases o with
    | none => exact hview.symm
    | some tr => rfl
  · intro symbol'
    rw [standingOf_append hsymbol]
    split
    · next heq =>
      subst heq
      cases o with
      | none => exact Int.le_refl _
      | some tr =>
        have hnum : tr.seq = d.trigger.seq + 1 := (hcont tr rfl).numbered
        show (standingOf alerts symbol').seq ≤ tr.seq
        omega
    · exact Int.le_refl _

/-- **A sealed bar** stores the count it leaves. -/
theorem Counted.commit (h : Counted s) {p : Process setup} {symbol : String} {d : RegimeDetector K}
    {bar : SealedBar K} {o : Option (RegimeTransition K)}
    (hview : (p.detector symbol).trigger.seq = (standingOf s.alerts symbol).seq)
    (hup : (p.detector symbol).update bar = some (d, o)) :
    Counted (s.commit symbol d o) ∧ Within (s.commit symbol d o).alerts symbol d.trigger.seq := by
  obtain ⟨hlast, hmono⟩ := seq_commit (p.built symbol) hview hup
  have hgrow : ∀ symbol' seq, Within s.alerts symbol' seq →
      Within (s.commit symbol d o).alerts symbol' seq :=
    fun symbol' seq hw => ⟨hw.1, Int.le_trans hw.2 (hmono symbol')⟩
  have hnew : Within (s.commit symbol d o).alerts symbol d.trigger.seq := by
    refine ⟨?_, Int.le_of_eq hlast.symm⟩
    rw [← hlast]
    exact Int.le_trans (h.nonneg symbol) (hmono symbol)
  refine ⟨⟨h.recorded, fun k' symbol' hk' d' hd' => ?_, fun symbol' => ?_, fun k' p' hp' symbol' =>
    hgrow _ _ (h.kept k' p' hp' symbol')⟩, hnew⟩
  · unfold State.commit at hd'
    dsimp only at hd'
    split at hd'
    · next heq =>
      cases hd'
      subst heq
      cases hk'
      exact hnew
    · exact hgrow _ _ (h.stored k' symbol' hk' d' hd')
  · by_cases heq : symbol' = symbol
    · subst heq
      exact .inr ⟨.state .regime symbol', d.snapshot, rfl, if_pos rfl, hlast.symm⟩
    · have hsame : standingOf (s.commit symbol d o).alerts symbol' = standingOf s.alerts symbol' := by
        unfold State.commit
        dsimp only
        rw [standingOf_append (update_facts (p.built symbol) hup).1, if_neg heq]
      rw [hsame]
      refine (h.reached symbol').imp_right ?_
      rintro ⟨k', d', hk', hd', hseq⟩
      refine ⟨k', d', hk', (if_neg ?_).trans hd', hseq⟩
      rintro rfl
      exact heq (Option.some.inj hk').symm

/-- **A new leader goes on counting** where the last transition was, whatever it comes back as. -/
theorem seq_restoreDetectors (h : Counted s) {k : κ} {p : Process setup} (hp : s.process k = some p)
    {scanned : List (String × String)}
    (hscan : ∀ provider symbol v, s.store.value (.archive provider .regime symbol) = some v →
      (provider, symbol) ∈ scanned) {symbol : String} (hmem : symbol ∈ p.symbols) :
    (restoreDetectors s.store p.symbols scanned p.detector symbol).trigger.seq =
      (standingOf s.alerts symbol).seq := by
  have hkept := h.kept k p hp symbol
  -- the live snapshot, if there is one, is what the scan starts from
  have hlive : Within s.alerts symbol (restoreDetector s.store symbol (p.detector symbol)).trigger.seq ∧
      ∀ d, s.store.value (.state .regime symbol) = some (.snapshot d) →
        (restoreDetector s.store symbol (p.detector symbol)).trigger.seq = d.trigger.seq := by
    rcases standing_restoreDetector s.store symbol (p.detector symbol) with
      ⟨d, hd, hstanding⟩ | ⟨hnone, hsame⟩
    · have hseq : (restoreDetector s.store symbol (p.detector symbol)).trigger.seq = d.trigger.seq :=
        congrArg Standing.seq hstanding
      refine ⟨?_, fun d' hd' => ?_⟩
      · rw [hseq]
        exact h.stored (.state .regime symbol) symbol rfl d hd
      · cases hd.symm.trans hd'
        exact hseq
    · rw [hsame]
      exact ⟨hkept, fun d hd => absurd hd (hnone d)⟩
  unfold restoreDetectors
  rw [if_pos hmem]
  obtain ⟨seq, heq, hle, hparked, hfrom⟩ := foldl_liftSeq symbol s.store scanned
    (restoreDetector s.store symbol (p.detector symbol))
  rw [heq]
  show seq = (standingOf s.alerts symbol).seq
  apply Int.le_antisymm
  · rcases hfrom with hfrom | ⟨provider, d, hd, hseq⟩
    · exact hfrom ▸ hlive.1.2
    · exact hseq ▸ (h.stored (.archive provider .regime symbol) symbol rfl d hd).2
  · rcases h.reached symbol with hzero | ⟨key, d, hkey, hd, hseq⟩
    · exact hzero ▸ Int.le_trans hlive.1.1 hle
    · rw [← hseq]
      cases key with
      | state kind symbol' =>
        cases kind <;> cases hkey
        exact hlive.2 d hd ▸ hle
      | archive provider kind symbol' =>
        cases kind <;> cases hkey
        exact hparked provider d (hscan provider symbol _ hd) hd
      | quote symbol' => cases hkey
      | vol symbol' => cases hkey

/-- A restore returns the count. -/
theorem returns_seq [DecidableEq κ] (h : Counted s) (hstep : Step setup s a t) : Returns Standing.seq s a := by
  cases hstep with
  | @restore k p scanned hp hlead hscan =>
    intro p' hp' symbol hmem
    cases hp.symm.trans hp'
    exact seq_restoreDetectors h hp hscan hmem
  | _ => trivial

/-- **A step keeps the counts** within what was written. -/
theorem Counted.step [DecidableEq κ] (h : Counted s) (hled : Led Standing.seq Standing.Numbers s)
    (hstep : Step setup s a t) : Counted t := by
  cases hstep with
  | @start k provider symbols hidle hnd =>
    exact h.setProcess k fun symbol => ⟨Int.le_refl _, h.nonneg symbol⟩
  | @acquire k p hp hfree => exact ⟨h.recorded, h.stored, h.reached, h.kept⟩
  | @adopt k p r hp hlead hok =>
    have hmoved := h.adopt p
    exact ⟨hmoved.recorded, hmoved.stored, hmoved.reached, hmoved.kept⟩
  | @adoptUnheard k p hp hlead => exact (h.adopt p).kill k
  | @restore k p scanned hp hlead hscan =>
    have hback : ∀ symbol, Within s.alerts symbol
        ((p.rehydrated s.store scanned).detector symbol).trigger.seq := by
      intro symbol
      by_cases hmem : symbol ∈ p.symbols
      · have hseq := seq_restoreDetectors h hp hscan hmem
        exact ⟨Int.le_trans (h.nonneg symbol) (Int.le_of_eq hseq.symm), Int.le_of_eq hseq⟩
      · have hsame : (p.rehydrated s.store scanned).detector symbol = p.detector symbol := if_neg hmem
        rw [hsame]
        exact h.kept k p hp symbol
    have hset := h.setProcess k hback
    exact ⟨hset.recorded, hset.stored, hset.reached, hset.kept⟩
  | @sealBar k p symbol bar d o hp hlead hmem hup =>
    obtain ⟨hcommit, hnew⟩ := h.commit (hled.leading k p hlead hp symbol hmem) hup
    refine hcommit.setProcess k fun symbol' => ?_
    show Within _ symbol' (if symbol' = symbol then d else p.detector symbol').trigger.seq
    split
    · next heq => exact heq ▸ hnew
    · exact hcommit.kept k p hp symbol'
  | @sealBarUnheard k p symbol bar d o hp hlead hmem hup =>
    exact (h.commit (hled.leading k p hlead hp symbol hmem) hup).1.kill k
  | @handBack k hlead => exact ⟨h.recorded, h.stored, h.reached, h.kept⟩
  | @crash k => exact h.kill k
  | @touch key value hkey =>
    refine ⟨h.recorded, fun k symbol hk d hd => ?_, fun symbol => ?_, h.kept⟩
    · refine h.stored k symbol hk d ((if_neg ?_).symm.trans hd)
      rintro rfl
      rw [hkey] at hk
      cases hk
    · refine (h.reached symbol).imp_right ?_
      rintro ⟨k, d, hk, hd, hseq⟩
      refine ⟨k, d, hk, (if_neg ?_).trans hd, hseq⟩
      rintro rfl
      rw [hkey] at hk
      cases hk

/-! ## Every run -/

variable [DecidableEq κ] {β : Type}

theorem counted_of_reachable (h : (leaderships setup κ).Reachable s) :
    Counted s ∧ Led Standing.seq Standing.Numbers s := by
  induction h with
  | init hs => exact ⟨hs.counted, hs.led⟩
  | step _ hstep ih =>
    exact ⟨ih.1.step ih.2 hstep, ih.2.step (knows_seq _) hstep (returns_seq ih.1 hstep)⟩

/-- **Transition numbers are never used again**: in every run of leaderships, switches, crashes and
sealed bars each transition written for a symbol has a higher number than those written before it. -/
theorem seq_increases (h : (leaderships setup κ).Reachable s) (symbol : String) :
    (logOf s.alerts symbol).Pairwise fun tr tr' => tr.seq < tr'.seq :=
  seq_pairwise_of_numbers ((counted_of_reachable h).2.log symbol)

/-! ## Runs on fixed inputs -/

namespace State

/-- A process starts, is elected and adopts its provider. -/
def adoptedBy (s : State setup κ) (k : κ) (provider : Provider) (symbols : List String)
    (hnd : symbols.Nodup) : State setup κ :=
  { s.setProcess k (some (.fresh setup provider symbols hnd)) with
    store := (adoptProvider s.store symbols provider.name).1
    leader := some (k, .adopted) }

/-- And restores its detectors. -/
def led (s : State setup κ) (k : κ) (provider : Provider) (symbols : List String) (hnd : symbols.Nodup)
    (scanned : List (String × String)) : State setup κ :=
  { (s.adoptedBy k provider symbols hnd).setProcess k (some ((Process.fresh setup provider symbols
      hnd).rehydrated (adoptProvider s.store symbols provider.name).1 scanned)) with
    leader := some (k, .leading) }

/-- And seals one bar, and ends right after the transaction. -/
def stint (s : State setup κ) (k : κ) (provider : Provider) (symbols : List String)
    (hnd : symbols.Nodup) (scanned : List (String × String)) (symbol : String) (d : RegimeDetector K)
    (o : Option (RegimeTransition K)) : State setup κ :=
  ((s.led k provider symbols hnd scanned).commit symbol d o).kill k

/-- And seals two bars, and ends right after the second transaction. -/
def shift (s : State setup κ) (k : κ) (provider : Provider) (symbols : List String) (hnd : symbols.Nodup)
    (scanned : List (String × String)) (symbol : String) {d : RegimeDetector K} (built : Built setup symbol d)
    (o : Option (RegimeTransition K)) (d' : RegimeDetector K) (o' : Option (RegimeTransition K)) : State setup κ :=
  ((((s.led k provider symbols hnd scanned).commit symbol d o).setProcess k (some (((Process.fresh setup provider
    symbols hnd).rehydrated (adoptProvider s.store symbols provider.name).1 scanned).fed symbol d built))).commit
    symbol d' o').kill k

/-- What it has for a symbol while it leads. -/
def ledDetector (s : State setup κ) (provider : Provider) (symbols : List String)
    (scanned : List (String × String)) (symbol : String) : RegimeDetector K :=
  restoreDetectors (adoptProvider s.store symbols provider.name).1 symbols scanned
    (fun symbol => .cold symbol setup.config setup.trigger setup.marketIsOpen) symbol

end State

section Led

variable {M : Lts (State setup κ) (Action K κ)} {ok : State setup κ → Action K κ → Prop} {k : κ}
  {provider : Provider} {symbols : List String} {scanned : List (String × String)}

theorem reachable_led {r : Option (String × Nat)}
    (hM : ∀ s a t, Step setup s a t → ok s a → M.step s a t) (h : M.Reachable s) (hnd : symbols.Nodup)
    (hidle : s.process k = none) (hfree : s.leader = none)
    (hok : (adoptProvider s.store symbols provider.name).2 = .ok r)
    (hscan : ∀ p symbol v,
      (adoptProvider s.store symbols provider.name).1.value (.archive p .regime symbol) = some v →
        (p, symbol) ∈ scanned)
    (hstart : ok s (.start k provider symbols)) (hquiet : ∀ u, ok u (.acquire k) ∧ ok u (.adopt k))
    (hrestore : ok (s.adoptedBy k provider symbols hnd) (.restore k scanned)) :
    M.Reachable (s.led k provider symbols hnd scanned) := by
  have hstarted := h.step (hM _ _ _ (.start hidle hnd) hstart)
  have hrunning : (s.setProcess k (some (.fresh setup provider symbols hnd))).process k =
      some (.fresh setup provider symbols hnd) := if_pos rfl
  have helected := hstarted.step (hM _ _ _ (.acquire hrunning hfree) (hquiet _).1)
  have hadopted := helected.step (hM _ _ _ (.adopt hrunning rfl hok) (hquiet _).2)
  exact hadopted.step (hM _ _ _ (.restore hrunning rfl hscan) hrestore)

theorem reachable_stint {symbol : String} {bar : SealedBar K} {d : RegimeDetector K}
    {o : Option (RegimeTransition K)} (hM : ∀ s a t, Step setup s a t → ok s a → M.step s a t)
    (hnd : symbols.Nodup) (h : M.Reachable (s.led k provider symbols hnd scanned))
    (hmem : symbol ∈ symbols)
    (hup : (s.ledDetector provider symbols scanned symbol).update bar = some (d, o))
    (hseal : ∀ u, ok u (.sealBarUnheard k symbol bar)) :
    M.Reachable (s.stint k provider symbols hnd scanned symbol d o) := by
  have hrunning : (s.led k provider symbols hnd scanned).process k =
      some ((Process.fresh setup provider symbols hnd).rehydrated
        (adoptProvider s.store symbols provider.name).1 scanned) := if_pos rfl
  exact h.step (hM _ _ _ (.sealBarUnheard hrunning rfl hmem hup) (hseal _))

/-- Two bars under one leadership. -/
theorem reachable_shift {symbol : String} {bar bar' : SealedBar K} {d d' : RegimeDetector K}
    {o o' : Option (RegimeTransition K)} (hM : ∀ s a t, Step setup s a t → ok s a → M.step s a t)
    (hnd : symbols.Nodup) (h : M.Reachable (s.led k provider symbols hnd scanned)) (hmem : symbol ∈ symbols)
    (hup : (s.ledDetector provider symbols scanned symbol).update bar = some (d, o))
    (hup' : d.update bar' = some (d', o')) (built : Built setup symbol d)
    (hseal : ∀ u, ok u (.sealBar k symbol bar)) (hunheard : ∀ u, ok u (.sealBarUnheard k symbol bar')) :
    M.Reachable (s.shift k provider symbols hnd scanned symbol built o d' o') := by
  have hrunning : (s.led k provider symbols hnd scanned).process k =
      some ((Process.fresh setup provider symbols hnd).rehydrated
        (adoptProvider s.store symbols provider.name).1 scanned) := if_pos rfl
  have hsealed := h.step (hM _ _ _ (.sealBar hrunning rfl hmem hup) (hseal _))
  exact hsealed.step (hM _ _ _ (.sealBarUnheard (if_pos rfl) rfl hmem
    ((congrArg (RegimeDetector.update · bar') (if_pos rfl)).trans hup')) (hunheard _))

theorem step_returns {view : Standing → β} (s : State setup κ) (a : Action K κ) (t : State setup κ)
    (hstep : Step setup s a t) (hreturns : Returns view s a) :
    ((leaderships setup κ).guard (Returns view)).step s a t :=
  ⟨hstep, hreturns⟩

theorem returns_adoptedBy {view : Standing → β} {hnd : symbols.Nodup}
    (hview : ∀ symbol ∈ symbols, view (s.ledDetector provider symbols scanned symbol).trigger.standing =
      view (standingOf s.alerts symbol)) :
    Returns view (s.adoptedBy k provider symbols hnd) (.restore k scanned) := by
  intro p hp
  cases (if_pos rfl).symm.trans hp
  exact hview

end Led

/-- A market that never closes, and no bars to wait for. -/
def sampleSetup : Setup ℚ where
  config := RegimeDetector.promptConfig
  trigger := RegimeDetector.sampleTrigger
  marketIsOpen := fun _ => true

/-- Of a detector that escalates on a bar of volatility 1. -/
def readySnapshot : DetectorSnapshot ℚ where
  trigger :=
    { regime := .normal, seq := 0, regimeSince := none, lastEscalation := none, thawed := false }
  baseline := { lam := 1 / 2, mean := -5, var := 1, n := 30, debias := 1, frozen := false }
  profile := { lam := 1 / 2, hourMean := List.replicate 24 0, hourN := List.replicate 24 0 }

/-- A bar that the gates hold back. -/
def gapBar (ts : Int) : SealedBar ℚ := { sigma := 1, ts, isGapBar := true }

/-- Both providers have such a detector, one of them live. -/
def sampleState : State sampleSetup Nat where
  store :=
    { marker := some "tiingo"
      value := fun k =>
        if k = .state .regime "EURUSD" ∨ k = .archive "another" .regime "EURUSD" then
          some (.snapshot readySnapshot)
        else none }
  alerts := []
  process := fun _ => none
  leader := none

theorem fresh_sampleState : Fresh sampleState where
  alerts := rfl
  process _ := rfl
  leader := rfl
  recorded := ⟨some tiingo, rfl⟩
  stored k symbol _ v hv := by
    unfold sampleState at hv
    dsimp only at hv
    split at hv
    · exact ⟨readySnapshot, (Option.some.inj hv).symm, rfl⟩
    · cases hv

theorem value_sampleState {k : Key} {v : Stored ℚ} (h : sampleState.store.value k = some v) :
    k = .state .regime "EURUSD" ∨ k = .archive "another" .regime "EURUSD" := by
  unfold sampleState at h
  dsimp only at h
  split at h
  · assumption
  · cases h

/-- What the detector of the first leadership makes of its bar. -/
def firstSealed : RegimeDetector ℚ × Option (RegimeTransition ℚ) :=
  ((sampleState.ledDetector tiingo ["EURUSD"] [("another", "EURUSD")] "EURUSD").update
    (RegimeDetector.sampleBar 1)).get (by decide +kernel)

/-- After the first leadership. -/
def sampleEscalated : State sampleSetup Nat :=
  sampleState.stint 0 tiingo ["EURUSD"] (List.nodup_singleton "EURUSD") [("another", "EURUSD")] "EURUSD" firstSealed.1
    firstSealed.2

theorem reachable_sampleEscalated :
    ((leaderships sampleSetup Nat).guard (Returns Standing.regime)).Reachable sampleEscalated := by
  have hok : (adoptProvider sampleState.store ["EURUSD"] tiingo.name).2 = .ok none := rfl
  have hscan : ∀ p symbol v, (adoptProvider sampleState.store ["EURUSD"] tiingo.name).1.value
      (.archive p .regime symbol) = some v → (p, symbol) ∈ [("another", "EURUSD")] := by
    intro p symbol v h
    rcases value_sampleState h with h | h
    · cases h
    · cases h
      exact List.mem_singleton_self _
  have hview : ∀ symbol ∈ ["EURUSD"], Standing.regime (sampleState.ledDetector tiingo ["EURUSD"]
      [("another", "EURUSD")] symbol).trigger.standing = (standingOf sampleState.alerts symbol).regime := by
    decide +kernel
  have hidle : sampleState.process 0 = none := rfl
  have hled := reachable_led step_returns (.init fresh_sampleState) (by decide) hidle rfl hok hscan trivial
    (fun _ => ⟨trivial, trivial⟩) (returns_adoptedBy hview)
  exact reachable_stint step_returns (by decide) hled (by decide) (Option.some_get _).symm fun _ => trivial

theorem archive_sampleEscalated {provider : Provider} {p symbol : String} {v : Stored ℚ}
    (h : (adoptProvider sampleEscalated.store ["EURUSD"] provider.name).1.value
      (.archive p .regime symbol) = some v) :
    (p, symbol) ∈ [("tiingo", "EURUSD"), ("another", "EURUSD")] := by
  have hmarker : sampleEscalated.store.marker = (some tiingo : Option Provider).map Provider.name := rfl
  rcases archive_adoptProvider (by decide) hmarker h with h | ⟨hp, h⟩
  · have hfirst : sampleState.store.value (.archive p .regime symbol) = some v := h
    rcases value_sampleState hfirst with h | h
    · cases h
    · cases h
      simp
  · by_cases hs : symbol = "EURUSD"
    · rw [hs, hp, hmarker, Option.map_some, labelOf_name]
      exact List.mem_cons_self ..
    · have hne : Key.state .regime symbol ≠ .state .regime "EURUSD" := fun heq => hs (by cases heq; rfl)
      have hfirst : sampleState.store.value (.state .regime symbol) = some v := (if_neg hne).symm.trans h
      rcases value_sampleState hfirst with h | h
      · exact absurd h hne
      · cases h

/-- What the detector of the second leadership makes of its bar. -/
def secondSealed : RegimeDetector ℚ × Option (RegimeTransition ℚ) :=
  ((sampleEscalated.ledDetector another ["EURUSD"] [("tiingo", "EURUSD"), ("another", "EURUSD")]
    "EURUSD").update (RegimeDetector.sampleBar 2)).get (by decide +kernel)

/-- After a leadership of the other provider. -/
def sampleSwitched : State sampleSetup Nat :=
  sampleEscalated.stint 1 another ["EURUSD"] (List.nodup_singleton "EURUSD")
    [("tiingo", "EURUSD"), ("another", "EURUSD")] "EURUSD" secondSealed.1 secondSealed.2

theorem reachable_sampleSwitched : (leaderships sampleSetup Nat).Reachable sampleSwitched := by
  have hM : ∀ s a t, Step sampleSetup s a t → True → (leaderships sampleSetup Nat).step s a t :=
    fun _ _ _ hs _ => hs
  have hidle : sampleEscalated.process 1 = none := rfl
  have hfree : sampleEscalated.leader = none := rfl
  have hok : (adoptProvider sampleEscalated.store ["EURUSD"] another.name).2 =
      .ok (some ("tiingo", 1)) := rfl
  have hscan : ∀ p symbol v, (adoptProvider sampleEscalated.store ["EURUSD"] another.name).1.value
      (.archive p .regime symbol) = some v → (p, symbol) ∈ [("tiingo", "EURUSD"), ("another", "EURUSD")] :=
    fun _ _ _ h => archive_sampleEscalated h
  have hled := reachable_led hM reachable_sampleEscalated.of_guard (by decide) hidle hfree hok hscan trivial
    (fun _ => ⟨trivial, trivial⟩) trivial
  exact reachable_stint hM (by decide) hled (by decide) (Option.some_get _).symm fun _ => trivial

/-- Two providers count on. -/
theorem seq_increases_sampleSwitched :
    (logOf sampleSwitched.alerts "EURUSD").map (·.seq) = [1, 2] ∧
      (logOf sampleSwitched.alerts "EURUSD").Pairwise fun tr tr' => tr.seq < tr'.seq :=
  ⟨by decide +kernel, seq_increases reachable_sampleSwitched "EURUSD"⟩

end FxTracker.Ingestor
