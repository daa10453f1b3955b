import FxTracker.Lib.Lts
import FxTracker.Alerts.Chain
import FxTracker.Ingestor.Keyspace

/-!
# Leaderships

What the ingestors do to the detector state and to `stream:alerts` (`Ingestor.run`, `_rehydrate` and the
seal path of `fx_ingestor/pipeline.py`). A process keeps its detectors for as long as it lives and may lead
again. There is at most one leader, the stored snapshots are intact, and a transaction is applied whole or
not at all.

An exception of the detector, and a command that fails or whose reply is lost, end the process: neither is
caught by `_run_as_leader`. What such a command did stays.

* `built_update`, `built_restoreDetectors` — a detector stays the one its symbol and configuration gave
* `standing_restoreDetector`, `foldl_liftSeq` — what the detectors come back as
-/

namespace FxTracker.Ingestor

open Alerts

/-- What the keys hold, as far as it is read here. -/
inductive Stored (K : Type)
  | snapshot (s : DetectorSnapshot K)
  | series

/-- The configuration of the detectors. -/
structure Setup (K : Type) [LE K] [DecidableLE K] where
  config : DetectorConfig
  trigger : TriggerConfig K
  marketIsOpen : Int → Bool

variable {K : Type} [LE K] [DecidableLE K] [LT K] [DecidableLT K] [FloatMath K]

/-- The detector of `symbol`. -/
structure Built (setup : Setup K) (symbol : String) (d : RegimeDetector K) : Prop where
  named : d.symbol = symbol
  configured : d.triggerConfig = setup.trigger
  trigger : d.trigger.symbol = symbol ∧ d.trigger.config = setup.trigger

variable {setup : Setup K} {symbol : String} {d d' : RegimeDetector K}

omit [LT K] [DecidableLT K] in
theorem built_cold (setup : Setup K) (symbol : String) :
    Built setup symbol (.cold symbol setup.config setup.trigger setup.marketIsOpen) :=
  ⟨rfl, rfl, rfl, rfl⟩

/-! ## Restoring -/

/-- The first loop of `restore_detectors`, for one symbol. What is assigned before an exception stays, and
where nothing is stored the detector stays as it was. -/
def restoreDetector (store : Keyspace (Stored K)) (symbol : String) (d : RegimeDetector K) :
    RegimeDetector K :=
  match store.value (.state .regime symbol) with
  | some (.snapshot s) => (d.restore s).1
  | _ => d

/-- The second loop, for one key of the scan. -/
def liftSeq (store : Keyspace (Stored K)) (symbol : String) (d : RegimeDetector K)
    (archive : String × String) : RegimeDetector K :=
  match store.value (.archive archive.1 .regime archive.2) with
  | some (.snapshot s) =>
    if archive.2 = symbol then
      { d with trigger := { d.trigger with seq := max d.trigger.seq s.trigger.seq } }
    else d
  | _ => d

/-- `restore_detectors`. `scanned` is what `SCAN` finds under `archive:*:regime:*`, by provider and symbol. -/
def restoreDetectors (store : Keyspace (Stored K)) (symbols : List String)
    (scanned : List (String × String)) (detector : String → RegimeDetector K) (symbol : String) :
    RegimeDetector K :=
  if symbol ∈ symbols then
    scanned.foldl (liftSeq store symbol) (restoreDetector store symbol (detector symbol))
  else detector symbol

/-- Whatever a restore says of the estimators, the trigger comes back first. -/
theorem trigger_restore (d : RegimeDetector K) (s : DetectorSnapshot K) :
    (d.restore s).1.trigger = SchmittTrigger.restore d.symbol s.trigger d.triggerConfig ∧
      (d.restore s).1.symbol = d.symbol ∧ (d.restore s).1.triggerConfig = d.triggerConfig := by
  unfold RegimeDetector.restore
  dsimp only
  split
  · exact ⟨rfl, rfl, rfl⟩
  · split <;> exact ⟨rfl, rfl, rfl⟩

theorem built_restoreDetector (store : Keyspace (Stored K)) (h : Built setup symbol d) :
    Built setup symbol (restoreDetector store symbol d) := by
  unfold restoreDetector
  split
  · next s _ =>
    obtain ⟨htrigger, hsymbol, hconfig⟩ := trigger_restore d s
    refine ⟨hsymbol.trans h.named, hconfig.trans h.configured, ?_, ?_⟩
    · rw [htrigger]
      exact h.named
    · rw [htrigger]
      exact h.configured
  · exact h

/-- **What a detector comes back as**: where the last snapshot stands, or unchanged without one. -/
theorem standing_restoreDetector (store : Keyspace (Stored K)) (symbol : String)
    (d : RegimeDetector K) :
    (∃ s, store.value (.state .regime symbol) = some (.snapshot s) ∧
      (restoreDetector store symbol d).trigger.standing = s.trigger.standing) ∨
    (∀ s, store.value (.state .regime symbol) ≠ some (.snapshot s)) ∧
      restoreDetector store symbol d = d := by
  unfold restoreDetector
  split
  · next s hs =>
    refine .inl ⟨s, hs, ?_⟩
    rw [(trigger_restore d s).1, SchmittTrigger.standing_restore]
  · next hnone => exact .inr ⟨hnone, rfl⟩

section Lift

variable (symbol) (store : Keyspace (Stored K)) (scanned : List (String × String))

omit [LT K] [DecidableLT K] [FloatMath K] in
/-- One key of the scan changes the count alone. -/
theorem liftSeq_eq (archive : String × String) :
    ∃ seq, liftSeq store symbol d archive = { d with trigger := { d.trigger with seq } } ∧
      d.trigger.seq ≤ seq ∧
      (∀ s, store.value (.archive archive.1 .regime symbol) = some (.snapshot s) →
        archive.2 = symbol → s.trigger.seq ≤ seq) ∧
      (seq = d.trigger.seq ∨
        ∃ s, store.value (.archive archive.1 .regime symbol) = some (.snapshot s) ∧
          seq = s.trigger.seq) := by
  obtain ⟨p, s'⟩ := archive
  unfold liftSeq
  dsimp only
  split
  · next s hs =>
    split
    · next heq =>
      subst heq
      refine ⟨_, rfl, Int.le_max_left _ _, fun s₁ hs₁ _ => ?_, ?_⟩
      · rw [hs] at hs₁
        cases hs₁
        exact Int.le_max_right _ _
      · rcases Int.le_total d.trigger.seq s.trigger.seq with hle | hle
        · exact .inr ⟨s, hs, Int.max_eq_right hle⟩
        · exact .inl (Int.max_eq_left hle)
    · next hne =>
      exact ⟨d.trigger.seq, rfl, Int.le_refl _, fun _ _ heq => absurd heq hne, .inl rfl⟩
  · next hnone =>
    refine ⟨d.trigger.seq, rfl, Int.le_refl _, fun s hs heq => ?_, .inl rfl⟩
    rw [heq] at hnone
    exact absurd hs (hnone s)

omit [LT K] [DecidableLT K] [FloatMath K] in
/-- **The scan lifts the count** to the highest of the archives, if that is higher. -/
theorem foldl_liftSeq (d : RegimeDetector K) :
    ∃ seq, scanned.foldl (liftSeq store symbol) d = { d with trigger := { d.trigger with seq } } ∧
      d.trigger.seq ≤ seq ∧
      (∀ p s, (p, symbol) ∈ scanned → store.value (.archive p .regime symbol) = some (.snapshot s) →
        s.trigger.seq ≤ seq) ∧
      (seq = d.trigger.seq ∨
        ∃ p s, store.value (.archive p .regime symbol) = some (.snapshot s) ∧ seq = s.trigger.seq) := by
  induction scanned generalizing d with
  | nil => exact ⟨d.trigger.seq, rfl, Int.le_refl _, fun _ _ hmem => (nomatch hmem), .inl rfl⟩
  | cons archive scanned ih =>
    obtain ⟨seq₁, heq₁, hle₁, hscan₁, hfrom₁⟩ := liftSeq_eq symbol store archive
    obtain ⟨seq, heq, hle, hscan, hfrom⟩ := ih (liftSeq store symbol d archive)
    rw [heq₁] at heq hle hfrom
    refine ⟨seq, ?_, Int.le_trans hle₁ hle, fun p s hmem hs => ?_, ?_⟩
    · rw [List.foldl_cons, heq₁, heq]
    · rcases List.mem_cons.mp hmem with rfl | hmem
      · exact Int.le_trans (hscan₁ s hs rfl) hle
      · exact hscan p s hmem hs
    · rcases hfrom with hsame | hfrom
      · rcases hfrom₁ with hsame₁ | ⟨s, hs, hseq⟩
        · exact .inl (hsame.trans hsame₁)
        · exact .inr ⟨_, s, hs, hsame.trans hseq⟩
      · exact .inr hfrom

end Lift

theorem built_restoreDetectors (store : Keyspace (Stored K)) (symbols : List String)
    (scanned : List (String × String)) {detector : String → RegimeDetector K}
    (h : Built setup symbol (detector symbol)) :
    Built setup symbol (restoreDetectors store symbols scanned detector symbol) := by
  unfold restoreDetectors
  split
  · obtain ⟨seq, heq, -⟩ := foldl_liftSeq symbol store scanned
      (restoreDetector store symbol (detector symbol))
    rw [heq]
    have hb := built_restoreDetector store h
    exact ⟨hb.named, hb.configured, hb.trigger⟩
  · exact h

theorem built_update {bar : SealedBar K} {o : Option (RegimeTransition K)} (h : Built setup symbol d)
    (hup : d.update bar = some (d', o)) : Built setup symbol d' := by
  obtain ⟨hsymbol, -, hconfig, -⟩ := RegimeDetector.update_fixed hup
  refine ⟨hsymbol.trans h.named, hconfig.trans h.configured, ?_⟩
  have hstep := RegimeDetector.update_step hup
  cases o with
  | none => exact ⟨hstep.2.1.trans h.trigger.1, hstep.2.2.trans h.trigger.2⟩
  | some tr => exact ⟨hstep.fixed.1.trans h.trigger.1, hstep.fixed.2.trans h.trigger.2⟩

/-! ## The processes -/

/-- An ingestor process: its settings, and the detectors its pipeline keeps. -/
structure Process (setup : Setup K) where
  provider : Provider
  symbols : List String
  nodup : symbols.Nodup
  detector : String → RegimeDetector K
  built : ∀ symbol, Built setup symbol (detector symbol)

/-- How far a leader is. -/
inductive Phase
  | elected
  | adopted
  | leading
  deriving DecidableEq

structure State (setup : Setup K) (κ : Type) where
  store : Keyspace (Stored K)
  /-- All that was appended to `stream:alerts`. -/
  alerts : List (RegimeTransition K)
  process : κ → Option (Process setup)
  leader : Option (κ × Phase)

inductive Action (K κ : Type)
  | start (k : κ) (provider : Provider) (symbols : List String)
  | acquire (k : κ)
  | adopt (k : κ)
  | adoptUnheard (k : κ)
  | restore (k : κ) (scanned : List (String × String))
  | sealBar (k : κ) (symbol : String) (bar : SealedBar K)
  | sealBarUnheard (k : κ) (symbol : String) (bar : SealedBar K)
  | handBack (k : κ)
  | crash (k : κ)
  | touch (key : Key) (value : Option (Stored K))

namespace Process

/-- A process that has just started. -/
def fresh (setup : Setup K) (provider : Provider) (symbols : List String) (nodup : symbols.Nodup) :
    Process setup where
  provider
  symbols
  nodup
  detector symbol := .cold symbol setup.config setup.trigger setup.marketIsOpen
  built := built_cold setup

/-- The process after `restore_detectors`. -/
def rehydrated (p : Process setup) (store : Keyspace (Stored K)) (scanned : List (String × String)) :
    Process setup :=
  { p with
    detector := restoreDetectors store p.symbols scanned p.detector
    built := fun symbol => built_restoreDetectors store p.symbols scanned (p.built symbol) }

/-- The process after its detector of a symbol moved on. -/
def fed (p : Process setup) (symbol : String) (d : RegimeDetector K) (hd : Built setup symbol d) :
    Process setup :=
  { p with
    detector := fun s => if s = symbol then d else p.detector s
    built := fun s => by
      split
      · next h => exact h ▸ hd
      · exact p.built s }

end Process

namespace State

variable {κ : Type} [DecidableEq κ]

def setProcess (s : State setup κ) (k : κ) (p : Option (Process setup)) : State setup κ :=
  { s with process := fun k' => if k' = k then p else s.process k' }

/-- The process ends, and so does its leadership. -/
def kill (s : State setup κ) (k : κ) : State setup κ :=
  { s.setProcess k none with leader := s.leader.filter fun l => l.1 ≠ k }

/-- The transaction of a sealed bar, as far as the detector goes: its snapshot, and the transition. -/
def commit (s : State setup κ) (symbol : String) (d : RegimeDetector K)
    (o : Option (RegimeTransition K)) : State setup κ :=
  { s with
    store := { s.store with
      value := fun k =>
        if k = .state .regime symbol then some (.snapshot d.snapshot) else s.store.value k }
    alerts := s.alerts ++ o.toList }

end State

/-- The symbol whose detector state a key holds. -/
def Key.detectorOf : Key → Option String
  | .state .regime symbol => some symbol
  | .archive _ .regime symbol => some symbol
  | _ => none

variable {κ : Type} [DecidableEq κ]

/-- One step. A bar is sealed only for a symbol the process subscribes to. -/
inductive Step (setup : Setup K) : State setup κ → Action K κ → State setup κ → Prop
  | start {s k provider symbols} (hidle : s.process k = none) (hnd : symbols.Nodup) :
    Step setup s (.start k provider symbols) (s.setProcess k (some (.fresh setup provider symbols hnd)))
  | acquire {s k p} (hp : s.process k = some p) (hfree : s.leader = none) :
    Step setup s (.acquire k) { s with leader := some (k, .elected) }
  | adopt {s k p r} (hp : s.process k = some p) (hlead : s.leader = some (k, .elected))
      (hok : (adoptProvider s.store p.symbols p.provider.name).2 = .ok r) :
    Step setup s (.adopt k)
      { s with
        store := (adoptProvider s.store p.symbols p.provider.name).1
        leader := some (k, .adopted) }
  | adoptUnheard {s k p} (hp : s.process k = some p) (hlead : s.leader = some (k, .elected)) :
    Step setup s (.adoptUnheard k)
      (({ s with store := (adoptProvider s.store p.symbols p.provider.name).1 } : State setup κ).kill k)
  | restore {s k p scanned} (hp : s.process k = some p) (hlead : s.leader = some (k, .adopted))
      -- `SCAN` returns every key that exists throughout
      (hscan : ∀ provider symbol v, s.store.value (.archive provider .regime symbol) = some v →
        (provider, symbol) ∈ scanned) :
    Step setup s (.restore k scanned)
      { s.setProcess k (some (p.rehydrated s.store scanned)) with leader := some (k, .leading) }
  | sealBar {s k p symbol bar d o} (hp : s.process k = some p) (hlead : s.leader = some (k, .leading))
      (hmem : symbol ∈ p.symbols) (hup : (p.detector symbol).update bar = some (d, o)) :
    Step setup s (.sealBar k symbol bar)
      ((s.commit symbol d o).setProcess k (some (p.fed symbol d (built_update (p.built symbol) hup))))
  | sealBarUnheard {s k p symbol bar d o} (hp : s.process k = some p)
      (hlead : s.leader = some (k, .leading)) (hmem : symbol ∈ p.symbols)
      (hup : (p.detector symbol).update bar = some (d, o)) :
    Step setup s (.sealBarUnheard k symbol bar) ((s.commit symbol d o).kill k)
  | handBack {s k} (hlead : s.leader = some (k, .leading)) :
    Step setup s (.handBack k) { s with leader := none }
  | crash {s k} : Step setup s (.crash k) (s.kill k)
  /-- Everything else writes and drops only what is no detector's state. -/
  | touch {s key value} (hkey : key.detectorOf = none) :
    Step setup s (.touch key value)
      { s with
        store := { s.store with value := fun k => if k = key then value else s.store.value k } }

/-- Nothing runs and no transition was written: what is stored of a detector is a snapshot of one that
committed none. -/
structure Fresh (s : State setup κ) : Prop where
  alerts : s.alerts = []
  process : ∀ k, s.process k = none
  leader : s.leader = none
  recorded : ∃ recorded : Option Provider, s.store.marker = recorded.map Provider.name
  stored : ∀ k symbol, k.detectorOf = some symbol → ∀ v, s.store.value k = some v →
    ∃ d, v = .snapshot d ∧ d.trigger.standing = .initial

variable (setup κ) in
def leaderships : Lts (State setup κ) (Action K κ) where
  init := Fresh
  step := Step setup

end FxTracker.Ingestor
