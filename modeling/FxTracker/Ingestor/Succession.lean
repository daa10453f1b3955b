import FxTracker.Ingestor.Leadership

/-!
# What a leader knows of the log

A leader's detectors know of the transitions written so far what their standing shows. What they know is
right for as long as every leader starts with what is right.

* `Fresh.led` — at the start there is no leader
* `Led.step` — a step keeps the leader's knowledge, if a restore gives it the right one
-/

namespace FxTracker.Ingestor

open Alerts

variable {K : Type} [LE K] [DecidableLE K]

/-- The transitions written for a symbol. -/
def logOf (alerts : List (RegimeTransition K)) (symbol : String) : List (RegimeTransition K) :=
  alerts.filter (·.symbol = symbol)

omit [LE K] [DecidableLE K] in
theorem logOf_append {alerts : List (RegimeTransition K)} {symbol : String}
    {o : Option (RegimeTransition K)} (ho : ∀ tr ∈ o, tr.symbol = symbol) (symbol' : String) :
    logOf (alerts ++ o.toList) symbol' =
      if symbol' = symbol then logOf alerts symbol' ++ o.toList else logOf alerts symbol' := by
  unfold logOf
  rw [List.filter_append]
  cases o with
  | none => simp
  | some tr =>
    have hsymbol := ho tr rfl
    by_cases h : symbol' = symbol
    · simp [h, hsymbol]
    · have hne : tr.symbol ≠ symbol' := fun heq => h (heq.symm.trans hsymbol)
      simp [h, hne]

def standingOf (alerts : List (RegimeTransition K)) (symbol : String) : Standing :=
  (logOf alerts symbol).foldl Standing.next .initial

omit [LE K] [DecidableLE K] in
theorem standingOf_append {alerts : List (RegimeTransition K)} {symbol : String}
    {o : Option (RegimeTransition K)} (ho : ∀ tr ∈ o, tr.symbol = symbol) (symbol' : String) :
    standingOf (alerts ++ o.toList) symbol' =
      if symbol' = symbol then o.toList.foldl Standing.next (standingOf alerts symbol')
      else standingOf alerts symbol' := by
  unfold standingOf
  rw [logOf_append ho]
  split
  · rw [List.foldl_append]
  · rfl

/-- What is known of a log: `view` of where it stands decides what transition `ok` accepts next, and is
decided by it. -/
structure Knows {β : Type} (view : Standing → β) (ok : Standing → RegimeTransition K → Prop)
    (cooldown : Int) : Prop where
  ok : ∀ s s' tr, view s = view s' → s.Continues cooldown tr → ok s' tr
  next : ∀ s s' (tr : RegimeTransition K), view s = view s' → view (s.next tr) = view (s'.next tr)

variable {setup : Setup K} {κ : Type} {β : Type} {view : Standing → β}
  {ok : Standing → RegimeTransition K → Prop} {s t : State setup κ} {a : Action K κ}

/-- The log of every symbol is as it should be, and so is what the leader knows of it. -/
structure Led (view : Standing → β) (ok : Standing → RegimeTransition K → Prop)
    (s : State setup κ) : Prop where
  log : ∀ symbol, Log.Follows Standing.next ok .initial (logOf s.alerts symbol)
  alive : ∀ k φ, s.leader = some (k, φ) → ∃ p, s.process k = some p
  leading : ∀ k p, s.leader = some (k, .leading) → s.process k = some p → ∀ symbol ∈ p.symbols,
    view (p.detector symbol).trigger.standing = view (standingOf s.alerts symbol)

theorem Fresh.led (h : Fresh s) : Led view ok s where
  log symbol := by
    rw [h.alerts]
    trivial
  alive k φ hlead := by
    rw [h.leader] at hlead
    cases hlead
  leading k p hlead := by
    rw [h.leader] at hlead
    cases hlead

/-! ## One step -/

section Kill

variable [DecidableEq κ]

theorem leader_kill {k k' : κ} {φ : Phase} (h : (s.kill k).leader = some (k', φ)) :
    s.leader = some (k', φ) ∧ k' ≠ k := by
  have hfilter : s.leader.filter (fun l => l.1 ≠ k) = some (k', φ) := h
  rw [Option.filter_eq_some_iff] at hfilter
  exact ⟨hfilter.1, of_decide_eq_true hfilter.2⟩

theorem process_kill {k k' : κ} (h : k' ≠ k) : (s.kill k).process k' = s.process k' := if_neg h

theorem process_kill_some {k k' : κ} {p : Process setup} (h : (s.kill k).process k' = some p) :
    s.process k' = some p := by
  unfold State.kill State.setProcess at h
  dsimp only at h
  split at h
  · cases h
  · exact h

theorem process_setProcess_some {k k' : κ} {p : Option (Process setup)} {p' : Process setup}
    (h : (s.setProcess k p).process k' = some p') : k' = k ∧ p = some p' ∨ s.process k' = some p' := by
  unfold State.setProcess at h
  dsimp only at h
  split at h
  · next heq => exact .inl ⟨heq, h⟩
  · exact .inr h

/-- The end of a process. -/
theorem Led.kill (h : Led view ok s) (k : κ) : Led view ok (s.kill k) where
  log := h.log
  alive k' φ hlead := by
    obtain ⟨hlead, hne⟩ := leader_kill hlead
    rw [process_kill hne]
    exact h.alive k' φ hlead
  leading k' p hlead hp :=
    h.leading k' p (leader_kill hlead).1 (process_kill_some hp)

end Kill

variable [LT K] [DecidableLT K] [FloatMath K]

/-- A restore gives the new leader the right knowledge. -/
def Returns (view : Standing → β) (s : State setup κ) : Action K κ → Prop
  | .restore k scanned => ∀ p, s.process k = some p → ∀ symbol ∈ p.symbols,
    view (restoreDetectors s.store p.symbols scanned p.detector symbol).trigger.standing =
      view (standingOf s.alerts symbol)
  | _ => True

/-- What an update of a leader's detector adds to the log. -/
theorem update_facts {symbol : String} {d d' : RegimeDetector K} {bar : SealedBar K}
    {o : Option (RegimeTransition K)} (hb : Built setup symbol d)
    (hup : d.update bar = some (d', o)) :
    (∀ tr ∈ o, tr.symbol = symbol) ∧
      (∀ tr ∈ o, d.trigger.standing.Continues setup.trigger.cooldown tr) ∧
      d'.trigger.standing = o.toList.foldl Standing.next d.trigger.standing := by
  have hstep := RegimeDetector.update_step hup
  obtain ⟨hcont, hstanding⟩ := SchmittTrigger.standing_of_steps hstep
  refine ⟨fun tr htr => ?_, fun tr htr => hb.trigger.2 ▸ hcont tr htr, hstanding⟩
  cases htr
  exact hstep.symbol.trans hb.trigger.1

/-- **The transaction of a sealed bar** extends the log as it should be. -/
theorem follows_commit (hknows : Knows view ok setup.trigger.cooldown) (h : Led view ok s)
    {symbol : String} {d d' : RegimeDetector K} {bar : SealedBar K} {o : Option (RegimeTransition K)}
    (hb : Built setup symbol d) (hview : view d.trigger.standing = view (standingOf s.alerts symbol))
    (hup : d.update bar = some (d', o)) (symbol' : String) :
    Log.Follows Standing.next ok .initial (logOf (s.alerts ++ o.toList) symbol') := by
  obtain ⟨hsymbol, hcont, -⟩ := update_facts hb hup
  rw [logOf_append hsymbol]
  split
  · next heq =>
    subst heq
    cases o with
    | none =>
      rw [Option.toList_none, List.append_nil]
      exact h.log symbol'
    | some tr =>
      exact Log.follows_concat_iff.mpr ⟨h.log symbol', hknows.ok _ _ tr hview (hcont tr rfl)⟩
  · exact h.log symbol'

/-- **A step keeps the leader's knowledge**, if a restore gives it the right one. -/
theorem Led.step [DecidableEq κ] (hknows : Knows view ok setup.trigger.cooldown) (h : Led view ok s)
    (hstep : Step setup s a t) (hreturns : Returns view s a) : Led view ok t := by
  cases hstep with
  | @start k provider symbols hidle hnd =>
    refine ⟨h.log, fun k' φ hlead => ?_, fun k' p hlead hp => ?_⟩
    · by_cases hk : k' = k
      · exact ⟨_, if_pos hk⟩
      · obtain ⟨p, hp⟩ := h.alive k' φ hlead
        exact ⟨p, (if_neg hk).trans hp⟩
    · -- the leader runs, and the new process did not
      have hk : k' ≠ k := by
        rintro rfl
        obtain ⟨p, hp⟩ := h.alive _ _ hlead
        rw [hidle] at hp
        cases hp
      exact h.leading k' p hlead ((if_neg hk).symm.trans hp)
  | @acquire k p hp hfree =>
    refine ⟨h.log, fun k' φ hlead => ?_, fun k' p' hlead => ?_⟩
    · cases hlead
      exact ⟨p, hp⟩
    · cases hlead
  | @adopt k p r hp hlead hok =>
    refine ⟨h.log, fun k' φ hlead' => ?_, fun k' p' hlead' => ?_⟩
    · cases hlead'
      exact ⟨p, hp⟩
    · cases hlead'
  | @adoptUnheard k p hp hlead =>
    -- the keys have moved, and the process has ended
    have hmoved : Led view ok
        ({ s with store := (adoptProvider s.store p.symbols p.provider.name).1 } : State setup κ) :=
      ⟨h.log, h.alive, h.leading⟩
    exact hmoved.kill k
  | @restore k p scanned hp hlead hscan =>
    refine ⟨h.log, fun k' φ hlead' => ?_, fun k' p' hlead' hp' => ?_⟩
    · cases hlead'
      exact ⟨_, if_pos rfl⟩
    · cases hlead'
      cases (if_pos rfl).symm.trans hp'
      exact hreturns p hp
  | @sealBar k p symbol bar d o hp hlead hmem hup =>
    have hview := h.leading k p hlead hp symbol hmem
    obtain ⟨hsymbol, -, hstanding⟩ := update_facts (p.built symbol) hup
    refine ⟨follows_commit hknows h (p.built symbol) hview hup, fun k' φ hlead' => ?_,
      fun k' p' hlead' hp' symbol' hmem' => ?_⟩
    · cases hlead.symm.trans hlead'
      exact ⟨_, if_pos rfl⟩
    · cases hlead.symm.trans hlead'
      cases (if_pos rfl).symm.trans hp'
      show view (if symbol' = symbol then d else p.detector symbol').trigger.standing =
        view (standingOf (s.alerts ++ o.toList) symbol')
      rw [standingOf_append hsymbol]
      by_cases heq : symbol' = symbol
      · subst heq
        rw [if_pos rfl, if_pos rfl, hstanding]
        cases o with
        | none => exact hview
        | some tr => exact hknows.next _ _ tr hview
      · rw [if_neg heq, if_neg heq]
        exact h.leading k p hlead hp symbol' hmem'
  | @sealBarUnheard k p symbol bar d o hp hlead hmem hup =>
    have hview := h.leading k p hlead hp symbol hmem
    refine ⟨follows_commit hknows h (p.built symbol) hview hup, fun k' φ hlead' => ?_,
      fun k' p' hlead' => ?_⟩
    · -- the leader that committed has ended
      obtain ⟨hlead', hne⟩ := leader_kill hlead'
      cases hlead.symm.trans hlead'
      exact absurd rfl hne
    · obtain ⟨hlead', hne⟩ := leader_kill hlead'
      cases hlead.symm.trans hlead'
      exact absurd rfl hne
  | @handBack k hlead =>
    exact ⟨h.log, fun _ _ hlead' => (nomatch hlead'), fun _ _ hlead' => (nomatch hlead')⟩
  | @crash k => exact h.kill k
  | @touch key value hkey => exact ⟨h.log, h.alive, h.leading⟩

end FxTracker.Ingestor
