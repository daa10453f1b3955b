import FxTracker.Lib.Dict
import FxTracker.Alerts.Hysteresis
import Mathlib.Data.List.Induction

/-!
# The regime a browser shows

`apps/web/src/lib/stream/store.ts`: `setVol`, `pushAlert`, `seedRegime`, and the frames
`useForexStream` hands them. Three kinds of frame write one cell per symbol. A volatility frame
writes the regime it carries, an alert that is new writes the regime it went to, and a snapshot
writes only where nothing is held.

* `regime_after_snapshot_iff` — a snapshot leaves the regime that is due exactly where none is
  held or the one held is due already
* `regime_after_reconnect` — so a transition missed while disconnected stays missed
-/

namespace FxTracker.Web

open Alerts (Regime)

/-- What of an alert frame the store reads. -/
structure Transition where
  s : String
  seq : Int
  newRegime : Regime
  deriving DecidableEq, Repr

/-- `regime` of a snapshot: the committed regime, `none` for "unknown", and the number of the
transition that came to it. -/
structure RegimeState where
  regime : Option Regime
  seq : Int
  deriving DecidableEq, Repr

/-- `ALERT_CAP`. -/
def alertCap : Nat := 60

/-- The regime and alert maps of `MarketStore`. A regime held as `none` is "unknown". -/
structure RegimeStore where
  regimes : Dict String (Option Regime) := .empty
  alerts : Dict String (List Transition) := .empty

/-- The frames that touch them. The snapshot has an entry for each of its symbols. -/
inductive RegimeFrame
  | vol (s : String) (regime : Option Regime)
  | alert (t : Transition)
  | snapshot (data : Dict String RegimeState)

namespace RegimeStore

/-- `regime`: "unknown" where nothing is held. -/
def regime (store : RegimeStore) (s : String) : Option Regime := (store.regimes.get? s).getD none

/-- `#setRegime`. -/
def setRegime (store : RegimeStore) (s : String) (r : Option Regime) : RegimeStore :=
  if store.regimes.get? s = some r then store else { store with regimes := store.regimes.set s r }

/-- `setVol`, as far as the regime goes. -/
def setVol (store : RegimeStore) (s : String) (r : Option Regime) : RegimeStore :=
  if r ≠ none then store.setRegime s r else store

/-- `#recordAlert`: delivery is at least once, so a number already listed is not new. -/
def recordAlert (store : RegimeStore) (t : Transition) : RegimeStore :=
  let prior := (store.alerts.get? t.s).getD []
  if prior.any (·.seq = t.seq) then store
  else
    { store with alerts := store.alerts.set t.s ((t :: prior).take alertCap) }.setRegime t.s
      (some t.newRegime)

/-- `seedRegime`. -/
def seedRegime (store : RegimeStore) (s : String) (r : Option Regime) : RegimeStore :=
  if store.regimes.contains s then store else store.setRegime s r

def apply (store : RegimeStore) : RegimeFrame → RegimeStore
  | .vol s r => store.setVol s r
  | .alert t => store.recordAlert t
  | .snapshot data => data.entries.foldl (fun store e => store.seedRegime e.1 e.2.regime) store

/-- The store of a tab after the frames of its connections so far. -/
def after (frames : List RegimeFrame) : RegimeStore := frames.foldl apply {}

/-! ## What a frame writes -/

@[simp] theorem get?_setRegime (store : RegimeStore) (s s' : String) (r : Option Regime) :
    (store.setRegime s r).regimes.get? s' = if s' = s then some r else store.regimes.get? s' := by
  unfold setRegime
  split
  · next h =>
    split
    · next heq => rw [heq, h]
    · rfl
  · exact Dict.get?_set ..

theorem get?_seedRegime (store : RegimeStore) (s s' : String) (r : Option Regime) :
    (store.seedRegime s r).regimes.get? s'
      = if s' = s ∧ store.regimes.get? s = none then some r else store.regimes.get? s' := by
  unfold seedRegime Dict.contains
  cases h : store.regimes.get? s with
  | none => simp
  | some held => simp

/-- **A snapshot writes only where nothing is held.** -/
theorem get?_snapshot (store : RegimeStore) (data : Dict String RegimeState) (s : String) :
    (store.apply (.snapshot data)).regimes.get? s
      = (store.regimes.get? s).or ((data.get? s).map RegimeState.regime) := by
  have hfold : ∀ (l : List (String × RegimeState)) (store : RegimeStore),
      (l.foldl (fun store e => store.seedRegime e.1 e.2.regime) store).regimes.get? s
        = (store.regimes.get? s).or
            (((l.find? fun e => e.1 = s).map Prod.snd).map RegimeState.regime) := by
    intro l
    induction l with
    | nil => intro store; simp
    | cons e l ih =>
      intro store
      rw [List.foldl_cons, ih, get?_seedRegime]
      by_cases hk : e.1 = s
      · cases hs : store.regimes.get? s <;> simp [hk, hs]
      · have hk' : ¬ s = e.1 := fun he => hk he.symm
        simp [hk, hk']
  exact hfold data.entries store

/-- No frame takes a regime away. -/
theorem isSome_apply {store : RegimeStore} {s : String} (frame : RegimeFrame)
    (h : (store.regimes.get? s).isSome = true) :
    ((store.apply frame).regimes.get? s).isSome = true := by
  have hset : ∀ (store : RegimeStore) s' r, (store.regimes.get? s).isSome = true →
      ((store.setRegime s' r).regimes.get? s).isSome = true := by
    intro store s' r h
    rw [get?_setRegime]
    split
    · rfl
    · exact h
  cases frame with
  | vol s' r =>
    show ((store.setVol s' r).regimes.get? s).isSome = true
    unfold setVol
    split
    · exact hset store s' r h
    · exact h
  | alert t =>
    show ((store.recordAlert t).regimes.get? s).isSome = true
    unfold recordAlert
    dsimp only
    split
    · exact h
    · exact hset _ t.s (some t.newRegime) h
  | snapshot data =>
    rw [get?_snapshot]
    obtain ⟨r, hr⟩ := Option.isSome_iff_exists.mp h
    rw [hr, Option.some_or]
    rfl

/-- A symbol whose alerts list is there has a regime. -/
def AlertsSeen (store : RegimeStore) : Prop :=
  ∀ s, (store.alerts.get? s).isSome = true → (store.regimes.get? s).isSome = true

theorem alerts_setRegime (store : RegimeStore) (s : String) (r : Option Regime) :
    (store.setRegime s r).alerts = store.alerts := by
  unfold setRegime; split <;> rfl

theorem alertsSeen_recordAlert {store : RegimeStore} (h : AlertsSeen store) (t : Transition) :
    AlertsSeen (store.recordAlert t) ∧ ((store.recordAlert t).regimes.get? t.s).isSome = true := by
  unfold recordAlert
  dsimp only
  split
  · next hnew =>
    -- a number already listed is listed for a symbol that has a list
    refine ⟨h, h t.s ?_⟩
    cases hl : store.alerts.get? t.s with
    | none => rw [hl] at hnew; simp at hnew
    | some l => rfl
  · refine ⟨fun s hs => ?_, by simp⟩
    rw [alerts_setRegime, Dict.get?_set] at hs
    rw [get?_setRegime]
    by_cases he : s = t.s
    · simp [he]
    · rw [if_neg he] at hs ⊢
      exact h s hs

theorem alertsSeen_apply {store : RegimeStore} (h : AlertsSeen store) (frame : RegimeFrame) :
    AlertsSeen (store.apply frame) := by
  cases frame with
  | vol s' r =>
    intro s hs
    refine isSome_apply (.vol s' r) (h s ?_)
    show (store.alerts.get? s).isSome = true
    have halerts : (store.setVol s' r).alerts = store.alerts := by
      unfold setVol
      split
      · exact alerts_setRegime ..
      · rfl
    rw [← halerts]
    exact hs
  | alert t => exact (alertsSeen_recordAlert h t).1
  | snapshot data =>
    have halerts : ∀ (l : List (String × RegimeState)) (store : RegimeStore),
        (l.foldl (fun store e => store.seedRegime e.1 e.2.regime) store).alerts = store.alerts := by
      intro l
      induction l with
      | nil => exact fun _ => rfl
      | cons e l ih =>
        intro store
        rw [List.foldl_cons, ih]
        unfold seedRegime
        split
        · rfl
        · exact alerts_setRegime ..
    intro s hs
    have hs' : (store.alerts.get? s).isSome = true := by
      rw [← halerts data.entries store]
      exact hs
    exact isSome_apply (.snapshot data) (h s hs')

theorem after_concat (frames : List RegimeFrame) (frame : RegimeFrame) :
    after (frames ++ [frame]) = (after frames).apply frame := by
  simp [after]

theorem alertsSeen_after (frames : List RegimeFrame) : AlertsSeen (after frames) := by
  induction frames using List.reverseRecOn with
  | nil => intro s hs; cases hs
  | append_singleton frames frame ih =>
    rw [after_concat]
    exact alertsSeen_apply ih frame

/-- **An alert, once applied, leaves a regime held.** -/
theorem isSome_of_alert {frames : List RegimeFrame} {t : Transition} (h : .alert t ∈ frames) :
    ((after frames).regimes.get? t.s).isSome = true := by
  induction frames using List.reverseRecOn with
  | nil => cases h
  | append_singleton frames frame ih =>
    rw [after_concat]
    rcases List.mem_append.mp h with h | h
    · exact isSome_apply frame (ih h)
    · rw [List.mem_singleton] at h
      subst h
      exact (alertsSeen_recordAlert (alertsSeen_after frames) t).2

end RegimeStore

/-! ## The regime that is due -/

/-- The alerts of a symbol among the frames applied. -/
def alertsOf (s : String) (frames : List RegimeFrame) : List Transition :=
  frames.filterMap fun frame =>
    match frame with
    | .alert t => if t.s = s then some t else none
    | _ => none

/-- The transition with the greatest number; of two with one number the one applied first. -/
def newestOf (alerts : List Transition) : Option Transition :=
  alerts.foldl (fun best t =>
    match best with
    | none => some t
    | some b => if b.seq < t.seq then some t else some b) none

/-- What the store should show right after a snapshot: the snapshot's regime, or that of the newest
alert applied whose number is past the snapshot's. -/
def due (frames : List RegimeFrame) (s : String) (state : RegimeState) : Option Regime :=
  match newestOf ((alertsOf s frames).filter fun t => state.seq < t.seq) with
  | some t => some t.newRegime
  | none => state.regime

theorem due_of_no_alerts {frames : List RegimeFrame} {s : String} (h : alertsOf s frames = [])
    (state : RegimeState) : due frames s state = state.regime := by
  unfold due
  rw [h]
  rfl

/--
**The regime after a snapshot is due exactly where the early return of `seedRegime` does no harm.**

After any frames, on any connections, a snapshot is applied. The store shows the regime due for
each symbol of it if and only if, for each, it held no regime before or the one that is due.
-/
theorem regime_after_snapshot_iff (frames : List RegimeFrame) (data : Dict String RegimeState) :
    (∀ s state, data.get? s = some state →
      (RegimeStore.after (frames ++ [.snapshot data])).regime s = due frames s state) ↔
    ∀ s state, data.get? s = some state →
      (RegimeStore.after frames).regimes.get? s = none ∨
        (RegimeStore.after frames).regimes.get? s = some (due frames s state) := by
  have hshown : ∀ s state, data.get? s = some state →
      (RegimeStore.after (frames ++ [.snapshot data])).regime s
        = ((RegimeStore.after frames).regimes.get? s).getD state.regime := by
    intro s state hs
    rw [RegimeStore.after_concat, RegimeStore.regime, RegimeStore.get?_snapshot, hs]
    cases (RegimeStore.after frames).regimes.get? s <;> rfl
  constructor
  · intro h s state hs
    have hdue := h s state hs
    rw [hshown s state hs] at hdue
    cases hheld : (RegimeStore.after frames).regimes.get? s with
    | none => exact Or.inl rfl
    | some r =>
      rw [hheld, Option.getD_some] at hdue
      exact Or.inr (by rw [hdue])
  · intro h s state hs
    rw [hshown s state hs]
    rcases h s state hs with hnone | hheld
    · -- nothing is held, so no alert of the symbol was applied
      have hno : alertsOf s frames = [] := by
        rw [alertsOf, List.filterMap_eq_nil_iff]
        rintro (⟨s', r⟩ | t | d) hmem
        · rfl
        · refine if_neg fun hts => ?_
          have hsome := RegimeStore.isSome_of_alert hmem
          rw [hts, hnone] at hsome
          cases hsome
        · rfl
      rw [hnone, Option.getD_none, due_of_no_alerts hno]
    · rw [hheld, Option.getD_some]

/-- **A transition missed while disconnected.** The first snapshot says normal, the pair turns
stressed with the socket down, and the snapshot of the next connection changes nothing. -/
theorem regime_after_reconnect :
    ¬ ∀ (frames : List RegimeFrame) (data : Dict String RegimeState) s state,
      data.get? s = some state →
        (RegimeStore.after (frames ++ [.snapshot data])).regime s = due frames s state := by
  intro h
  have hstale := h [.snapshot (Dict.empty.set "EURUSD" ⟨some .normal, 3⟩)]
    (Dict.empty.set "EURUSD" ⟨some .stressed, 4⟩) "EURUSD" ⟨some .stressed, 4⟩ rfl
  exact absurd hstale (by decide)

end FxTracker.Web
