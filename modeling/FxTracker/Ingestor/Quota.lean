import FxTracker.Lib.Lts
import FxTracker.Lib.SortedSet
import Mathlib.Algebra.Group.Int.Defs

/-!
# The request ledger

`fx_ingestor/quota.py`: every provider request is entered in one Redis set, scored by the millisecond its
caller read off the clock. Live requests are recorded, background ones take what the reserve leaves.

Any number of processes call. A call reads the clock and then runs the script, or fails; the clock and the
other calls may move on in between. Members are unique (a UUID in the source).

* `Complete` — what of the past the ledger still holds
* `take_respects_reserve` — what is true whenever `take` answers `True`
-/

namespace FxTracker.Ingestor.Quota

open Scored

/-- `HOUR_MS`. -/
def hourMs : Int := 3600000

/-- `DAY_MS`. -/
def dayMs : Int := 86400000

/-- `_UNCAPPED`. -/
def uncapped : Int := 10 ^ 12

structure QuotaLimits where
  perHour : Int
  perDay : Int
  reservePerHour : Int
  reservePerDay : Int
  deriving DecidableEq

variable {μ : Type} [LinearOrder μ]

/-- `_TAKE_LUA`: the ledger after it, and whether the request was entered. -/
def takeScript (ledger : SortedSet μ) (now hourCap dayCap : Int) (member : μ) : SortedSet μ × Bool :=
  let ledger := ledger.forgetUpTo (now - dayMs)
  let hour := ledger.countFrom (now - hourMs)
  let day := ledger.card
  if hourCap ≤ hour ∨ dayCap ≤ day then (ledger, false) else (ledger.zadd now member, true)

/-- Who calls: the live feed, or background work within limits. -/
inductive Caller
  | record
  | take (limits : QuotaLimits)
  deriving DecidableEq

/-- The caps `_enter` is called with. -/
def Caller.caps : Caller → Int × Int
  | .record => (uncapped, uncapped)
  | .take limits => (limits.perHour - limits.reservePerHour, limits.perDay - limits.reservePerDay)

/-- A call that has read the clock. -/
structure Call (μ : Type) where
  caller : Caller
  member : μ
  now : Int
  deriving DecidableEq

/-- The script of a call. -/
def Call.run (call : Call μ) (ledger : SortedSet μ) : SortedSet μ × Bool :=
  takeScript ledger call.now call.caller.caps.1 call.caller.caps.2 call.member

structure QuotaSystem (μ : Type) [LinearOrder μ] where
  /-- `int(clock() * 1000)`, for every process. -/
  clock : Int
  ledger : SortedSet μ
  /-- The calls that have not come back. -/
  calls : List (Call μ)
  /-- Every request ever entered, with its millisecond. No function of the source reads it. -/
  entered : List (Scored μ)

namespace QuotaSystem

def init (clock : Int) : QuotaSystem μ := ⟨clock, .empty, [], []⟩

inductive Action (μ : Type)
  | tick (ms : Nat)
  /-- A process begins `record` or `take`: it reads the clock. -/
  | begin (caller : Caller) (member : μ)
  /-- Redis runs the script of a call. -/
  | enter (call : Call μ)
  /-- `RedisError` before the script has run. -/
  | fail (call : Call μ)

/-- The member was never used before. -/
def Fresh (s : QuotaSystem μ) (member : μ) : Prop :=
  (∀ c ∈ s.calls, c.member ≠ member) ∧ ∀ e ∈ s.entered, e.member ≠ member

instance (s : QuotaSystem μ) (member : μ) : Decidable (s.Fresh member) := by
  unfold Fresh; infer_instance

def step (s : QuotaSystem μ) : Action μ → Option (QuotaSystem μ)
  | .tick ms => some { s with clock := s.clock + ms }
  | .begin caller member =>
    if s.Fresh member then some { s with calls := s.calls ++ [⟨caller, member, s.clock⟩] } else none
  | .enter call =>
    if call ∈ s.calls then
      let (ledger, granted) := call.run s.ledger
      some { s with
        ledger
        calls := s.calls.erase call
        entered := if granted then s.entered ++ [toLex (call.now, call.member)] else s.entered }
    else none
  | .fail call => if call ∈ s.calls then some { s with calls := s.calls.erase call } else none

/-! ## What the ledger holds -/

/-- Nothing younger than a day is missing from the ledger, and nothing else is in it. -/
structure Complete (s : QuotaSystem μ) : Prop where
  asked : ∀ c ∈ s.calls, c.now ≤ s.clock
  past : ∀ e ∈ s.entered, e.score ≤ s.clock
  held : ∀ e ∈ s.ledger.entries, e ∈ s.entered
  recent : ∀ e ∈ s.entered, s.clock - dayMs < e.score → e ∈ s.ledger.entries
  distinct : s.entered.Pairwise fun e e' => e.member ≠ e'.member
  single : s.calls.Pairwise fun c c' => c.member ≠ c'.member
  unentered : ∀ c ∈ s.calls, ∀ e ∈ s.entered, e.member ≠ c.member

theorem complete_init (clock : Int) : Complete (init clock : QuotaSystem μ) where
  asked _ h := absurd h List.not_mem_nil
  past _ h := absurd h List.not_mem_nil
  held _ h := absurd h List.not_mem_nil
  recent _ h := absurd h List.not_mem_nil
  distinct := .nil
  single := .nil
  unentered _ h := absurd h List.not_mem_nil

variable {s s' : QuotaSystem μ} {call : Call μ}

/-- A refused request leaves the ledger less what is a day old; a granted one is added to that. -/
theorem run_cases (call : Call μ) (ledger : SortedSet μ) :
    call.run ledger = (ledger.forgetUpTo (call.now - dayMs), false) ∨
      call.run ledger = ((ledger.forgetUpTo (call.now - dayMs)).zadd call.now call.member, true) ∧
        ((ledger.forgetUpTo (call.now - dayMs)).countFrom (call.now - hourMs) : Int) < call.caller.caps.1 ∧
        ((ledger.forgetUpTo (call.now - dayMs)).card : Int) < call.caller.caps.2 := by
  unfold Call.run takeScript
  dsimp only
  split
  · exact .inl rfl
  · next hroom =>
    rw [not_or, not_le, not_le] at hroom
    exact .inr ⟨rfl, hroom⟩

theorem enter_eq_some (h : s.step (.enter call) = some s') :
    call ∈ s.calls ∧ s' = { s with
      ledger := (call.run s.ledger).1
      calls := s.calls.erase call
      entered := if (call.run s.ledger).2 then s.entered ++ [toLex (call.now, call.member)] else s.entered } := by
  simp only [step] at h
  split at h
  · next hmem => exact ⟨hmem, (Option.some.inj h).symm⟩
  · cases h

/-- The calls that are left have other members. -/
theorem ne_member_of_mem_erase {calls : List (Call μ)} (h : calls.Pairwise fun c c' => c.member ≠ c'.member)
    (hmem : call ∈ calls) {c : Call μ} (hc : c ∈ calls.erase call) : c.member ≠ call.member := by
  have hperm := (List.perm_cons_erase hmem).pairwise_iff (R := fun c c' : Call μ => c.member ≠ c'.member)
    fun h => h.symm
  exact ((List.pairwise_cons.mp (hperm.mp h)).1 c hc).symm

/-- The calls that are left when one comes back. -/
theorem Complete.erase (h : Complete s) (call : Call μ) : Complete { s with calls := s.calls.erase call } where
  asked c hc := h.asked c (List.mem_of_mem_erase hc)
  past := h.past
  held := h.held
  recent := h.recent
  distinct := h.distinct
  single := h.single.sublist List.erase_sublist
  unentered c hc := h.unentered c (List.mem_of_mem_erase hc)

/-- What a script forgets is a day old. -/
theorem Complete.kept (h : Complete s) {now : Int} (hnow : now ≤ s.clock) :
    ∀ e ∈ s.entered, s.clock - dayMs < e.score → e ∈ (s.ledger.forgetUpTo (now - dayMs)).entries :=
  fun e he hrecent => SortedSet.mem_forgetUpTo.mpr ⟨h.recent e he hrecent, by omega⟩

/-- **A script keeps the ledger complete.** -/
theorem Complete.enter (h : Complete s) (hstep : s.step (.enter call) = some s') : Complete s' := by
  obtain ⟨hmem, rfl⟩ := enter_eq_some hstep
  have hnow := h.asked call hmem
  have hkept := h.kept hnow
  rcases run_cases call s.ledger with hrun | ⟨hrun, -, -⟩
  · rw [hrun]
    exact { h.erase call with
      held := fun e he => h.held e (SortedSet.mem_forgetUpTo.mp he).1
      recent := hkept }
  · rw [hrun]
    have hnew : ∀ e ∈ s.entered, e.member ≠ call.member := h.unentered call hmem
    refine { h.erase call with
      past := ?_
      held := ?_
      recent := ?_
      distinct := ?_
      unentered := ?_ }
    · intro e he
      rcases List.mem_append.mp he with he | he
      · exact h.past e he
      · rw [List.mem_singleton.mp he]
        exact hnow
    · intro e he
      rcases SortedSet.mem_zadd.mp he with rfl | ⟨he, -⟩
      · exact List.mem_append_right _ (List.mem_singleton_self _)
      · exact List.mem_append_left _ (h.held e (SortedSet.mem_forgetUpTo.mp he).1)
    · intro e he hrecent
      refine SortedSet.mem_zadd.mpr ?_
      rcases List.mem_append.mp he with he | he
      · exact .inr ⟨hkept e he hrecent, hnew e he⟩
      · exact .inl (List.mem_singleton.mp he)
    · refine List.pairwise_append.mpr ⟨h.distinct, List.pairwise_singleton _ _, ?_⟩
      intro e he e' he'
      rw [List.mem_singleton.mp he']
      exact hnew e he
    · intro c hc e he
      rcases List.mem_append.mp he with he | he
      · exact h.unentered c (List.mem_of_mem_erase hc) e he
      · -- the other calls have other members
        rw [List.mem_singleton.mp he]
        exact (ne_member_of_mem_erase h.single hmem hc).symm

theorem Complete.step {a : Action μ} (h : Complete s) (hstep : s.step a = some s') : Complete s' := by
  cases a with
  | tick ms =>
    cases hstep
    refine { h with asked := ?_, past := ?_, recent := ?_ }
    · exact fun c hc => (h.asked c hc).trans (Int.le_add_of_nonneg_right (Int.natCast_nonneg ms))
    · exact fun e he => (h.past e he).trans (Int.le_add_of_nonneg_right (Int.natCast_nonneg ms))
    · intro e he hrecent
      dsimp only at hrecent
      exact h.recent e he (by omega)
  | begin caller member =>
    simp only [QuotaSystem.step] at hstep
    split at hstep
    · next hfresh =>
      cases hstep
      refine { h with asked := ?_, single := ?_, unentered := ?_ }
      · intro c hc
        rcases List.mem_append.mp hc with hc | hc
        · exact h.asked c hc
        · rw [List.mem_singleton.mp hc]
      · refine List.pairwise_append.mpr ⟨h.single, List.pairwise_singleton _ _, ?_⟩
        intro c hc c' hc'
        rw [List.mem_singleton.mp hc']
        exact hfresh.1 c hc
      · intro c hc
        rcases List.mem_append.mp hc with hc | hc
        · exact h.unentered c hc
        · rw [List.mem_singleton.mp hc]
          exact hfresh.2
    · cases hstep
  | enter call => exact h.enter hstep
  | fail call =>
    simp only [QuotaSystem.step] at hstep
    split at hstep
    · cases hstep
      exact h.erase call
    · cases hstep

theorem complete_of_reachable {clock : Int} (hs : (Lts.ofFn (init clock) step).Reachable s) : Complete s :=
  hs.invariant (fun _ h => h ▸ complete_init clock) fun _ _ _ h hstep => h.step hstep

/-- Only what is a day old is forgotten. -/
theorem Complete.forgets {a : Action μ} (h : Complete s) (hstep : s.step a = some s') {e : Scored μ}
    (he : e ∈ s.ledger.entries) (hgone : e ∉ s'.ledger.entries) : e.score ≤ s.clock - dayMs := by
  by_contra hrecent
  have hs' := h.step hstep
  have hentered : e ∈ s'.entered ∧ s'.clock = s.clock := by
    cases a with
    | tick ms => cases hstep; exact absurd he hgone
    | begin caller member =>
      simp only [QuotaSystem.step] at hstep
      split at hstep
      · cases hstep; exact absurd he hgone
      · cases hstep
    | enter call =>
      obtain ⟨-, rfl⟩ := enter_eq_some hstep
      refine ⟨?_, rfl⟩
      dsimp only
      split
      · exact List.mem_append_left _ (h.held e he)
      · exact h.held e he
    | fail call =>
      simp only [QuotaSystem.step] at hstep
      split at hstep
      · cases hstep; exact absurd he hgone
      · cases hstep
  exact hgone (hs'.recent e hentered.1 (by rw [hentered.2]; omega))

/-- The requests of a window that the ledger counts. -/
theorem Complete.countP_le {lo : Int} {counted : List (Scored μ)} (h : Complete s)
    (hcounted : ∀ e ∈ s.entered, lo ≤ e.score → e ∈ counted) :
    (s.entered.countP fun e => lo ≤ e.score) ≤ counted.length := by
  rw [List.countP_eq_length_filter]
  refine List.Subperm.length_le (List.subperm_of_subset ?_ ?_)
  · exact (h.distinct.imp fun hne heq => hne (congrArg _ heq)).filter _
  · intro e he
    obtain ⟨hmem, hlo⟩ := List.mem_filter.mp he
    exact hcounted e hmem (of_decide_eq_true hlo)

/-- The hour that the script counts begins no later than the hour before now. -/
theorem Complete.hour_le (h : Complete s) {now : Int} (hnow : now ≤ s.clock) :
    (s.entered.countP fun e => s.clock - hourMs ≤ e.score)
      ≤ (s.ledger.forgetUpTo (now - dayMs)).countFrom (now - hourMs) := by
  have hinHour : ∀ e ∈ s.entered, s.clock - hourMs ≤ e.score →
      e ∈ (s.ledger.forgetUpTo (now - dayMs)).entries.filter fun e => now - hourMs ≤ e.score := by
    intro e he hlo
    refine List.mem_filter.mpr ⟨h.kept hnow e he ?_, decide_eq_true (by omega)⟩
    unfold hourMs at hlo
    unfold dayMs
    omega
  calc (s.entered.countP fun e => s.clock - hourMs ≤ e.score)
      ≤ ((s.ledger.forgetUpTo (now - dayMs)).entries.filter fun e => now - hourMs ≤ e.score).length :=
        h.countP_le hinHour
    _ = (s.ledger.forgetUpTo (now - dayMs)).countFrom (now - hourMs) := List.countP_eq_length_filter.symm

theorem Complete.day_le (h : Complete s) {now : Int} (hnow : now ≤ s.clock) :
    (s.entered.countP fun e => s.clock - dayMs < e.score) ≤ (s.ledger.forgetUpTo (now - dayMs)).card := by
  have hstrict : (s.entered.countP fun e => s.clock - dayMs < e.score) =
      s.entered.countP fun e => s.clock - dayMs + 1 ≤ e.score :=
    List.countP_congr fun e _ => by
      simp only [decide_eq_true_eq]
      omega
  rw [hstrict]
  exact h.countP_le fun e he hlo => h.kept hnow e he (by omega)

/-- **The reserve is respected.** Whenever `take` answers `True`, the requests entered in the hour and in the
day before, this one with them, are within the allowance less the reserve; and a script forgets nothing that
is less than a day old. -/
theorem take_respects_reserve {clock : Int} (hs : (Lts.ofFn (init clock) step).Reachable s) :
    (∀ (call : Call μ) (limits : QuotaLimits) (s' : QuotaSystem μ), call.caller = .take limits →
      s.step (.enter call) = some s' → (call.run s.ledger).2 = true →
      ((s'.entered.countP fun e => s'.clock - hourMs ≤ e.score : Nat) : Int) ≤ limits.perHour - limits.reservePerHour ∧
      ((s'.entered.countP fun e => s'.clock - dayMs < e.score : Nat) : Int) ≤ limits.perDay - limits.reservePerDay) ∧
    ∀ (a : Action μ) (s' : QuotaSystem μ), s.step a = some s' →
      ∀ e ∈ s.ledger.entries, e ∉ s'.ledger.entries → e.score ≤ s.clock - dayMs := by
  have h := complete_of_reachable hs
  refine ⟨?_, fun a s' hstep e he hgone => h.forgets hstep he hgone⟩
  intro call limits s' hcaller hstep hgranted
  obtain ⟨hmem, rfl⟩ := enter_eq_some hstep
  have hnow := h.asked call hmem
  rcases run_cases call s.ledger with hrun | ⟨-, hhour, hday⟩
  · rw [hrun] at hgranted
    cases hgranted
  · rw [hcaller] at hhour hday
    simp only [Caller.caps] at hhour hday
    have hinHour := h.hour_le hnow
    have hinDay := h.day_le hnow
    -- and this one
    have hone : ∀ p : Scored μ → Bool, [toLex (call.now, call.member)].countP p ≤ 1 := fun p => List.countP_le_length
    simp only [hgranted, if_true, List.countP_append]
    constructor
    · have hlast := hone fun e => s.clock - hourMs ≤ e.score
      omega
    · have hlast := hone fun e => s.clock - dayMs < e.score
      omega

/-- One live request is on the ledger, and background work takes the one more that the reserve leaves. -/
theorem take_respects_reserve_two : ∃ s s' : QuotaSystem Nat, ∃ call : Call Nat,
    (Lts.ofFn (init 1000) step).Reachable s ∧ s.step (.enter call) = some s' ∧ (call.run s.ledger).2 = true ∧
      ((s'.entered.countP fun e => s'.clock - hourMs ≤ e.score : Nat) : Int) ≤ 2 := by
  let limits : QuotaLimits := ⟨5, 50, 3, 30⟩
  have hrun : Lts.exec step (init 1000) [.begin .record 1, .enter ⟨.record, 1, 1000⟩, .tick 60000,
      .begin (.take limits) 2] =
        some ⟨61000, SortedSet.empty.zadd 1000 1, [⟨.take limits, 2, 61000⟩], [toLex (1000, 1)]⟩ := rfl
  have hs := Lts.reachable_of_exec hrun
  refine ⟨_, _, ⟨.take limits, 2, 61000⟩, hs, rfl, by decide +kernel, ?_⟩
  exact ((take_respects_reserve hs).1 ⟨.take limits, 2, 61000⟩ limits _ rfl rfl (by decide +kernel)).1

end QuotaSystem

end FxTracker.Ingestor.Quota
