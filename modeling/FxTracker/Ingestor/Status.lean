import Mathlib.Data.List.Basic
import Mathlib.Tactic.Common

/-!
# What an ingestor says of its feed

`_publish_status` and `_heartbeat_loop` of `fx_ingestor/main.py`, in microseconds. A status names two times:
`ts`, at which the ingestor last confirmed it, and `since`, at which its state began.

* `publishStatus`, `heartbeat` — the next status
* `Trail` — the statuses that one ingestor had, the newest first
* `Trail.unbroken` — from the `since` of a status to its `ts` the ingestor was in that state
-/

namespace FxTracker.Ingestor.Status

inductive FeedState
  | starting
  | connecting
  | healthy
  | degraded
  | fatal
  | stopped
  deriving DecidableEq, Repr

structure FeedStatus where
  state : FeedState
  detail : String
  provider : String
  ts : Nat
  since : Nat
  deriving DecidableEq, Repr

/-- `_last_status` of an ingestor that starts. -/
def FeedStatus.starting (provider : String) (now : Nat) : FeedStatus := ⟨.starting, "", provider, now, now⟩

/-- The payload of `_publish_status`. -/
def publishStatus (last : FeedStatus) (provider : String) (state : FeedState) (detail : String) (now : Nat) :
    FeedStatus where
  state
  detail
  provider
  ts := now
  since := if state = last.state then last.since else now

/-- The payload of a heartbeat: the last status, confirmed now. -/
def heartbeat (last : FeedStatus) (now : Nat) : FeedStatus := { last with ts := now }

/-! ## The statuses of one ingestor -/

/-- `new` comes next after `last`. -/
structure Next (last new : FeedStatus) : Prop where
  later : last.ts ≤ new.ts
  since : new.since = if new.state = last.state then last.since else new.ts

variable {last p : FeedStatus} {trail : List FeedStatus} {now : Nat}

theorem next_publishStatus (hle : last.ts ≤ now) (provider : String) (state : FeedState) (detail : String) :
    Next last (publishStatus last provider state detail now) :=
  ⟨hle, rfl⟩

theorem next_heartbeat (hle : last.ts ≤ now) : Next last (heartbeat last now) :=
  ⟨hle, (if_pos rfl).symm⟩

/-- The statuses that one ingestor had, the newest first. -/
def Trail : List FeedStatus → Prop
  | [] => False
  | [first] => first.since = first.ts
  | new :: last :: older => Next last new ∧ Trail (last :: older)

theorem Trail.cons (h : Trail (last :: trail)) {new : FeedStatus} (hnext : Next last new) :
    Trail (new :: last :: trail) :=
  ⟨hnext, h⟩

/-- A `run` of statuses with the state of `p`, which is its newest, begins at the `since` of `p`. -/
structure Run (p : FeedStatus) (run : List FeedStatus) : Prop where
  newest : run.head? = some p
  oldest : ∃ first ∈ run, first.ts = p.since
  same : ∀ q ∈ run, q.state = p.state ∧ q.since = p.since ∧ p.since ≤ q.ts ∧ q.ts ≤ p.ts

/-- `p` is in the trail, its state unbroken from its `since` on; before that the ingestor was in another. -/
def Unbroken (trail : List FeedStatus) (p : FeedStatus) : Prop :=
  ∃ later run earlier, trail = later ++ (run ++ earlier) ∧ Run p run ∧
    ∀ q ∈ earlier.head?, q.state ≠ p.state

theorem Unbroken.cons (h : Unbroken trail p) (new : FeedStatus) : Unbroken (new :: trail) p := by
  obtain ⟨later, run, earlier, rfl, hrun, hearlier⟩ := h
  exact ⟨new :: later, run, earlier, rfl, hrun, hearlier⟩

theorem run_single (h : p.since = p.ts) : Run p [p] where
  newest := rfl
  oldest := ⟨p, List.mem_singleton_self p, h.symm⟩
  same q hq := by
    obtain rfl := List.mem_singleton.mp hq
    exact ⟨rfl, rfl, by omega, Nat.le_refl _⟩

/-- A status in the state of the last one goes on with its run. -/
theorem Run.cons {run : List FeedStatus} (h : Run last run) (hnext : Next last p)
    (hstate : p.state = last.state) : Run p (p :: run) where
  newest := rfl
  oldest := by
    obtain ⟨first, hfirst, hts⟩ := h.oldest
    refine ⟨first, List.mem_cons_of_mem _ hfirst, ?_⟩
    rw [hts, hnext.since, if_pos hstate]
  same q hq := by
    have hsince : p.since = last.since := by rw [hnext.since, if_pos hstate]
    have hlast := h.same last (List.mem_of_mem_head? h.newest)
    have hlater := hnext.later
    rcases List.mem_cons.mp hq with rfl | hq
    · exact ⟨rfl, rfl, by omega, Nat.le_refl _⟩
    · obtain ⟨hsame, hbegan, hfrom, hto⟩ := h.same q hq
      exact ⟨hsame.trans hstate.symm, hbegan.trans hsince.symm, by omega, by omega⟩

/-- The newest status of a trail. -/
theorem Trail.unbroken_head : ∀ {trail : List FeedStatus} {p : FeedStatus}, Trail (p :: trail) →
    ∃ run earlier, p :: trail = run ++ earlier ∧ Run p run ∧ ∀ q ∈ earlier.head?, q.state ≠ p.state
  | [], p, h => ⟨[p], [], rfl, run_single h, fun _ hq => by cases hq⟩
  | last :: older, p, ⟨hnext, h⟩ => by
    by_cases hstate : p.state = last.state
    · obtain ⟨run, earlier, heq, hrun, hearlier⟩ := Trail.unbroken_head h
      refine ⟨p :: run, earlier, by rw [heq]; rfl, hrun.cons hnext hstate, ?_⟩
      rw [hstate]
      exact hearlier
    · refine ⟨[p], last :: older, rfl, run_single (by rw [hnext.since, if_neg hstate]), ?_⟩
      intro q hq
      cases hq
      exact Ne.symm hstate

/-- **What the two times of a status say.** -/
theorem Trail.unbroken : ∀ {trail : List FeedStatus} {p : FeedStatus}, Trail trail → p ∈ trail →
    Unbroken trail p
  | [], _, h, _ => h.elim
  | new :: older, p, h, hp => by
    rcases List.mem_cons.mp hp with rfl | hp
    · obtain ⟨run, earlier, heq, hrun⟩ := h.unbroken_head
      exact ⟨[], run, earlier, heq, hrun⟩
    · cases older with
      | nil => cases hp
      | cons last older => exact (Trail.unbroken h.2 hp).cons new

end FxTracker.Ingestor.Status
