import FxTracker.Lib.Lts

/-!
# Observed stores

A store is read by topics. Whoever subscribes to a topic reads it at once, and again each time a call wakes
the topic; in between it goes on with what it has read. Each subscription is a callback of its own, which is
cancelled once.

* `Covers` — a call wakes each subscribed topic that reads differently after it
* `upToDate_of_reachable` — then nobody ever goes on with a reading that is not the store's
-/

namespace FxTracker

/-- Who reads a topic, and what it last read. -/
structure Subscriber (γ τ ω : Type*) where
  who : γ
  topic : τ
  seen : ω

/-- A store with its subscribers. -/
structure Observed (σ γ τ ω : Type*) where
  store : σ
  subs : List (Subscriber γ τ ω)

namespace Observed

variable {σ α γ τ ω : Type*} [DecidableEq γ] [DecidableEq τ] {view : σ → τ → ω}

inductive Event (α γ τ : Type*)
  | call (a : α)
  | subscribe (who : γ) (topic : τ)
  | unsubscribe (who : γ) (topic : τ)

def topics (s : Observed σ γ τ ω) : List τ := s.subs.map Subscriber.topic

/-- A woken subscriber reads its topic. -/
def wake (view : σ → τ → ω) (store : σ) (woken : List τ) (sub : Subscriber γ τ ω) : Subscriber γ τ ω :=
  if sub.topic ∈ woken then { sub with seen := view store sub.topic } else sub

/-- One step, where `act` makes of the store and the subscribed topics what a call leaves, and the topics it
wakes. A call that is not possible is `none`. -/
def step (view : σ → τ → ω) (act : σ → List τ → α → Option (σ × List τ)) (s : Observed σ γ τ ω) :
    Event α γ τ → Option (Observed σ γ τ ω)
  | .call a => (act s.store s.topics a).map fun r => ⟨r.1, s.subs.map (wake view r.1 r.2)⟩
  | .subscribe who topic =>
    if s.subs.any fun sub => sub.who = who ∧ sub.topic = topic then some s
    else some { s with subs := s.subs ++ [⟨who, topic, view s.store topic⟩] }
  | .unsubscribe who topic =>
    some { s with subs := s.subs.filter fun sub => ¬ (sub.who = who ∧ sub.topic = topic) }

/-- From a store that nobody reads. -/
def lts (view : σ → τ → ω) (act : σ → List τ → α → Option (σ × List τ)) (s₀ : σ) :
    Lts (Observed σ γ τ ω) (Event α γ τ) :=
  .ofFn ⟨s₀, []⟩ (step view act)

/-- A call keeps the invariant, and wakes each subscribed topic that reads differently after it. -/
structure Covers (view : σ → τ → ω) (act : σ → List τ → α → Option (σ × List τ)) (inv : σ → Prop) :
    Prop where
  keeps : ∀ s subscribed a r, inv s → act s subscribed a = some r → inv r.1
  wakes : ∀ s subscribed a r, inv s → act s subscribed a = some r →
    ∀ topic ∈ subscribed, topic ∉ r.2 → view r.1 topic = view s topic

/-- Every subscriber goes on with what it would read now. -/
def UpToDate (view : σ → τ → ω) (s : Observed σ γ τ ω) : Prop :=
  ∀ sub ∈ s.subs, sub.seen = view s.store sub.topic

variable {act : σ → List τ → α → Option (σ × List τ)} {inv : σ → Prop} {s t : Observed σ γ τ ω}
  {e : Event α γ τ}

/-- **One step** keeps the subscribers up to date. -/
theorem UpToDate.step (hcovers : Covers view act inv) (hinv : inv s.store) (h : UpToDate view s)
    (hstep : s.step view act e = some t) : inv t.store ∧ UpToDate view t := by
  cases e with
  | call a =>
    obtain ⟨r, hr, rfl⟩ := Option.map_eq_some_iff.mp hstep
    refine ⟨hcovers.keeps _ _ _ _ hinv hr, ?_⟩
    intro sub hsub
    obtain ⟨old, hold, rfl⟩ := List.mem_map.mp hsub
    unfold wake
    split
    · rfl
    · next hasleep =>
      have hsame := hcovers.wakes _ _ _ _ hinv hr old.topic (List.mem_map_of_mem hold) hasleep
      exact (h old hold).trans hsame.symm
  | subscribe who topic =>
    simp only [Observed.step] at hstep
    split at hstep
    · cases hstep
      exact ⟨hinv, h⟩
    · cases hstep
      refine ⟨hinv, ?_⟩
      intro sub hsub
      rcases List.mem_append.mp hsub with hsub | hsub
      · exact h sub hsub
      · rw [List.mem_singleton.mp hsub]
  | unsubscribe who topic =>
    cases hstep
    exact ⟨hinv, fun sub hsub => h sub (List.mem_filter.mp hsub).1⟩

/-- **Nobody goes on with an old reading**, whatever the calls, subscriptions and cancellations. -/
theorem upToDate_of_reachable {s₀ : σ} (hcovers : Covers view act inv) (h₀ : inv s₀)
    (h : (lts view act s₀ : Lts (Observed σ γ τ ω) _).Reachable s) : inv s.store ∧ UpToDate view s := by
  refine h.invariant (I := fun s => inv s.store ∧ UpToDate view s) ?_ ?_
  · rintro _ rfl
    exact ⟨h₀, fun _ hsub => by cases hsub⟩
  · intro s e t hs hstep
    exact hs.2.step hcovers hs.1 hstep

end Observed

end FxTracker
