import Mathlib.Logic.Basic

/-!
# Labelled transition systems

A system is a set of initial states and a labelled step relation. Two things are said about one:

* an **invariant** holds initially and is kept by every step, so it holds in every reachable state;
* a **guarded** system takes only the steps whose label and source state meet a condition.
  Its reachable states are reachable in the unguarded one, and an invariant of it may use
  the condition at each step;
* along an infinite run a **measure** that never grows is constant from some state on, and what is
  at each step there or nearer by a **rank** comes again and again.
-/

namespace FxTracker

/-- A labelled transition system over states `σ` and labels `α`. -/
structure Lts (σ : Type*) (α : Type*) where
  init : σ → Prop
  step : σ → α → σ → Prop

namespace Lts

variable {σ α : Type*} {M : Lts σ α}

/-- The states some run of `M` reaches. -/
inductive Reachable (M : Lts σ α) : σ → Prop
  | init {s : σ} : M.init s → Reachable M s
  | step {s t : σ} {a : α} : Reachable M s → M.step s a t → Reachable M t

/-- **The invariant rule.** -/
theorem Reachable.invariant {I : σ → Prop} {s : σ} (hr : Reachable M s)
    (hinit : ∀ s, M.init s → I s) (hstep : ∀ s a t, I s → M.step s a t → I t) : I s := by
  induction hr with
  | init h => exact hinit _ h
  | step _ h ih => exact hstep _ _ _ ih h

/-- `M` restricted to the steps that meet `ok`, a condition on the source state and the label. -/
def guard (M : Lts σ α) (ok : σ → α → Prop) : Lts σ α where
  init := M.init
  step s a t := M.step s a t ∧ ok s a

theorem Reachable.of_guard {ok : σ → α → Prop} {s : σ} (h : Reachable (M.guard ok) s) :
    Reachable M s := by
  induction h with
  | init h => exact .init h
  | step _ h ih => exact .step ih h.1

theorem Reachable.guard_mono {p q : σ → α → Prop} {s : σ} (h : Reachable (M.guard p) s)
    (hpq : ∀ s a, p s a → q s a) : Reachable (M.guard q) s := by
  induction h with
  | init h => exact .init h
  | step _ h ih => exact .step ih ⟨h.1, hpq _ _ h.2⟩

/-! ## Runs of a step function -/

/-- Where the labels `as` lead from `s`, when every one of them is enabled in turn. -/
def exec (f : σ → α → Option σ) : σ → List α → Option σ
  | s, [] => some s
  | s, a :: as => (f s a).bind fun t => exec f t as

/-- The system a step function generates from one initial state. -/
def ofFn (s₀ : σ) (f : σ → α → Option σ) : Lts σ α where
  init s := s = s₀
  step s a t := f s a = some t

/-- A run of a function whose steps are steps of `M`. -/
theorem Reachable.exec {f : σ → α → Option σ} (hf : ∀ s a t, f s a = some t → M.step s a t) :
    ∀ {as : List α} {s t : σ}, Reachable M s → Lts.exec f s as = some t → Reachable M t
  | [], _, _, hs, h => by rw [Lts.exec] at h; cases h; exact hs
  | a :: as, s, t, hs, h => by
    rw [Lts.exec, Option.bind_eq_some_iff] at h
    obtain ⟨u, hu, ht⟩ := h
    exact Reachable.exec hf (.step hs (hf s a u hu)) ht

theorem reachable_exec {s₀ : σ} {f : σ → α → Option σ} {as : List α} {s t : σ}
    (hs : Reachable (ofFn s₀ f) s) (h : exec f s as = some t) : Reachable (ofFn s₀ f) t :=
  hs.exec (fun _ _ _ h => h) h

/-- The same where every label of the run meets the guard, wherever it is taken. -/
theorem reachable_guard_exec {s₀ : σ} {f : σ → α → Option σ} {ok : σ → α → Prop} :
    ∀ {as : List α} {s t : σ}, Reachable ((ofFn s₀ f).guard ok) s → (∀ a ∈ as, ∀ u, ok u a) →
      exec f s as = some t → Reachable ((ofFn s₀ f).guard ok) t
  | [], _, _, hs, _, h => by rw [exec] at h; cases h; exact hs
  | a :: as, s, t, hs, hok, h => by
    rw [exec, Option.bind_eq_some_iff] at h
    obtain ⟨u, hu, ht⟩ := h
    have hnext : Reachable ((ofFn s₀ f).guard ok) u := .step hs ⟨hu, hok a (List.mem_cons_self ..) s⟩
    exact reachable_guard_exec hnext (fun b hb => hok b (List.mem_cons_of_mem _ hb)) ht

/-- Every label of a run meets the guard where it is taken. -/
def Meets (f : σ → α → Option σ) (ok : σ → α → Prop) : σ → List α → Prop
  | _, [] => True
  | s, a :: as => ok s a ∧ ∀ t ∈ f s a, Meets f ok t as

instance decidableMeets (f : σ → α → Option σ) (ok : σ → α → Prop) [∀ s a, Decidable (ok s a)] :
    ∀ (s : σ) (as : List α), Decidable (Meets f ok s as)
  | _, [] => isTrue trivial
  | s, a :: as =>
    have : ∀ t, Decidable (Meets f ok t as) := fun t => decidableMeets f ok t as
    inferInstanceAs (Decidable (ok s a ∧ ∀ t ∈ f s a, Meets f ok t as))

theorem Meets.mono {f : σ → α → Option σ} {p q : σ → α → Prop} (hpq : ∀ s a, p s a → q s a) :
    ∀ {as : List α} {s : σ}, Meets f p s as → Meets f q s as
  | [], _, _ => trivial
  | _ :: _, _, h => ⟨hpq _ _ h.1, fun t ht => (h.2 t ht).mono hpq⟩

theorem reachable_of_meets {s₀ : σ} {f : σ → α → Option σ} {ok : σ → α → Prop} :
    ∀ {as : List α} {s t : σ}, Reachable ((ofFn s₀ f).guard ok) s → Meets f ok s as →
      exec f s as = some t → Reachable ((ofFn s₀ f).guard ok) t
  | [], _, _, hs, _, h => by rw [exec] at h; cases h; exact hs
  | a :: as, s, t, hs, hok, h => by
    rw [exec, Option.bind_eq_some_iff] at h
    obtain ⟨u, hu, ht⟩ := h
    exact reachable_of_meets (.step hs ⟨hu, hok.1⟩) (hok.2 u hu) ht

/-- What a run from the initial state leads to is reachable. -/
theorem reachable_of_exec {s₀ t : σ} {f : σ → α → Option σ} {as : List α}
    (h : exec f s₀ as = some t) : Reachable (ofFn s₀ f) t :=
  reachable_exec (.init rfl) h

/-! ## Infinite runs -/

/-- An infinite run: the states it goes through and the labels of its steps. -/
structure Run (M : Lts σ α) where
  state : Nat → σ
  label : Nat → α
  step : ∀ n, M.step (state n) (label n) (state (n + 1))

namespace Run

theorem measure_le (r : Run M) {μ : σ → Nat} (hle : ∀ n, μ (r.state (n + 1)) ≤ μ (r.state n))
    (n k : Nat) : μ (r.state (n + k)) ≤ μ (r.state n) := by
  induction k with
  | zero => exact Nat.le_refl _
  | succ k ih => exact Nat.le_trans (hle (n + k)) ih

/-- **A measure that never grows** is constant from some state on. -/
theorem exists_constant (r : Run M) {μ : σ → Nat}
    (hle : ∀ n, μ (r.state (n + 1)) ≤ μ (r.state n)) :
    ∃ n, ∀ k, μ (r.state (n + k)) = μ (r.state n) := by
  have hfrom : ∀ b n, μ (r.state n) = b → ∃ n, ∀ k, μ (r.state (n + k)) = μ (r.state n) := by
    intro b
    induction b using Nat.strongRecOn with
    | ind b ih =>
      intro n hn
      by_cases hdrop : ∃ k, μ (r.state (n + k)) < μ (r.state n)
      · obtain ⟨k, hk⟩ := hdrop
        exact ih _ (hn ▸ hk) (n + k) rfl
      · refine ⟨n, fun k => Nat.le_antisymm (r.measure_le hle n k) ?_⟩
        exact Nat.le_of_not_lt fun hlt => hdrop ⟨k, hlt⟩
  exact hfrom _ 0 rfl

/-- **What is always a step away or getting nearer** happens again and again. -/
theorem exists_ge {P : Nat → Prop} (rank : Nat → Nat)
    (h : ∀ n, P n ∨ rank (n + 1) < rank n) (n : Nat) : ∃ m, n ≤ m ∧ P m := by
  have hfrom : ∀ b n, rank n = b → ∃ m, n ≤ m ∧ P m := by
    intro b
    induction b using Nat.strongRecOn with
    | ind b ih =>
      intro n hn
      rcases h n with hp | hlt
      · exact ⟨n, Nat.le_refl n, hp⟩
      · obtain ⟨m, hm, hp⟩ := ih _ (hn ▸ hlt) (n + 1) rfl
        exact ⟨m, Nat.le_of_succ_le hm, hp⟩
  exact hfrom _ n rfl

end Run

end Lts

end FxTracker
