import FxTracker.Ingestor.Keyspace

/-!
# A provider switch loses nothing

* `adoption_keeps` — a switch overwrites and drops nothing, and switching back restores all but what was
  archived while its live key was absent
* `adoptProvider_back` — switching back is never refused
-/

namespace FxTracker.Ingestor

variable {V : Type} {ks t : Keyspace V} {symbols : List String} {recorded : Option Provider}
  {provider : Provider}

/-- `t` is `ks` after a switch: what was live is parked, what was archived for the provider is live. -/
structure Adopts (ks t : Keyspace V) (label provider : String) (symbols : List String) : Prop where
  recorded : t.marker = some provider
  parked : ∀ kind, ∀ s ∈ symbols, ∀ v, ks.value (.state kind s) = some v →
    t.value (.archive label kind s) = some v
  restored : ∀ kind, ∀ s ∈ symbols, t.value (.state kind s) = ks.value (.archive provider kind s)
  emptied : ∀ kind, ∀ s ∈ symbols, t.value (.archive provider kind s) = none
  /-- No archived value is overwritten or dropped. -/
  kept : ∀ p kind s v, ks.value (.archive p kind s) = some v →
    t.value (.archive p kind s) = some v ∨
      p = provider ∧ s ∈ symbols ∧ t.value (.state kind s) = some v
  others : ∀ p kind s, s ∉ symbols ∨ p ≠ provider ∧ (p = label → ks.value (.state kind s) = none) →
    t.value (.archive p kind s) = ks.value (.archive p kind s)
  elsewhere : ∀ kind, ∀ s ∉ symbols, t.value (.state kind s) = ks.value (.state kind s)

theorem adopts_adopted {label provider : String} (hne : label ≠ provider)
    (hfree : ¬ Conflict ks label symbols) :
    Adopts ks { marker := some provider, value := adopted ks label provider symbols } label provider
      symbols := by
  refine ⟨rfl, ?_, ?_, ?_, ?_, ?_, ?_⟩
  · intro kind s hs v hv
    simp [adopted, Key.symbol, hs, moved, hv]
  · intro kind s hs
    simp [adopted, Key.symbol, hs, moved]
  · intro kind s hs
    simp [adopted, Key.symbol, hs, moved, hne.symm]
  · intro p kind s v hv
    by_cases hs : s ∈ symbols
    · by_cases hlabel : p = label
      · subst hlabel
        -- parking would have been refused
        have hnone : ks.value (.state kind s) = none := by
          refine Option.not_isSome_iff_eq_none.mp fun hlive => hfree ⟨kind, s, hs, hlive, ?_⟩
          rw [Keyspace.has, hv]
          rfl
        simp [adopted, Key.symbol, hs, moved, hnone, hv]
      · by_cases hp : p = provider
        · subst hp
          simp [adopted, Key.symbol, hs, moved, hv]
        · simp [adopted, Key.symbol, hs, moved, hlabel, hp, hv]
    · simp [adopted, Key.symbol, hs, hv]
  · intro p kind s h
    by_cases hs : s ∈ symbols
    · obtain ⟨hp, hlabel⟩ := h.resolve_left fun hn => hn hs
      by_cases hpl : p = label
      · simp [adopted, Key.symbol, hs, moved, hpl, hlabel hpl]
      · simp [adopted, Key.symbol, hs, moved, hpl, hp]
    · simp [adopted, Key.symbol, hs]
  · intro kind s hs
    simp [adopted, Key.symbol, hs]

/-! ## Back again -/

/-- What a key holds after a switch to another provider and back. -/
def roundTrip (ks : Keyspace V) (label : String) (symbols : List String) : Key → Option V
  | .state kind s =>
    if s ∈ symbols then (ks.value (.state kind s)).or (ks.value (.archive label kind s))
    else ks.value (.state kind s)
  | .archive p kind s => if p = label ∧ s ∈ symbols then none else ks.value (.archive p kind s)
  | k => ks.value k

/-- **Switching back** is never refused. -/
theorem adoptProvider_back {a : Provider} (hnd : symbols.Nodup) (ha : ks.marker = some a.name)
    (hne : a ≠ provider) {r : Option (String × Nat)}
    (h : (adoptProvider ks symbols provider.name).2 = .ok r) :
    ∃ r', (adoptProvider (adoptProvider ks symbols provider.name).1 symbols a.name).2 = .ok r' ∧
      (adoptProvider (adoptProvider ks symbols provider.name).1 symbols a.name).1.marker =
        some a.name ∧
      ∀ k, k.stateKey.isSome →
        (adoptProvider (adoptProvider ks symbols provider.name).1 symbols a.name).1.value k =
          roundTrip ks a.name symbols k := by
  have hnames : a.name ≠ provider.name := fun heq => hne (Provider.ext heq)
  have haway : (some a : Option Provider) ≠ some provider := fun heq => hne (Option.some.inj heq)
  have hback : (some provider : Option Provider) ≠ some a := haway.symm
  have hrecorded : ks.marker = (some a : Option Provider).map Provider.name := ha
  rcases adoptProvider_cases hnd hrecorded haway with ⟨-, e, he⟩ | ⟨-, r₁, h₁⟩
  · rw [he] at h
    cases h
  rw [ha, labelOf_name] at h₁
  rw [h₁]
  dsimp only
  generalize hks₁ : ({ marker := some provider.name, value := adopted ks a.name provider.name symbols } :
    Keyspace V) = ks₁
  have hmarker : ks₁.marker = (some provider : Option Provider).map Provider.name := by
    rw [← hks₁]
    rfl
  have hvalue : ∀ k, ks₁.value k = adopted ks a.name provider.name symbols k := by
    intro k
    rw [← hks₁]
  rcases adoptProvider_cases hnd hmarker hback with ⟨hc, -⟩ | ⟨-, r₂, h₂⟩
  · -- nothing is parked under the provider that was just adopted
    obtain ⟨kind, s, hs, -, hpark⟩ := hc
    rw [hmarker, Option.map_some, labelOf_name, Keyspace.has, hvalue] at hpark
    simp [adopted, Key.symbol, hs, moved, hnames.symm] at hpark
  · refine ⟨r₂, by rw [h₂], by rw [h₂], fun k hk => ?_⟩
    rw [h₂, hmarker, Option.map_some, labelOf_name]
    dsimp only
    cases k with
    | state kind s =>
      by_cases hs : s ∈ symbols <;>
        simp [roundTrip, adopted, Key.symbol, hs, moved, hvalue]
    | archive p kind s =>
      by_cases hs : s ∈ symbols
      · by_cases hp : p = provider.name
        · subst hp
          simp [roundTrip, adopted, Key.symbol, hs, moved, hvalue, hnames.symm]
        · by_cases hpa : p = a.name
          · subst hpa
            simp [roundTrip, adopted, Key.symbol, hs, moved, hnames]
          · simp [roundTrip, adopted, Key.symbol, hs, moved, hvalue, hp, hpa]
      · simp [roundTrip, adopted, Key.symbol, hs, hvalue]
    | quote s => cases hk
    | vol s => cases hk

/-- **A switch loses nothing.** The script fails and leaves every key as it was, or parks what was live,
restores what was archived for the provider, and overwrites and drops no archived value. A switch to
another provider and back restores every state key, but for a value that was archived while its live
key was absent: that one is live afterwards. -/
theorem adoption_keeps (ks : Keyspace V) (symbols : List String) (hnd : symbols.Nodup)
    (recorded : Option Provider) (provider : Provider)
    (hmarker : ks.marker = recorded.map Provider.name) (hne : recorded ≠ some provider)
    (expected : String) :
    let label := labelOf ks.marker
    let r := adoptScript ks ((stateKeys symbols).map (moveOf label provider.name)) (cachesOf symbols)
      expected provider.name
    ((∃ e, r.2 = .error e) → r.1 = ks) ∧
    (∀ n, r.2 = .ok n → Adopts ks r.1 label provider.name symbols) ∧
    ∀ a, recorded = some a → ∀ n, (adoptProvider ks symbols provider.name).2 = .ok n →
      let u := adoptProvider (adoptProvider ks symbols provider.name).1 symbols a.name
      (∃ n', u.2 = .ok n') ∧ u.1.marker = ks.marker ∧
        ∀ k, k.stateKey.isSome → u.1.value k = roundTrip ks a.name symbols k := by
  have hlabel : labelOf ks.marker ≠ provider.name := by
    rw [hmarker]
    exact labelOf_ne hne
  refine ⟨?_, ?_, ?_⟩
  · rintro ⟨e, he⟩
    rcases adoptScript_cases hlabel ks hnd expected with ⟨-, e', h⟩ | ⟨-, n, h⟩
    · rw [h]
    · rw [h] at he
      cases he
  · intro n hn
    rcases adoptScript_cases hlabel ks hnd expected with ⟨-, e', h⟩ | ⟨⟨-, hfree⟩, n, h⟩
    · rw [h] at hn
      cases hn
    · rw [h]
      exact adopts_adopted hlabel hfree
  · rintro a rfl n hn
    have hname : a ≠ provider := fun h => hne (congrArg some h)
    obtain ⟨n', hok, hm, hvalue⟩ := adoptProvider_back hnd hmarker hname hn
    exact ⟨⟨n', hok⟩, hm.trans hmarker.symm, hvalue⟩

def tiingo : Provider := ⟨"tiingo", by decide, by decide, by decide⟩

def another : Provider := ⟨"another", by decide, by decide, by decide⟩

/-- A z-score series that was archived under the recorded provider and is not live. -/
def archivedOnly : Keyspace Nat where
  marker := some "tiingo"
  value k := if k = .archive "tiingo" .zhist "EURUSD" then some 1 else none

theorem adoption_keeps_archivedOnly :
    ∃ n, (adoptProvider (adoptProvider archivedOnly ["EURUSD"] "another").1 ["EURUSD"] "tiingo").2 =
      .ok n := by
  have hmarker : archivedOnly.marker = (some tiingo).map Provider.name := rfl
  have hne : (some tiingo : Option Provider) ≠ some another := by
    intro h
    have hname : "tiingo" = "another" := congrArg Provider.name (Option.some.inj h)
    exact absurd hname (by decide)
  exact ((adoption_keeps archivedOnly ["EURUSD"] (by decide) (some tiingo) another hmarker hne
    "tiingo").2.2 tiingo rfl _ rfl).1

/-- **Switching away and back makes it live.** -/
theorem roundTrip_archivedOnly :
    let u := adoptProvider (adoptProvider archivedOnly ["EURUSD"] "another").1 ["EURUSD"] "tiingo"
    archivedOnly.value (.state .zhist "EURUSD") = none ∧
      u.2 = .ok (some ("another", 0)) ∧ u.1.value (.state .zhist "EURUSD") = some 1 :=
  ⟨rfl, rfl, rfl⟩

end FxTracker.Ingestor
