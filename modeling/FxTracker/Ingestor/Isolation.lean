import FxTracker.Lib.Lts
import FxTracker.Ingestor.Adoption

/-!
# Whose data the live keys hold

Starts and live writes in any order (`Ingestor._rehydrate` and what writes the state keys while an ingestor
leads). Every stored entry carries the provider that was recorded when it was written.

* `attributed` — an archive holds what was written while its provider was recorded
* `live_state_isolated` — the live keys hold what was written while the recorded provider was, as long
  as every switch lists the symbols that have live keys
* `unlisted_stays_live` — a switch leaves the keys of a symbol it does not list
-/

namespace FxTracker.Ingestor.Isolation

/-- What a key holds, entry by entry: the marker at the time each was written. -/
abbrev Store := Keyspace (List (Option String))

inductive Action
  /-- `adopt_provider` of an ingestor that was given these symbols. -/
  | start (provider : Provider) (symbols : List String)
  /-- A write to a live key, which drops or replaces older entries of it. -/
  | write (kind : StateKind) (symbol : String) (kept : List (Option String))
  /-- A key's time to live ran out. -/
  | expire (key : Key)

/-- `ZADD` and `SET` of a live key while `marker` is recorded. -/
def Store.write (ks : Store) (kind : StateKind) (symbol : String) (kept : List (Option String)) : Store :=
  { ks with
    value := fun k => if k = .state kind symbol then some (kept ++ [ks.marker]) else ks.value k }

/-- A refused switch ends the ingestor that tried it. The symbols of a pipeline are the keys of a
dictionary. -/
def step (ks : Store) : Action → Option Store
  | .start provider symbols =>
    if symbols.Nodup then some (adoptProvider ks symbols provider.name).1 else none
  | .write kind symbol kept =>
    if kept.Sublist ((ks.value (.state kind symbol)).getD []) then some (ks.write kind symbol kept)
    else none
  | .expire key => some (ks.del key)

/-- Every entry of a live key was written while `meta:provider` held what it holds now. -/
def Isolated (ks : Store) : Prop :=
  ∀ kind symbol entries, ks.value (.state kind symbol) = some entries → ∀ tag ∈ entries, tag = ks.marker

/-- Before the first start no provider is recorded and nothing is archived. -/
structure Fresh (ks : Store) : Prop where
  unrecorded : ks.marker = none
  unarchived : ∀ p kind symbol, ks.value (.archive p kind symbol) = none
  isolated : Isolated ks
  /-- Redis has no empty keys. -/
  nonempty : ∀ k entries, ks.value k = some entries → entries ≠ []

def system : Lts Store Action where
  init := Fresh
  step s a t := step s a = some t

/-- The start changes the recorded provider: it records another, and parking overwrites nothing. -/
def Switches (ks : Store) (provider : Provider) (symbols : List String) : Prop :=
  ks.marker ≠ some provider.name ∧ ¬ Conflict ks (labelOf ks.marker) symbols

/-- A switch lists every symbol that has a live key. -/
def Listed (ks : Store) : Action → Prop
  | .start provider symbols =>
    Switches ks provider symbols → ∀ kind s, ks.has (.state kind s) = true → s ∈ symbols
  | _ => True

/-- Archives hold what was written under their label. -/
structure Attributed (ks : Store) : Prop where
  recorded : ∃ recorded : Option Provider, ks.marker = recorded.map Provider.name
  archived : ∀ p kind symbol entries, ks.value (.archive p kind symbol) = some entries →
    ∀ tag ∈ entries, labelOf tag = p
  nonempty : ∀ k entries, ks.value k = some entries → entries ≠ []

theorem Fresh.attributed {ks : Store} (h : Fresh ks) : Attributed ks where
  recorded := ⟨none, h.unrecorded⟩
  archived p kind symbol entries he := by
    rw [h.unarchived] at he
    cases he
  nonempty := h.nonempty

/-- A label names one marker, unless nothing was recorded. -/
theorem eq_of_labelOf {tag : Option String} {provider : Provider} (h : labelOf tag = provider.name) :
    tag = some provider.name := by
  cases tag with
  | none => exact absurd h.symm provider.verified
  | some p =>
    unfold labelOf at h
    dsimp only at h
    split at h
    · exact absurd h.symm provider.verified
    · rw [h]

/-! ## One step -/

/-- What every key holds after a start that went through. -/
theorem start_cases {ks t : Store} {provider : Provider} {symbols : List String} (hks : Attributed ks)
    (h : step ks (.start provider symbols) = some t) :
    (¬ Switches ks provider symbols ∧ t = ks) ∨
      Switches ks provider symbols ∧ labelOf ks.marker ≠ provider.name ∧
        t = { marker := some provider.name
              value := adopted ks (labelOf ks.marker) provider.name symbols } := by
  obtain ⟨recorded, hmarker⟩ := hks.recorded
  simp only [step] at h
  split at h
  case isFalse => cases h
  case isTrue hnd =>
    rw [← Option.some.inj h]
    by_cases hsame : ks.marker = some provider.name
    · refine .inl ⟨fun hs => hs.1 hsame, ?_⟩
      rw [adoptProvider_self hsame]
    · have hne : recorded ≠ some provider := by
        rintro rfl
        exact hsame hmarker
      have hlabel : labelOf ks.marker ≠ provider.name := by
        rw [hmarker]
        exact labelOf_ne hne
      rcases adoptProvider_cases hnd hmarker hne with ⟨hc, e, he⟩ | ⟨hfree, r, hr⟩
      · refine .inl ⟨fun hs => hs.2 hc, ?_⟩
        rw [he]
      · refine .inr ⟨⟨hsame, hfree⟩, hlabel, ?_⟩
        rw [hr]

theorem write_cases {ks t : Store} {kind : StateKind} {symbol : String} {kept : List (Option String)}
    (h : step ks (.write kind symbol kept) = some t) :
    kept.Sublist ((ks.value (.state kind symbol)).getD []) ∧ t = ks.write kind symbol kept := by
  simp only [step] at h
  split at h
  case isTrue hsub => exact ⟨hsub, (Option.some.inj h).symm⟩
  case isFalse => cases h

theorem value_del {ks : Store} {key k : Key} {entries : List (Option String)}
    (h : (ks.del key).value k = some entries) : ks.value k = some entries := by
  unfold Keyspace.del at h
  dsimp only at h
  split at h
  · cases h
  · exact h

/-- **A switch isolates** exactly when it lists the symbols that have live keys. -/
theorem isolated_start_iff {ks t : Store} {provider : Provider} {symbols : List String}
    (hks : Attributed ks) (hiso : Isolated ks) (h : step ks (.start provider symbols) = some t) :
    Isolated t ↔ Listed ks (.start provider symbols) := by
  rcases start_cases hks h with ⟨hnot, rfl⟩ | ⟨hswitch, -, rfl⟩
  · exact ⟨fun _ hs => absurd hs hnot, fun _ => hiso⟩
  · constructor
    · intro hiso' _ kind s hlive
      by_contra hs
      obtain ⟨entries, he⟩ := Option.isSome_iff_exists.mp hlive
      obtain ⟨tag, htag⟩ := List.exists_mem_of_ne_nil _ (hks.nonempty _ _ he)
      have hold := hiso kind s entries he tag htag
      have hnew := hiso' kind s entries ((adopted_not_mem hs).trans he) tag htag
      exact hswitch.1 (hold.symm.trans hnew)
    · intro hlisted kind s entries he tag htag
      by_cases hs : s ∈ symbols
      · have hpark : ks.value (.archive provider.name kind s) = some entries :=
          (adopted_state_mem hs).symm.trans he
        exact eq_of_labelOf (hks.archived _ _ _ _ hpark tag htag)
      · have hlive : ks.value (.state kind s) = some entries := (adopted_not_mem hs).symm.trans he
        refine absurd (hlisted hswitch kind s ?_) hs
        rw [Keyspace.has, hlive]
        rfl

/-- **A step keeps what is archived attributed.** -/
theorem attributed_step {ks t : Store} (a : Action) (hks : Attributed ks) (hiso : Isolated ks)
    (h : step ks a = some t) : Attributed t := by
  cases a with
  | start provider symbols =>
    rcases start_cases hks h with ⟨-, rfl⟩ | ⟨hswitch, hlabel, rfl⟩
    · exact hks
    · refine ⟨⟨some provider, rfl⟩, ?_, ?_⟩
      · intro p kind s entries he tag htag
        rcases adopted_archive he with hold | ⟨rfl, hparked⟩
        · exact hks.archived _ _ _ _ hold tag htag
        · rw [hiso _ _ _ hparked tag htag]
      · intro k entries he
        obtain ⟨k', -, he'⟩ := (rearranged_adopted hlabel hswitch.2 _).source _ _ he
        exact hks.nonempty _ _ he'
  | write kind symbol kept =>
    obtain ⟨-, rfl⟩ := write_cases h
    refine ⟨hks.recorded, fun p kind' s entries he => hks.archived p kind' s entries ?_, ?_⟩
    · simpa [Store.write] using he
    · intro k entries he
      unfold Store.write at he
      dsimp only at he
      split at he
      · rw [← Option.some.inj he]
        simp
      · exact hks.nonempty _ _ he
  | expire key =>
    cases h
    refine ⟨hks.recorded, fun p kind s entries he => ?_, fun k entries he => ?_⟩
    · exact hks.archived _ _ _ _ (value_del he)
    · exact hks.nonempty _ _ (value_del he)

/-- **A listed step keeps the live keys isolated.** -/
theorem isolated_step {ks t : Store} (a : Action) (hks : Attributed ks) (hiso : Isolated ks)
    (h : step ks a = some t) (hlisted : Listed ks a) : Isolated t := by
  cases a with
  | start provider symbols => exact (isolated_start_iff hks hiso h).mpr hlisted
  | write kind symbol kept =>
    obtain ⟨hsub, rfl⟩ := write_cases h
    intro kind' s entries he tag htag
    unfold Store.write at he
    dsimp only at he
    split at he
    · next hk =>
      rw [← Option.some.inj he] at htag
      rcases List.mem_append.mp htag with hold | hnew
      · -- kept from before
        have hmem := hsub.subset hold
        cases hv : ks.value (.state kind symbol) with
        | none =>
          rw [hv] at hmem
          cases hmem
        | some old =>
          rw [hv] at hmem
          exact hiso _ _ _ hv tag hmem
      · exact List.mem_singleton.mp hnew
    · exact hiso _ _ _ he tag htag
  | expire key =>
    cases h
    intro kind s entries he tag htag
    exact hiso _ _ _ (value_del he) tag htag

/-! ## Every run -/

theorem attributed {ks : Store} (h : (system.guard Listed).Reachable ks) :
    Attributed ks ∧ Isolated ks := by
  induction h with
  | init hs => exact ⟨Fresh.attributed hs, hs.isolated⟩
  | step _ h ih =>
    obtain ⟨hks, hiso⟩ := ih
    exact ⟨attributed_step _ hks hiso h.1, isolated_step _ hks hiso h.1 h.2⟩

/-- **The live keys belong to the recorded provider** in every run of starts, writes and expiries whose
switches list every symbol that has a live key, and no longer after the first switch that does not. -/
theorem live_state_isolated {ks : Store} (h : (system.guard Listed).Reachable ks) :
    Isolated ks ∧ ∀ provider symbols t, step ks (.start provider symbols) = some t →
      (Isolated t ↔ Listed ks (.start provider symbols)) :=
  ⟨(attributed h).2, fun _ _ _ hstep => isolated_start_iff (attributed h).1 (attributed h).2 hstep⟩

/-- Nothing was ever written. -/
def blank : Store := ⟨none, fun _ => none⟩

theorem fresh_blank : Fresh blank :=
  ⟨rfl, fun _ _ _ => rfl, fun _ _ _ h => (nomatch h), fun _ _ h => (nomatch h)⟩

theorem step_start {ks : Store} {provider : Provider} {symbols : List String} (hnd : symbols.Nodup) :
    step ks (.start provider symbols) = some (adoptProvider ks symbols provider.name).1 := by
  simp only [step, if_pos hnd]

/-- A start with two symbols. -/
def started : Store := (adoptProvider blank ["EURUSD", "GBPUSD"] "tiingo").1

theorem step_started : step blank (.start tiingo ["EURUSD", "GBPUSD"]) = some started :=
  step_start (by decide)

theorem started_value (k : Key) : started.value k = none := by
  refine Option.eq_none_iff_forall_ne_some.mpr fun entries he => ?_
  have hmarker : blank.marker = (none : Option Provider).map Provider.name := rfl
  have hnd : ["EURUSD", "GBPUSD"].Nodup := by decide
  have hmoved : Rearranged blank (adoptProvider blank ["EURUSD", "GBPUSD"] tiingo.name).1 :=
    (rearranged_adoptProvider hnd hmarker).2
  obtain ⟨k', -, hk'⟩ := hmoved.source k entries he
  cases hk'

/-- The first minute of one of the symbols. -/
def led : Store := started.write .minutes "GBPUSD" []

theorem reachable_led : (system.guard Listed).Reachable led := by
  have hlisted : Listed blank (.start tiingo ["EURUSD", "GBPUSD"]) := by
    intro _ kind s hlive
    cases hlive
  have hwrite : step started (.write .minutes "GBPUSD" []) = some led := by
    simp only [step, if_pos (List.nil_sublist _), led]
  exact .step (.step (.init fresh_blank) ⟨step_started, hlisted⟩) ⟨hwrite, trivial⟩

/-- What was live is parked when the next start lists it. -/
theorem live_state_isolated_led : ∃ ks, step led (.start another ["GBPUSD"]) = some ks ∧
    ks.value (.archive "tiingo" .minutes "GBPUSD") = some [some "tiingo"] ∧ Isolated ks := by
  have hstart : step led (.start another ["GBPUSD"]) = some (adoptProvider led ["GBPUSD"] "another").1 :=
    step_start (by decide)
  refine ⟨_, hstart, rfl, ((live_state_isolated reachable_led).2 _ _ _ hstart).mpr ?_⟩
  intro _ kind s hlive
  by_cases h : Key.state kind s = .state .minutes "GBPUSD"
  · cases h
    exact List.mem_singleton_self _
  · have hnone : led.value (.state kind s) = none := by
      unfold led Store.write
      dsimp only
      rw [if_neg h, started_value]
    rw [Keyspace.has, hnone] at hlive
    cases hlive

/-- **The minutes of a symbol the second start does not list** stay live under its provider. -/
theorem unlisted_stays_live : ∃ ks, system.Reachable led ∧ step led (.start another ["EURUSD"]) = some ks ∧
    ks.marker = some "another" ∧ ks.value (.state .minutes "GBPUSD") = some [some "tiingo"] ∧
      ¬ Isolated ks := by
  refine ⟨(adoptProvider led ["EURUSD"] "another").1, reachable_led.of_guard, step_start (by decide), rfl,
    rfl, fun h => ?_⟩
  have htag := h .minutes "GBPUSD" [some "tiingo"] rfl _ (List.mem_singleton_self _)
  exact absurd htag (by decide)

end FxTracker.Ingestor.Isolation
