import Mathlib.Data.List.Basic
import Mathlib.Data.List.Nodup

/-!
# The keys a provider switch moves

The state keys of `fx_core/keys.py` and the script `adopt_provider` runs (`_ADOPT_PROVIDER_LUA` of
`fx_ingestor/pipeline.py`).

* `Key.name_injective` — different keys have different names, for providers without a colon in theirs
* `adoptScript_cases` — a switch is refused, or what every key holds after the script
-/

namespace FxTracker.Ingestor

/-- `hist:{S}:1m`, `hist:{S}:1d`, `zhist:{S}` and `regime:{S}`. -/
inductive StateKind
  | minutes
  | days
  | zhist
  | regime
  deriving DecidableEq

/-- A provider's name as the settings accept one: of a known provider, so neither empty nor the label of
state that no provider is recorded for, and without a colon. -/
structure Provider where
  name : String
  nonempty : name ≠ ""
  verified : name ≠ "unverified"
  plain : ':' ∉ name.toList

theorem Provider.ext {p q : Provider} (h : p.name = q.name) : p = q := by
  cases p
  cases q
  cases h
  rfl

/-- The order `adopt_provider` takes them in. -/
def StateKind.all : List StateKind := [.minutes, .days, .zhist, .regime]

theorem StateKind.mem_all (kind : StateKind) : kind ∈ StateKind.all := by
  cases kind <;> decide

inductive Key
  | state (kind : StateKind) (symbol : String)
  | archive (provider : String) (kind : StateKind) (symbol : String)
  | quote (symbol : String)
  | vol (symbol : String)
  deriving DecidableEq

/-- `history`, `zhist` and `regime_state`. -/
def StateKind.name (symbol : String) : StateKind → String
  | .minutes => "hist:" ++ symbol ++ ":1m"
  | .days => "hist:" ++ symbol ++ ":1d"
  | .zhist => "zhist:" ++ symbol
  | .regime => "regime:" ++ symbol

/-- The key as Redis has it. -/
def Key.name : Key → String
  | .state kind symbol => kind.name symbol
  | .archive provider kind symbol => "archive:" ++ provider ++ ":" ++ kind.name symbol
  | .quote symbol => "q:" ++ symbol
  | .vol symbol => "vol:" ++ symbol ++ ":1h"

/-- The provider of an archive has no colon in its name. -/
def Key.Plain : Key → Prop
  | .archive provider _ _ => ':' ∉ provider.toList
  | _ => True

theorem StateKind.name_inj {k k' : StateKind} {s s' : String} (h : k.name s = k'.name s') :
    k = k' ∧ s = s' := by
  have hl := congrArg String.toList h
  cases k <;> cases k' <;> simp [StateKind.name] at hl ⊢
  case minutes.days => simpa using congrArg List.getLast? hl
  case days.minutes => simpa using congrArg List.getLast? hl
  all_goals exact String.toList_inj.mp hl

/-- Texts cut at their first colon. -/
theorem append_colon_inj {p p' r r' : List Char} (hp : ':' ∉ p) (hp' : ':' ∉ p')
    (h : p ++ ':' :: r = p' ++ ':' :: r') : p = p' ∧ r = r' := by
  have htake : ∀ q t : List Char, ':' ∉ q → (q ++ ':' :: t).takeWhile (· ≠ ':') = q := by
    intro q t hq
    rw [List.takeWhile_append_of_pos]
    · simp
    · intro c hc
      rw [decide_eq_true_eq]
      rintro rfl
      exact hq hc
  have hpp : p = p' := by
    rw [← htake p r hp, h, htake p' r' hp']
  subst hpp
  simpa using h

/-- **Different keys have different names.** -/
theorem Key.name_injective {k k' : Key} (hk : k.Plain) (hk' : k'.Plain) (h : k.name = k'.name) :
    k = k' := by
  have hl := congrArg String.toList h
  have hhead := congrArg List.head? hl
  cases k with
  | archive p kind s =>
    cases k' with
    | archive p' kind' s' =>
      simp only [Key.name, String.append_assoc, String.toList_append, List.append_cancel_left_eq]
        at hl
      have hcolon : ":".toList = [':'] := rfl
      rw [hcolon, List.singleton_append, List.singleton_append] at hl
      obtain ⟨hp, hr⟩ := append_colon_inj hk hk' hl
      obtain ⟨rfl, rfl⟩ := StateKind.name_inj (String.toList_inj.mp hr)
      rw [String.toList_inj.mp hp]
    | state kind' s' => cases kind' <;> simp [Key.name, StateKind.name] at hhead
    | quote s' => simp [Key.name] at hhead
    | vol s' => simp [Key.name] at hhead
  | state kind s =>
    cases k' with
    | archive p' kind' s' => cases kind <;> simp [Key.name, StateKind.name] at hhead
    | state kind' s' =>
      obtain ⟨rfl, rfl⟩ := StateKind.name_inj h
      rfl
    | quote s' => cases kind <;> simp [Key.name, StateKind.name] at hhead
    | vol s' => cases kind <;> simp [Key.name, StateKind.name] at hhead
  | quote s =>
    cases k' with
    | archive p' kind' s' => simp [Key.name] at hhead
    | state kind' s' => cases kind' <;> simp [Key.name, StateKind.name] at hhead
    | quote s' =>
      simp only [Key.name, String.toList_append, List.append_cancel_left_eq] at hl
      rw [String.toList_inj.mp hl]
    | vol s' => simp [Key.name] at hhead
  | vol s =>
    cases k' with
    | archive p' kind' s' => simp [Key.name] at hhead
    | state kind' s' => cases kind' <;> simp [Key.name, StateKind.name] at hhead
    | quote s' => simp [Key.name] at hhead
    | vol s' =>
      simp only [Key.name, String.toList_append, List.append_cancel_left_eq,
        List.append_cancel_right_eq] at hl
      rw [String.toList_inj.mp hl]

/-- A symbol that ends like another key. -/
theorem name_injective_sampleArchive :
    (Key.state .days "EURUSD:1m").name ≠ (Key.state .minutes "EURUSD:1d").name ∧
      (Key.archive "tiingo" .zhist "EURUSD").name ≠ (Key.archive "oanda" .zhist "EURUSD").name :=
  have htiingo : (Key.archive "tiingo" .zhist "EURUSD").Plain := by simp [Key.Plain]
  have hoanda : (Key.archive "oanda" .zhist "EURUSD").Plain := by simp [Key.Plain]
  ⟨fun h => absurd (Key.name_injective (by exact trivial) (by exact trivial) h) (by decide),
    fun h => absurd (Key.name_injective htiingo hoanda h) (by decide)⟩

/-! ## The script -/

/-- The marker `meta:provider`, and what the other keys hold. -/
structure Keyspace (V : Type) where
  marker : Option String
  value : Key → Option V

variable {V : Type}

namespace Keyspace

/-- `EXISTS`. -/
def has (ks : Keyspace V) (k : Key) : Bool := (ks.value k).isSome

/-- `RENAME` of a key that exists. -/
def rename (ks : Keyspace V) (src dst : Key) : Keyspace V :=
  { ks with value := fun k => if k = dst then ks.value src else if k = src then none else ks.value k }

/-- `DEL`. -/
def del (ks : Keyspace V) (k : Key) : Keyspace V :=
  { ks with value := fun k' => if k' = k then none else ks.value k' }

end Keyspace

/-- A state key, where it is parked and what is restored to it. -/
structure Move where
  live : Key
  parked : Key
  restored : Key

/-- One round of the script's second loop, with the count of keys parked. -/
def Move.apply (acc : Keyspace V × Nat) (m : Move) : Keyspace V × Nat :=
  let acc := if acc.1.has m.live then (acc.1.rename m.live m.parked, acc.2 + 1) else acc
  if acc.1.has m.restored then (acc.1.rename m.restored m.live, acc.2) else acc

/-- Parking would overwrite. -/
def Move.conflict (ks : Keyspace V) (m : Move) : Bool := ks.has m.live && ks.has m.parked

/-- `_ADOPT_PROVIDER_LUA`: the keyspace it leaves, and its reply. -/
def adoptScript (ks : Keyspace V) (moves : List Move) (caches : List Key)
    (expected provider : String) : Keyspace V × Except String Nat :=
  if ks.marker.getD "" ≠ expected then (ks, .error "provider marker changed concurrently")
  else
    match moves.find? (Move.conflict ks) with
    | some m => (ks, .error ("refusing to overwrite " ++ m.parked.name))
    | none =>
      let (ks, parked) := moves.foldl Move.apply (ks, 0)
      ({ caches.foldl Keyspace.del ks with marker := some provider }, .ok parked)

/-- The move of one state key. -/
def moveOf (label provider : String) (key : StateKind × String) : Move where
  live := .state key.1 key.2
  parked := .archive label key.1 key.2
  restored := .archive provider key.1 key.2

/-- The state keys of `adopt_provider`. -/
def stateKeys (symbols : List String) : List (StateKind × String) :=
  symbols.flatMap fun symbol => StateKind.all.map fun kind => (kind, symbol)

def cachesOf (symbols : List String) : List Key :=
  symbols.flatMap fun symbol => [.quote symbol, .vol symbol]

/-- `str(previous or "unverified")`. -/
def labelOf (previous : Option String) : String :=
  match previous with
  | some p => if p = "" then "unverified" else p
  | none => "unverified"

/-- The label of what a provider wrote is its name, and no other provider's. -/
theorem labelOf_ne {recorded : Option Provider} {provider : Provider} (h : recorded ≠ some provider) :
    labelOf (recorded.map Provider.name) ≠ provider.name := by
  cases recorded with
  | none => exact provider.verified.symm
  | some p =>
    unfold labelOf
    rw [Option.map_some]
    dsimp only
    rw [if_neg p.nonempty]
    exact fun heq => h (congrArg some (Provider.ext heq))

@[simp] theorem labelOf_name (provider : Provider) : labelOf (some provider.name) = provider.name :=
  if_neg provider.nonempty

/-- `adopt_provider` as far as it changes keys: what was recorded, and the keys parked, where the
provider changed. -/
def adoptProvider (ks : Keyspace V) (symbols : List String) (provider : String) :
    Keyspace V × Except String (Option (String × Nat)) :=
  if ks.marker = some provider then (ks, .ok none)
  else
    let label := labelOf ks.marker
    let (ks', reply) := adoptScript ks ((stateKeys symbols).map (moveOf label provider))
      (cachesOf symbols) (ks.marker.getD "") provider
    (ks', reply.map fun parked => some (label, parked))

/-! ## What every key holds afterwards -/

namespace Keyspace

/-- `RENAME` of a key if it exists. -/
def renameIf (ks : Keyspace V) (src dst : Key) : Keyspace V :=
  if ks.has src then ks.rename src dst else ks

theorem value_renameIf (ks : Keyspace V) (src dst k : Key) :
    (ks.renameIf src dst).value k =
      if k = dst then (ks.value src).or (ks.value dst)
      else if k = src then none else ks.value k := by
  unfold renameIf has rename
  cases hsrc : ks.value src with
  | none =>
    rw [if_neg (by simp)]
    split
    · next hk => rw [hk, Option.none_or]
    · split
      · next hk => rw [hk, hsrc]
      · rfl
  | some v =>
    simp only [Option.isSome_some, if_true, Option.some_or]

@[simp] theorem marker_renameIf (ks : Keyspace V) (src dst : Key) :
    (ks.renameIf src dst).marker = ks.marker := by
  unfold renameIf
  split <;> rfl

theorem value_foldl_del (ks : Keyspace V) (caches : List Key) (k : Key) :
    (caches.foldl del ks).value k = if k ∈ caches then none else ks.value k := by
  induction caches generalizing ks with
  | nil => simp
  | cons c caches ih =>
    rw [List.foldl_cons, ih]
    unfold del
    by_cases hk : k = c <;> simp [hk]

end Keyspace

/-- One round is two renames. -/
theorem Move.fst_apply (acc : Keyspace V × Nat) (m : Move) :
    (m.apply acc).1 = (acc.1.renameIf m.live m.parked).renameIf m.restored m.live := by
  unfold Move.apply Keyspace.renameIf
  dsimp only
  split <;> split <;> rfl

section Moves

variable {label provider : String}

/-- What the move of its state key leaves at a key. -/
def moved (ks : Keyspace V) (label provider : String) : Key → Option V
  | .state kind s => ks.value (.archive provider kind s)
  | .archive p kind s =>
    if p = label then (ks.value (.state kind s)).or (ks.value (.archive p kind s))
    else if p = provider then none
    else ks.value (.archive p kind s)
  | k => ks.value k

/-- The state key a key belongs to. -/
def Key.stateKey : Key → Option (StateKind × String)
  | .state kind s => some (kind, s)
  | .archive _ kind s => some (kind, s)
  | _ => none

/-- **One round of the loop** moves the keys of one state key and leaves the others alone. -/
theorem value_apply (hne : label ≠ provider) (acc : Keyspace V × Nat) (key : StateKind × String)
    (k : Key) :
    ((moveOf label provider key).apply acc).1.value k =
      if k.stateKey = some key then moved acc.1 label provider k else acc.1.value k := by
  obtain ⟨kind, s⟩ := key
  have hback : (Key.archive provider kind s) ≠ .state kind s := fun h => (nomatch h)
  have hpark : (Key.state kind s) ≠ .archive label kind s := fun h => (nomatch h)
  have hother : (Key.archive provider kind s) ≠ .archive label kind s := fun h => hne (by cases h; rfl)
  rw [Move.fst_apply]
  unfold moveOf
  simp only [Keyspace.value_renameIf, if_neg hback, if_neg hpark, if_neg hother, if_true,
    Option.or_none]
  cases k with
  | state kind' s' =>
    by_cases h : kind' = kind ∧ s' = s
    · obtain ⟨rfl, rfl⟩ := h
      simp [Key.stateKey, moved]
    · simp [Key.stateKey, h]
  | archive p kind' s' =>
    by_cases h : kind' = kind ∧ s' = s
    · obtain ⟨rfl, rfl⟩ := h
      by_cases hp : p = label
      · subst hp
        simp [Key.stateKey, moved, hne]
      · by_cases hp' : p = provider
        · subst hp'
          simp [Key.stateKey, moved, hp]
        · simp [Key.stateKey, moved, hp, hp']
    · simp [Key.stateKey, h]
  | quote s' => simp [Key.stateKey]
  | vol s' => simp [Key.stateKey]

/-- The move of a state key reads the keys of that state key alone. -/
theorem moved_congr {ks ks' : Keyspace V} {k : Key}
    (h : ∀ k', k'.stateKey = k.stateKey → ks'.value k' = ks.value k') :
    moved ks' label provider k = moved ks label provider k := by
  cases k with
  | state kind s => exact h (.archive provider kind s) rfl
  | archive p kind s =>
    dsimp only [moved]
    rw [h (.state kind s) rfl, h (.archive p kind s) rfl]
  | quote s => exact h _ rfl
  | vol s => exact h _ rfl

/-- **The loop.** -/
theorem value_foldl_apply (hne : label ≠ provider) (acc : Keyspace V × Nat)
    {keys : List (StateKind × String)} (hnd : keys.Nodup) (k : Key) :
    ((keys.map (moveOf label provider)).foldl Move.apply acc).1.value k =
      if k.stateKey.any (· ∈ keys) then moved acc.1 label provider k else acc.1.value k := by
  induction keys generalizing acc with
  | nil => cases h : k.stateKey <;> simp
  | cons key keys ih =>
    obtain ⟨hnot, hnd⟩ := List.nodup_cons.mp hnd
    rw [List.map_cons, List.foldl_cons, ih _ hnd, value_apply hne]
    cases hk : k.stateKey with
    | none => simp
    | some key' =>
      by_cases heq : key' = key
      · subst heq
        simp [hnot]
      · have hcongr : moved ((moveOf label provider key).apply acc).1 label provider k =
            moved acc.1 label provider k := by
          refine moved_congr fun k' hk' => ?_
          rw [value_apply hne, if_neg]
          rw [hk', hk]
          exact fun h => heq (Option.some.inj h)
        simp [heq, hcongr]

end Moves

theorem mem_stateKeys {symbols : List String} {key : StateKind × String} :
    key ∈ stateKeys symbols ↔ key.2 ∈ symbols := by
  obtain ⟨kind, s⟩ := key
  simp [stateKeys, StateKind.mem_all]

theorem nodup_stateKeys {symbols : List String} (h : symbols.Nodup) : (stateKeys symbols).Nodup := by
  refine List.nodup_flatMap.mpr ⟨fun s _ => ?_, ?_⟩
  · simp [StateKind.all]
  · refine h.imp fun hne => ?_
    intro key hk hk'
    obtain ⟨kind, -, rfl⟩ := List.mem_map.mp hk
    obtain ⟨kind', -, heq⟩ := List.mem_map.mp hk'
    exact hne (Prod.mk.inj heq).2.symm

theorem mem_cachesOf {symbols : List String} {k : Key} :
    k ∈ cachesOf symbols ↔ ∃ s ∈ symbols, k = .quote s ∨ k = .vol s := by
  simp [cachesOf]

/-- The key belongs to one of the symbols. -/
def Key.symbol : Key → String
  | .state _ s => s
  | .archive _ _ s => s
  | .quote s => s
  | .vol s => s

/-- What a switch of these symbols leaves at a key. -/
def adopted (ks : Keyspace V) (label provider : String) (symbols : List String) (k : Key) : Option V :=
  if k.symbol ∈ symbols then
    match k with
    | .quote _ => none
    | .vol _ => none
    | k => moved ks label provider k
  else ks.value k

/-- A state key that is live while a value is parked under its archive name. -/
def Conflict (ks : Keyspace V) (label : String) (symbols : List String) : Prop :=
  ∃ kind, ∃ s ∈ symbols, ks.has (.state kind s) ∧ ks.has (.archive label kind s)

theorem conflict_iff {ks : Keyspace V} {label provider : String} {symbols : List String} :
    Conflict ks label symbols ↔
      ∃ m ∈ (stateKeys symbols).map (moveOf label provider), m.conflict ks = true := by
  constructor
  · rintro ⟨kind, s, hs, hlive, hpark⟩
    have hmem : (kind, s) ∈ stateKeys symbols := mem_stateKeys.mpr hs
    refine ⟨_, List.mem_map_of_mem hmem, ?_⟩
    exact (Bool.and_eq_true _ _).mpr ⟨hlive, hpark⟩
  · rintro ⟨m, hm, hc⟩
    obtain ⟨key, hkey, rfl⟩ := List.mem_map.mp hm
    exact ⟨key.1, key.2, mem_stateKeys.mp hkey, (Bool.and_eq_true _ _).mp hc⟩

/-- **What the script leaves.** It replies with an error and leaves everything as it was, or moves the
keys and records the provider. -/
theorem adoptScript_cases {label provider : String} (hne : label ≠ provider) (ks : Keyspace V)
    {symbols : List String} (hnd : symbols.Nodup) (expected : String) :
    ((ks.marker.getD "" ≠ expected ∨ Conflict ks label symbols) ∧
      ∃ e, adoptScript ks ((stateKeys symbols).map (moveOf label provider)) (cachesOf symbols)
        expected provider = (ks, .error e)) ∨
    (ks.marker.getD "" = expected ∧ ¬ Conflict ks label symbols) ∧
      ∃ parked, adoptScript ks ((stateKeys symbols).map (moveOf label provider)) (cachesOf symbols)
        expected provider =
          ({ marker := some provider, value := adopted ks label provider symbols }, .ok parked) := by
  unfold adoptScript
  split
  · next hmarker => exact .inl ⟨.inl hmarker, _, rfl⟩
  · next hmarker =>
    rw [not_not] at hmarker
    split
    · next m hfind =>
      refine .inl ⟨.inr (conflict_iff.mpr ⟨m, List.mem_of_find?_eq_some hfind, ?_⟩), _, rfl⟩
      exact List.find?_some hfind
    · next hfind =>
      have hfree : ¬ Conflict ks label symbols := by
        intro hc
        obtain ⟨m, hm, hc⟩ := conflict_iff.mp hc
        exact List.find?_eq_none.mp hfind m hm hc
      refine .inr ⟨⟨hmarker, hfree⟩,
        (((stateKeys symbols).map (moveOf label provider)).foldl Move.apply (ks, 0)).2, ?_⟩
      refine Prod.ext_iff.mpr ⟨?_, rfl⟩
      refine congrArg (Keyspace.mk (some provider)) (funext fun k => ?_)
      rw [Keyspace.value_foldl_del, value_foldl_apply hne _ (nodup_stateKeys hnd)]
      unfold adopted
      cases k with
      | state kind s =>
        by_cases hs : s ∈ symbols <;>
          simp [Key.stateKey, Key.symbol, mem_cachesOf, mem_stateKeys, moved, hs]
      | archive p kind s =>
        by_cases hs : s ∈ symbols <;>
          simp [Key.stateKey, Key.symbol, mem_cachesOf, mem_stateKeys, moved, hs]
      | quote s =>
        by_cases hs : s ∈ symbols <;> simp [Key.stateKey, Key.symbol, mem_cachesOf, hs]
      | vol s =>
        by_cases hs : s ∈ symbols <;> simp [Key.stateKey, Key.symbol, mem_cachesOf, hs]

/-- **A switch** is refused and changes nothing, or moves the keys and records the provider. -/
theorem adoptProvider_cases {ks : Keyspace V} {symbols : List String} {recorded : Option Provider}
    {provider : Provider} (hnd : symbols.Nodup) (hmarker : ks.marker = recorded.map Provider.name)
    (hne : recorded ≠ some provider) :
    (Conflict ks (labelOf ks.marker) symbols ∧
      ∃ e, adoptProvider ks symbols provider.name = (ks, .error e)) ∨
    ¬ Conflict ks (labelOf ks.marker) symbols ∧ ∃ r, adoptProvider ks symbols provider.name =
        ({ marker := some provider.name
           value := adopted ks (labelOf ks.marker) provider.name symbols }, .ok r) := by
  have hlabel : labelOf ks.marker ≠ provider.name := by
    rw [hmarker]
    exact labelOf_ne hne
  have hother : ks.marker ≠ some provider.name := by
    rw [hmarker]
    rintro h
    obtain ⟨p, hp, heq⟩ := Option.map_eq_some_iff.mp h
    exact hne (hp.trans (congrArg some (Provider.ext heq)))
  unfold adoptProvider
  rw [if_neg hother]
  dsimp only
  rcases adoptScript_cases hlabel ks hnd (ks.marker.getD "") with ⟨hc, e, he⟩ | ⟨hfree, n, hn⟩
  · refine .inl ⟨hc.resolve_left fun h => h rfl, e, ?_⟩
    rw [he]
    rfl
  · refine .inr ⟨hfree.2, some (labelOf ks.marker, n), ?_⟩
    rw [hn]
    rfl

/-- The recorded provider adopts nothing. -/
theorem adoptProvider_self {ks : Keyspace V} {provider : String} (h : ks.marker = some provider)
    (symbols : List String) : adoptProvider ks symbols provider = (ks, .ok none) :=
  if_pos h

/-! ## Where the values are -/

/-- What a switch leaves under a live key of a listed symbol was archived for the provider. -/
theorem adopted_state_mem {label provider s : String} {symbols : List String} {kind : StateKind}
    {ks : Keyspace V} (hs : s ∈ symbols) :
    adopted ks label provider symbols (.state kind s) = ks.value (.archive provider kind s) := by
  simp [adopted, Key.symbol, hs, moved]

theorem adopted_not_mem {label provider : String} {symbols : List String} {k : Key}
    {ks : Keyspace V} (hs : k.symbol ∉ symbols) : adopted ks label provider symbols k = ks.value k := by
  unfold adopted
  rw [if_neg hs]

/-- An archive is new only where the live key was parked. -/
theorem adopted_archive {label provider p s : String} {symbols : List String} {kind : StateKind}
    {ks : Keyspace V} {v : V}
    (h : adopted ks label provider symbols (.archive p kind s) = some v) :
    ks.value (.archive p kind s) = some v ∨ p = label ∧ ks.value (.state kind s) = some v := by
  by_cases hs : s ∈ symbols
  · by_cases hp : p = label
    · simp only [adopted, Key.symbol, if_pos hs, moved, if_pos hp, Option.or_eq_some_iff] at h
      rcases h with h | ⟨-, h⟩
      · exact .inr ⟨hp, h⟩
      · exact .inl h
    · simp only [adopted, Key.symbol, if_pos hs, moved, if_neg hp] at h
      split at h
      · cases h
      · exact .inl h
  · rw [adopted_not_mem hs] at h
    exact .inl h

/-- The same values under keys of the same state keys. -/
structure Rearranged (ks ks' : Keyspace V) : Prop where
  source : ∀ k v, ks'.value k = some v → ∃ k', k'.stateKey = k.stateKey ∧ ks.value k' = some v
  kept : ∀ k v, k.stateKey.isSome → ks.value k = some v →
    ∃ k', k'.stateKey = k.stateKey ∧ ks'.value k' = some v

theorem rearranged_refl (ks : Keyspace V) : Rearranged ks ks :=
  ⟨fun k _ h => ⟨k, rfl, h⟩, fun k _ _ h => ⟨k, rfl, h⟩⟩

/-- **A switch rearranges** the state keys. -/
theorem rearranged_adopted {label provider : String} (hne : label ≠ provider) {symbols : List String}
    {ks : Keyspace V} (hfree : ¬ Conflict ks label symbols) (marker : Option String) :
    Rearranged ks ⟨marker, adopted ks label provider symbols⟩ := by
  constructor
  · intro k v h
    by_cases hs : k.symbol ∈ symbols
    · cases k with
      | state kind s => exact ⟨.archive provider kind s, rfl, (adopted_state_mem hs).symm.trans h⟩
      | archive p kind s =>
        rcases adopted_archive h with h | ⟨-, h⟩
        · exact ⟨.archive p kind s, rfl, h⟩
        · exact ⟨.state kind s, rfl, h⟩
      | quote s => simp [adopted, hs] at h
      | vol s => simp [adopted, hs] at h
    · exact ⟨k, rfl, (adopted_not_mem hs).symm.trans h⟩
  · intro k v hk h
    by_cases hs : k.symbol ∈ symbols
    · cases k with
      | state kind s =>
        refine ⟨.archive label kind s, rfl, ?_⟩
        replace hs : s ∈ symbols := hs
        simp [adopted, Key.symbol, hs, moved, h]
      | archive p kind s =>
        by_cases hp : p = provider
        · subst hp
          exact ⟨.state kind s, rfl, (adopted_state_mem hs).trans h⟩
        · have hs' : s ∈ symbols := hs
          refine ⟨.archive p kind s, rfl, ?_⟩
          by_cases hlabel : p = label
          · subst hlabel
            -- parking would have been refused
            have hnone : ks.value (.state kind s) = none := by
              refine Option.not_isSome_iff_eq_none.mp fun hlive => hfree ⟨kind, s, hs', hlive, ?_⟩
              rw [Keyspace.has, h]
              rfl
            simp [adopted, Key.symbol, hs', moved, hnone, h]
          · simp [adopted, Key.symbol, hs', moved, hlabel, hp, h]
      | quote s => cases hk
      | vol s => cases hk
    · exact ⟨k, rfl, (adopted_not_mem hs).trans h⟩

/-- **Adopting a provider** records one, or leaves the one there is, and rearranges the state keys. -/
theorem rearranged_adoptProvider {ks : Keyspace V} {symbols : List String} {recorded : Option Provider}
    {provider : Provider} (hnd : symbols.Nodup) (hmarker : ks.marker = recorded.map Provider.name) :
    (∃ recorded : Option Provider,
      (adoptProvider ks symbols provider.name).1.marker = recorded.map Provider.name) ∧
      Rearranged ks (adoptProvider ks symbols provider.name).1 := by
  by_cases hsame : recorded = some provider
  · rw [adoptProvider_self (hmarker.trans (by rw [hsame]; rfl))]
    exact ⟨⟨recorded, hmarker⟩, rearranged_refl ks⟩
  · have hlabel : labelOf ks.marker ≠ provider.name := by
      rw [hmarker]
      exact labelOf_ne hsame
    rcases adoptProvider_cases hnd hmarker hsame with ⟨-, e, he⟩ | ⟨hfree, r, hr⟩
    · rw [he]
      exact ⟨⟨recorded, hmarker⟩, rearranged_refl ks⟩
    · rw [hr]
      exact ⟨⟨some provider, rfl⟩, rearranged_adopted hlabel hfree _⟩

/-- Adopting a provider archives nothing but live values, under the label of what was recorded. -/
theorem archive_adoptProvider {ks : Keyspace V} {symbols : List String} {recorded : Option Provider}
    {provider : Provider} (hnd : symbols.Nodup) (hmarker : ks.marker = recorded.map Provider.name)
    {p s : String} {kind : StateKind} {v : V}
    (h : (adoptProvider ks symbols provider.name).1.value (.archive p kind s) = some v) :
    ks.value (.archive p kind s) = some v ∨
      p = labelOf ks.marker ∧ ks.value (.state kind s) = some v := by
  by_cases hsame : recorded = some provider
  · rw [adoptProvider_self (hmarker.trans (by rw [hsame]; rfl))] at h
    exact .inl h
  · rcases adoptProvider_cases hnd hmarker hsame with ⟨-, e, he⟩ | ⟨-, r, hr⟩
    · rw [he] at h
      exact .inl h
    · rw [hr] at h
      exact adopted_archive h

end FxTracker.Ingestor
