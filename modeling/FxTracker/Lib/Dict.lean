import Mathlib.Data.List.Nodup
import Mathlib.Data.List.Lookmap

/-!
# Insertion-ordered dictionaries

A dictionary that remembers the order its keys were first set in: setting a key it already holds
replaces the value and keeps the key's place, a new key goes to the end.
`values` therefore lists what is held in that order, which is what a queue keyed by routing key
reads out.

The keys are distinct by construction, so "the" value of a key needs no side condition.
-/

namespace FxTracker

/-- A dictionary: its entries in the order their keys were first set, no key twice. -/
structure Dict (κ : Type*) (α : Type*) where
  entries : List (κ × α)
  nodup : (entries.map Prod.fst).Nodup

namespace Dict

variable {κ α : Type*}

theorem ext {d e : Dict κ α} (h : d.entries = e.entries) : d = e := by
  cases d; cases e; cases h; rfl

instance [DecidableEq κ] [DecidableEq α] : DecidableEq (Dict κ α) := fun d e =>
  decidable_of_iff (d.entries = e.entries) ⟨ext, fun h => by rw [h]⟩

/-- The dictionary that holds nothing. -/
def empty : Dict κ α := ⟨[], List.nodup_nil⟩

instance : Inhabited (Dict κ α) := ⟨empty⟩

def keys (d : Dict κ α) : List κ := d.entries.map Prod.fst

def values (d : Dict κ α) : List α := d.entries.map Prod.snd

def size (d : Dict κ α) : Nat := d.entries.length

def isEmpty (d : Dict κ α) : Bool := d.entries.isEmpty

@[simp] theorem entries_empty : (empty : Dict κ α).entries = [] := rfl
@[simp] theorem keys_empty : (empty : Dict κ α).keys = [] := rfl
@[simp] theorem values_empty : (empty : Dict κ α).values = [] := rfl
@[simp] theorem isEmpty_empty : (empty : Dict κ α).isEmpty = true := rfl

theorem isEmpty_iff {d : Dict κ α} : d.isEmpty = true ↔ d.entries = [] := List.isEmpty_iff

theorem isEmpty_eq_false_iff {d : Dict κ α} : d.isEmpty = false ↔ d.entries ≠ [] := by
  rw [← Bool.not_eq_true, isEmpty_iff]

theorem values_eq_nil_iff {d : Dict κ α} : d.values = [] ↔ d.isEmpty = true := by
  rw [isEmpty_iff, values, List.map_eq_nil_iff]

theorem length_values (d : Dict κ α) : d.values.length = d.size := List.length_map ..

theorem size_eq_length_keys (d : Dict κ α) : d.size = d.keys.length := (List.length_map ..).symm

theorem mem_keys_of_mem {d : Dict κ α} {k : κ} {v : α} (h : (k, v) ∈ d.entries) : k ∈ d.keys :=
  List.mem_map.mpr ⟨(k, v), h, rfl⟩

variable [DecidableEq κ]

/-- The value held for `k`. -/
def get? (d : Dict κ α) (k : κ) : Option α := (d.entries.find? (fun e => e.1 = k)).map Prod.snd

def contains (d : Dict κ α) (k : κ) : Bool := (d.get? k).isSome

@[simp] theorem get?_empty (k : κ) : (empty : Dict κ α).get? k = none := rfl

/-- The entries are the graph of `get?`. -/
theorem mem_entries_iff {d : Dict κ α} {k : κ} {v : α} :
    (k, v) ∈ d.entries ↔ d.get? k = some v := by
  obtain ⟨l, hnd⟩ := d
  show (k, v) ∈ l ↔ (l.find? (fun e => e.1 = k)).map Prod.snd = some v
  induction l with
  | nil => simp
  | cons e rest ih =>
    rw [List.map_cons] at hnd
    obtain ⟨hni, hrest⟩ := List.nodup_cons.mp hnd
    by_cases he : e.1 = k
    · rw [List.find?_cons_of_pos (by simpa using he)]
      simp only [List.mem_cons, Option.map_some, Option.some.injEq]
      refine ⟨?_, fun h => Or.inl (by rw [← he, ← h])⟩
      rintro (h | h)
      · rw [← h]
      · exact absurd (List.mem_map.mpr ⟨(k, v), h, rfl⟩) (he ▸ hni)
    · rw [List.find?_cons_of_neg (by simpa using he), ← ih hrest]
      simp only [List.mem_cons, or_iff_right_iff_imp]
      intro h
      exact absurd (by rw [← h]) he

theorem mem_keys_iff {d : Dict κ α} {k : κ} : k ∈ d.keys ↔ d.contains k = true := by
  rw [contains, Option.isSome_iff_exists]
  constructor
  · intro h
    obtain ⟨⟨k', v⟩, hm, rfl⟩ := List.mem_map.mp h
    exact ⟨v, mem_entries_iff.mp hm⟩
  · rintro ⟨v, hv⟩
    exact mem_keys_of_mem (mem_entries_iff.mpr hv)

theorem isEmpty_eq_false_of_get? {d : Dict κ α} {k : κ} {v : α} (h : d.get? k = some v) :
    d.isEmpty = false := by
  rw [isEmpty_eq_false_iff]
  intro hnil
  rw [← mem_entries_iff, hnil] at h
  cases h

theorem get?_eq_none_iff {d : Dict κ α} {k : κ} : d.get? k = none ↔ k ∉ d.keys := by
  rw [mem_keys_iff, contains, Option.isSome_iff_ne_none, ne_eq, not_not]

/-- Where every value knows its key, filtering by key finds the value of that key, once. -/
theorem filter_values_eq {d : Dict κ α} {key : α → κ} (h : ∀ k v, d.get? k = some v → key v = k)
    (k : κ) : d.values.filter (fun v => key v = k) = (d.get? k).toList := by
  have hkey : ∀ e ∈ d.entries, key e.2 = e.1 := fun e he => h e.1 e.2 (mem_entries_iff.mp he)
  obtain ⟨l, hnd⟩ := d
  show (l.map Prod.snd).filter _ = ((l.find? (fun e => e.1 = k)).map Prod.snd).toList
  clear h
  induction l with
  | nil => rfl
  | cons e rest ih =>
    rw [List.map_cons] at hnd
    obtain ⟨hni, hrest⟩ := List.nodup_cons.mp hnd
    have he := hkey e (List.mem_cons_self ..)
    have ih := ih hrest fun e' he' => hkey e' (List.mem_cons_of_mem _ he')
    by_cases hk : e.1 = k
    · have hnone : rest.find? (fun e => e.1 = k) = none :=
        List.find?_eq_none.mpr fun e' he' hk' =>
          hni (List.mem_map.mpr ⟨e', he', by rw [hk]; exact of_decide_eq_true hk'⟩)
      rw [List.map_cons, List.filter_cons_of_pos (by simp [he, hk]), ih, hnone,
        List.find?_cons_of_pos (by simp [hk])]
      rfl
    · rw [List.map_cons, List.filter_cons_of_neg (by simp [he, hk]), ih,
        List.find?_cons_of_neg (by simpa using hk)]

/-- Rows made of the entries, each knowing its key: the row of a key is made of its value. -/
theorem find?_filterMap {β : Type*} {d : Dict κ α} {f : κ × α → Option β} {key : β → κ}
    (h : ∀ k a b, d.get? k = some a → f (k, a) = some b → key b = k) (k : κ) :
    (d.entries.filterMap f).find? (fun b => key b = k) = (d.get? k).bind fun a => f (k, a) := by
  have hkey : ∀ e ∈ d.entries, ∀ b, f e = some b → key b = e.1 :=
    fun e he b hb => h e.1 e.2 b (mem_entries_iff.mp he) hb
  obtain ⟨l, hnd⟩ := d
  show (l.filterMap _).find? _ = ((l.find? (fun e => e.1 = k)).map Prod.snd).bind _
  clear h
  induction l with
  | nil => rfl
  | cons e rest ih =>
    rw [List.map_cons] at hnd
    obtain ⟨hni, hrest⟩ := List.nodup_cons.mp hnd
    have ih := ih hrest fun e' he' => hkey e' (List.mem_cons_of_mem _ he')
    by_cases hk : e.1 = k
    · have hnone : rest.find? (fun e => e.1 = k) = none :=
        List.find?_eq_none.mpr fun e' he' hk' =>
          hni (List.mem_map.mpr ⟨e', he', (of_decide_eq_true hk').trans hk.symm⟩)
      rw [hnone] at ih
      rw [List.find?_cons_of_pos (by simpa using hk)]
      cases hf : f e with
      | none =>
        rw [List.filterMap_cons_none hf, ih, Option.map_some, Option.bind_some, ← hk]
        exact hf.symm
      | some b =>
        have hb := hkey e (List.mem_cons_self ..) b hf
        rw [List.filterMap_cons_some hf, List.find?_cons_of_pos (by simp [hb, hk]),
          Option.map_some, Option.bind_some, ← hk]
        exact hf.symm
    · rw [List.find?_cons_of_neg (by simpa using hk), ← ih]
      cases hf : f e with
      | none => rw [List.filterMap_cons_none hf]
      | some b =>
        have hb := hkey e (List.mem_cons_self ..) b hf
        rw [List.filterMap_cons_some hf, List.find?_cons_of_neg (by simp [hb, hk])]

/-- Their keys are distinct. -/
theorem nodup_filterMap {β : Type*} {d : Dict κ α} {f : κ × α → Option β} {key : β → κ}
    (h : ∀ k a b, d.get? k = some a → f (k, a) = some b → key b = k) :
    ((d.entries.filterMap f).map key).Nodup := by
  have hkey : ∀ e ∈ d.entries, ∀ b, f e = some b → key b = e.1 :=
    fun e he b hb => h e.1 e.2 b (mem_entries_iff.mp he) hb
  obtain ⟨l, hnd⟩ := d
  show ((l.filterMap _).map key).Nodup
  clear h
  induction l with
  | nil => exact List.nodup_nil
  | cons e rest ih =>
    rw [List.map_cons] at hnd
    obtain ⟨hni, hrest⟩ := List.nodup_cons.mp hnd
    have hkey' : ∀ e' ∈ rest, ∀ b, f e' = some b → key b = e'.1 :=
      fun e' he' => hkey e' (List.mem_cons_of_mem _ he')
    cases hf : f e with
    | none => rw [List.filterMap_cons_none hf]; exact ih hrest hkey'
    | some b =>
      rw [List.filterMap_cons_some hf, List.map_cons, List.nodup_cons]
      refine ⟨fun hm => ?_, ih hrest hkey'⟩
      obtain ⟨b', hb', hbb⟩ := List.mem_map.mp hm
      obtain ⟨e', he', hf'⟩ := List.mem_filterMap.mp hb'
      rw [hkey e (List.mem_cons_self ..) b hf, hkey' e' he' b' hf'] at hbb
      exact hni (List.mem_map.mpr ⟨e', he', hbb⟩)

/-! ## Setting a key -/

/-- The entries after `k` is set to `v`: in place if `k` is held, at the end otherwise. -/
def setEntries (l : List (κ × α)) (k : κ) (v : α) : List (κ × α) :=
  match l with
  | [] => [(k, v)]
  | e :: rest => if e.1 = k then (k, v) :: rest else e :: setEntries rest k v

theorem keys_setEntries (l : List (κ × α)) (k : κ) (v : α) :
    (setEntries l k v).map Prod.fst
      = if k ∈ l.map Prod.fst then l.map Prod.fst else l.map Prod.fst ++ [k] := by
  induction l with
  | nil => simp [setEntries]
  | cons e rest ih =>
    rw [setEntries]
    by_cases he : e.1 = k
    · simp [he]
    · have hk : ¬ k = e.1 := fun h => he h.symm
      rw [if_neg he, List.map_cons, ih]
      by_cases hm : k ∈ rest.map Prod.fst
      · rw [if_pos hm, if_pos (by simp only [List.map_cons, List.mem_cons]; exact Or.inr hm)]
        rfl
      · rw [if_neg hm, if_neg (by simp only [List.map_cons, List.mem_cons]; tauto)]
        rfl

def set (d : Dict κ α) (k : κ) (v : α) : Dict κ α where
  entries := setEntries d.entries k v
  nodup := by
    rw [keys_setEntries]
    split
    · exact d.nodup
    · next h =>
      refine List.nodup_append.mpr ⟨d.nodup, by simp, ?_⟩
      intro a ha b hb hab
      rw [List.mem_singleton] at hb
      exact h (by rw [← hb, ← hab]; exact ha)

theorem keys_set (d : Dict κ α) (k : κ) (v : α) :
    (d.set k v).keys = if k ∈ d.keys then d.keys else d.keys ++ [k] :=
  keys_setEntries ..

theorem get?_set (d : Dict κ α) (k k' : κ) (v : α) :
    (d.set k v).get? k' = if k' = k then some v else d.get? k' := by
  show ((setEntries d.entries k v).find? _).map _ = if k' = k then _ else (d.entries.find? _).map _
  induction d.entries with
  | nil => by_cases hk : k' = k <;> simp [setEntries, hk, eq_comm]
  | cons e rest ih =>
    rw [setEntries]
    by_cases he : e.1 = k
    · rw [if_pos he]
      by_cases hk : k' = k
      · simp [hk]
      · have hk' : ¬ k = k' := fun h => hk h.symm
        simp [hk, hk', he]
    · rw [if_neg he]
      by_cases hk' : e.1 = k'
      · have hne : ¬ k' = k := fun h => he (hk'.trans h)
        simp [hk', hne]
      · rw [List.find?_cons_of_neg (by simpa using hk'), ih,
          List.find?_cons_of_neg (by simpa using hk')]

@[simp] theorem get?_set_self (d : Dict κ α) (k : κ) (v : α) : (d.set k v).get? k = some v := by
  rw [get?_set, if_pos rfl]

theorem mem_entries_set {d : Dict κ α} {k k' : κ} {v v' : α} :
    (k', v') ∈ (d.set k v).entries ↔ k' = k ∧ v' = v ∨ k' ≠ k ∧ (k', v') ∈ d.entries := by
  rw [mem_entries_iff, get?_set, mem_entries_iff]
  by_cases h : k' = k <;> simp [h, eq_comm]

theorem get?_set_ne (d : Dict κ α) {k k' : κ} (v : α) (h : k' ≠ k) :
    (d.set k v).get? k' = d.get? k' := by rw [get?_set, if_neg h]

theorem mem_keys_set {d : Dict κ α} {k k' : κ} {v : α} :
    k' ∈ (d.set k v).keys ↔ k' = k ∨ k' ∈ d.keys := by
  rw [keys_set]
  split
  · next h => exact ⟨Or.inr, fun hk => hk.elim (fun he => he ▸ h) id⟩
  · simp [or_comm]

@[simp] theorem isEmpty_set (d : Dict κ α) (k : κ) (v : α) : (d.set k v).isEmpty = false := by
  rw [isEmpty_eq_false_iff]
  intro h
  have hk : k ∈ (d.set k v).keys := mem_keys_set.mpr (Or.inl rfl)
  rw [keys, h] at hk
  cases hk

theorem size_set (d : Dict κ α) (k : κ) (v : α) :
    (d.set k v).size = if d.contains k then d.size else d.size + 1 := by
  rw [size_eq_length_keys, size_eq_length_keys, keys_set]
  by_cases h : k ∈ d.keys
  · rw [if_pos h, if_pos (mem_keys_iff.mp h)]
  · have hc : d.contains k ≠ true := fun hc => h (mem_keys_iff.mpr hc)
    rw [if_neg h, if_neg hc, List.length_append, List.length_singleton]

/-- A new value that reads the same as the old one. -/
theorem map_values_set {β : Type*} {d : Dict κ α} {k : κ} {v v₀ : α} {f : α → β}
    (h : d.get? k = some v₀) (hf : f v = f v₀) : (d.set k v).values.map f = d.values.map f := by
  show ((setEntries d.entries k v).map Prod.snd).map f = (d.entries.map Prod.snd).map f
  have hget : (d.entries.find? (fun e => e.1 = k)).map Prod.snd = some v₀ := h
  generalize d.entries = l at hget
  induction l with
  | nil => cases hget
  | cons e rest ih =>
    rw [setEntries]
    by_cases he : e.1 = k
    · rw [if_pos he, List.map_cons, List.map_cons, List.map_cons, List.map_cons]
      rw [List.find?_cons_of_pos (by simpa using he), Option.map_some, Option.some.injEq] at hget
      rw [hf, hget]
    · rw [if_neg he, List.map_cons, List.map_cons, List.map_cons, List.map_cons, ih]
      rwa [List.find?_cons_of_neg (by simpa using he)] at hget

/-! ## Removing a key -/

def erase (d : Dict κ α) (k : κ) : Dict κ α where
  entries := d.entries.filter (fun e => ¬ e.1 = k)
  nodup := d.nodup.sublist (List.Sublist.map _ List.filter_sublist)

theorem get?_erase (d : Dict κ α) (k k' : κ) :
    (d.erase k).get? k' = if k' = k then none else d.get? k' := by
  by_cases hk : k' = k
  · subst hk
    rw [if_pos rfl, get?_eq_none_iff]
    intro h
    obtain ⟨e, he, rfl⟩ := List.mem_map.mp h
    simp [erase] at he
  · rw [if_neg hk]
    refine Option.ext fun v => ?_
    rw [← Option.mem_def, ← Option.mem_def, Option.mem_def, Option.mem_def, ← mem_entries_iff,
      ← mem_entries_iff]
    simp [erase, hk]

theorem size_erase_lt {d : Dict κ α} {k : κ} (h : k ∈ d.keys) : (d.erase k).size < d.size := by
  obtain ⟨e, he, rfl⟩ := List.mem_map.mp h
  exact List.length_filter_lt_length_iff_exists.mpr ⟨e, he, by simp⟩

end Dict

end FxTracker
