import Mathlib.Data.List.Pairwise
import Mathlib.Data.List.Perm.Subperm

/-!
# Fixed windows

Events are counted in windows. A window begins with its first event and lasts longer than `span`; the events
of a window are numbered from 1.

* `FixedWindows` — a log of events so numbered, the newest first
* `length_withinLimit_le` — in any stretch of time of length `span`, fewer than twice `limit` events have a
  number up to `limit`
-/

namespace FxTracker

/-- An event: when it came, its number in its window, and when that window began. -/
structure Counted where
  time : Nat
  count : Nat
  born : Nat
  deriving DecidableEq

/-- One event comes after another: further on in its window, or in a window that began more than `span`
after the other's. -/
def Counted.Follows (span : Nat) (newer older : Counted) : Prop :=
  (newer.born = older.born ∧ older.count < newer.count) ∨
    (older.born + span < newer.born ∧ older.time ≤ newer.born)

/-- Two events are in one window, or their windows began more than `span` apart. -/
def Counted.Apart (span : Nat) (e e' : Counted) : Prop :=
  e.born = e'.born ∨ (e.born + span < e'.born ∧ e.time ≤ e'.born) ∨
    (e'.born + span < e.born ∧ e'.time ≤ e.born)

instance (span : Nat) : Std.Symm (Counted.Apart span) where
  symm e e' h := by
    rcases h with heq | hlt | hlt
    · exact .inl heq.symm
    · exact .inr (.inr hlt)
    · exact .inr (.inl hlt)

structure FixedWindows (span : Nat) (log : List Counted) : Prop where
  numbered : ∀ e ∈ log, 1 ≤ e.count
  began : ∀ e ∈ log, e.born ≤ e.time
  first : ∀ e ∈ log, e.count = 1 → e.time = e.born
  follows : log.Pairwise (Counted.Follows span)

/-- The events of a stretch of time that are numbered up to `limit`. -/
def withinLimit (limit start stop : Nat) (log : List Counted) : List Counted :=
  log.filter fun e => e.count ≤ limit ∧ start ≤ e.time ∧ e.time ≤ stop

variable {span limit start stop : Nat} {log : List Counted} {e e' : Counted}

theorem mem_withinLimit :
    e ∈ withinLimit limit start stop log ↔
      e ∈ log ∧ e.count ≤ limit ∧ start ≤ e.time ∧ e.time ≤ stop := by
  simp [withinLimit]

namespace FixedWindows

theorem sublist (h : FixedWindows span log) {part : List Counted} (hsub : List.Sublist part log) :
    FixedWindows span part where
  numbered e he := h.numbered e (hsub.subset he)
  began e he := h.began e (hsub.subset he)
  first e he := h.first e (hsub.subset he)
  follows := h.follows.sublist hsub

theorem apart (h : FixedWindows span log) (he : e ∈ log) (he' : e' ∈ log) : e.Apart span e' := by
  refine (h.follows.imp fun hxy => ?_).forall_of_forall (fun x _ => .inl rfl) he he'
  rcases hxy with ⟨heq, -⟩ | hlt
  · exact .inl heq
  · exact .inr (.inr hlt)

/-- Of three events within `span` of time two are in one window. -/
theorem two_windows (h : FixedWindows span log) {x y z : Counted} (hx : x ∈ log) (hy : y ∈ log)
    (hz : z ∈ log) (hin : ∀ e ∈ [x, y, z], start ≤ e.time ∧ e.time ≤ start + span) :
    x.born = y.born ∨ x.born = z.born ∨ y.born = z.born := by
  have hxin := hin x (by simp)
  have hyin := hin y (by simp)
  have hzin := hin z (by simp)
  have hxb := h.began x hx
  have hyb := h.began y hy
  have hzb := h.began z hz
  rcases h.apart hx hy with heq | ⟨hlt, hle⟩ | ⟨hlt, hle⟩
  · exact .inl heq
  · rcases h.apart hx hz with heq | ⟨hlt', hle'⟩ | ⟨hlt', hle'⟩
    · exact .inr (.inl heq)
    · rcases h.apart hy hz with heq | ⟨hlt'', hle''⟩ | ⟨hlt'', hle''⟩
      · exact .inr (.inr heq)
      · omega
      · omega
    · omega
  · rcases h.apart hx hz with heq | ⟨hlt', hle'⟩ | ⟨hlt', hle'⟩
    · exact .inr (.inl heq)
    · omega
    · rcases h.apart hy hz with heq | ⟨hlt'', hle''⟩ | ⟨hlt'', hle''⟩
      · exact .inr (.inr heq)
      · omega
      · omega

theorem nodup_numbers (h : FixedWindows span log) : (log.map fun e => (e.born, e.count)).Nodup := by
  refine List.pairwise_map.mpr (h.follows.imp fun hxy heq => ?_)
  obtain ⟨hborn, hcount⟩ := Prod.mk.injEq .. ▸ heq
  rcases hxy with ⟨-, hlt⟩ | ⟨hlt, -⟩ <;> omega

/-- Events up to `limit` of two windows, without the first of one of them. -/
theorem length_le_of_two (h : FixedWindows span log) {a b : Nat}
    (hin : ∀ e ∈ log, e.count ≤ limit ∧ (e.born = a ∨ e.born = b ∧ e.count ≠ 1)) :
    log.length ≤ 2 * limit - 1 := by
  have hsub : (log.map fun e => (e.born, e.count)) ⊆
      ((List.range' 1 limit).map fun n => (a, n)) ++ (List.range' 2 (limit - 1)).map fun n => (b, n) := by
    intro p hp
    obtain ⟨e, he, rfl⟩ := List.mem_map.mp hp
    obtain ⟨hcount, hborn⟩ := hin e he
    have hpos := h.numbered e he
    rw [List.mem_append]
    rcases hborn with rfl | ⟨rfl, hne⟩
    · exact .inl (List.mem_map.mpr ⟨_, List.mem_range'_1.mpr (by omega), rfl⟩)
    · exact .inr (List.mem_map.mpr ⟨_, List.mem_range'_1.mpr (by omega), rfl⟩)
  have hlen := (List.subperm_of_subset h.nodup_numbers hsub).length_le
  simp only [List.length_map, List.length_append, List.length_range'] at hlen
  omega

/-- **Fewer than twice the limit in any stretch of `span`.** -/
theorem length_withinLimit_le (h : FixedWindows span log) (limit start : Nat) :
    (withinLimit limit start (start + span) log).length ≤ 2 * limit - 1 := by
  have hpart : FixedWindows span (withinLimit limit start (start + span) log) := h.sublist List.filter_sublist
  cases hlog : withinLimit limit start (start + span) log with
  | nil => exact Nat.zero_le _
  | cons x rest =>
    rw [hlog] at hpart
    have hin : ∀ e ∈ x :: rest, e.count ≤ limit ∧ start ≤ e.time ∧ e.time ≤ start + span :=
      fun e he => (mem_withinLimit.mp (hlog ▸ he)).2
    have hx : x ∈ x :: rest := List.mem_cons_self ..
    by_cases hother : ∃ y ∈ x :: rest, y.born ≠ x.born
    · obtain ⟨y, hy, hne⟩ := hother
      refine hpart.length_le_of_two (a := x.born) (b := y.born) fun e he => ⟨(hin e he).1, ?_⟩
      by_cases hex : e.born = x.born
      · exact .inl hex
      · have hthree : ∀ e' ∈ [x, y, e], start ≤ e'.time ∧ e'.time ≤ start + span := by
          intro e' he'
          simp only [List.mem_cons, List.not_mem_nil, or_false] at he'
          rcases he' with rfl | rfl | rfl
          · exact (hin _ hx).2
          · exact (hin _ hy).2
          · exact (hin _ he).2
        have hborn : e.born = y.born := by
          rcases hpart.two_windows hx hy he hthree with heq | heq | heq
          · exact absurd heq.symm hne
          · exact absurd heq.symm hex
          · exact heq.symm
        refine .inr ⟨hborn, fun hone => ?_⟩
        -- the first of the older window came more than `span` before the newer one began
        have hfirst := hpart.first e he hone
        have hbegan := hpart.began x hx
        have hxin := (hin x hx).2
        have hein := (hin e he).2
        have hmem : e ∈ rest := by
          rcases List.mem_cons.mp he with rfl | hmem
          · exact absurd rfl hex
          · exact hmem
        rcases (List.pairwise_cons.mp hpart.follows).1 e hmem with ⟨heq, -⟩ | ⟨hlt, -⟩
        · exact hex heq.symm
        · omega
    · refine hpart.length_le_of_two (a := x.born) (b := x.born) fun e he => ⟨(hin e he).1, .inl ?_⟩
      by_contra hne
      exact hother ⟨e, he, hne⟩

/-! ## One more event -/

theorem nil (span : Nat) : FixedWindows span [] := by
  refine ⟨?_, ?_, ?_, .nil⟩ <;> intro e he <;> cases he

/-- An event in the window that is open. -/
theorem cons_next (h : FixedWindows span (e :: log)) {time : Nat} (hle : e.time ≤ time) :
    FixedWindows span (⟨time, e.count + 1, e.born⟩ :: e :: log) := by
  have hbegan := h.began e (List.mem_cons_self ..)
  have hpos := h.numbered e (List.mem_cons_self ..)
  refine ⟨fun x hx => ?_, fun x hx => ?_, fun x hx hone => ?_,
    List.pairwise_cons.mpr ⟨fun x hx => ?_, h.follows⟩⟩
  · rcases List.mem_cons.mp hx with rfl | hx
    · exact Nat.le_add_left ..
    · exact h.numbered x hx
  · rcases List.mem_cons.mp hx with rfl | hx
    · exact Nat.le_trans hbegan hle
    · exact h.began x hx
  · rcases List.mem_cons.mp hx with rfl | hx
    · have : e.count + 1 = 1 := hone
      omega
    · exact h.first x hx hone
  · rcases List.mem_cons.mp hx with rfl | hx
    · exact .inl ⟨rfl, Nat.lt_succ_self _⟩
    · rcases (List.pairwise_cons.mp h.follows).1 x hx with ⟨heq, hlt⟩ | hlt
      · exact .inl ⟨heq, Nat.lt_succ_of_lt hlt⟩
      · exact .inr hlt

/-- An event that begins a window. -/
theorem cons_first (h : FixedWindows span log) {time : Nat}
    (hpast : ∀ e ∈ log, e.born + span < time ∧ e.time ≤ time) :
    FixedWindows span (⟨time, 1, time⟩ :: log) := by
  refine ⟨fun x hx => ?_, fun x hx => ?_, fun x hx hone => ?_,
    List.pairwise_cons.mpr ⟨fun x hx => .inr (hpast x hx), h.follows⟩⟩
  · rcases List.mem_cons.mp hx with rfl | hx
    · exact Nat.le_refl _
    · exact h.numbered x hx
  · rcases List.mem_cons.mp hx with rfl | hx
    · exact Nat.le_refl _
    · exact h.began x hx
  · rcases List.mem_cons.mp hx with rfl | hx
    · rfl
    · exact h.first x hx hone

end FixedWindows

end FxTracker
