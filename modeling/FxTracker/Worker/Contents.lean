import FxTracker.Redis.Group
import FxTracker.Worker.Page

/-!
# What the rows took in

Where prices need no order, NaN among them, a row is what the batches merged into it make of its prices, in their
turn. A batch merges into a row only above the row's watermark, so what counts is that no entry is left
behind below it.

* `TakenIn` — the rows as the batches they took in
* `takenIn_upsert` — what a commit adds, where the batch holds every entry up to its own id that is not in the row
-/

namespace FxTracker.Worker.Ticks

open Persister

variable {K : Type} [FloatOps K] [LT K] [DecidableLT K] {cfg : PersisterConfig K} {table table' : BarTable K}
  {log es : List Entry} {taken : BarKey → List (List Entry)} {m : Persister K} {k : BarKey}

/-- The batches that a row took in, of the entries of the stream, make up its prices and its count. -/
structure TakenIn (cfg : PersisterConfig K) (log : List Entry) (table : BarTable K)
    (taken : BarKey → List (List Entry)) : Prop where
  rows : ∀ k, (table.get? k).map (·.marked.bar) =
    rowOf ((taken k).map fun es => (pricesOf cfg k es).map Prod.snd)
  known : ∀ k, ∀ e ∈ (taken k).flatten, e ∈ log

/-- No entry of a row is left behind below its watermark. -/
def NoneBehind (cfg : PersisterConfig K) (log : List Entry) (table : BarTable K)
    (taken : BarKey → List (List Entry)) : Prop :=
  ∀ e ∈ log, ∀ x ∈ tickOf cfg e, ∀ r ∈ table.get? (x.1.symbol, x.2), e.1 ≤ r.lastStreamId →
    e ∈ (taken (x.1.symbol, x.2)).flatten

omit [LT K] [DecidableLT K] in
theorem NoneBehind.of_settled (h : NoneBehind cfg log table taken) {e : Entry} (he : e ∈ log)
    (hs : Settled cfg table e) : ∀ x ∈ tickOf cfg e, e ∈ (taken (x.1.symbol, x.2)).flatten := by
  intro x hx
  obtain ⟨p, hp, r, hr, hle⟩ := hs
  rw [entryPrice_eq, Option.mem_def.mp hx] at hp
  cases hp
  exact h e he x hx r hr hle

theorem takenIn_empty (cfg : PersisterConfig K) (log : List Entry) :
    TakenIn cfg log .empty (fun _ => []) ∧ NoneBehind cfg log .empty (fun _ => []) := by
  refine ⟨⟨fun _ => rfl, fun _ _ h => by cases h⟩, ?_⟩
  intro e _ x _ r hr
  cases hr

/-- **A commit** adds the batch to the rows it is merged into. -/
theorem takenIn_upsert (h : TakenIn cfg log table taken) (hbehind : NoneBehind cfg log table taken)
    (hm : Carries cfg m es) (hes : ∀ e ∈ es, e ∈ log)
    (hall : ∀ f ∈ es, ∀ e ∈ log, e.1 ≤ f.1 →
      e ∈ es ∨ ∀ x ∈ tickOf cfg e, e ∈ (taken (x.1.symbol, x.2)).flatten)
    (hu : upsertBars cfg.instruments table m.batch = some table') :
    ∃ taken', TakenIn cfg log table' taken' ∧ NoneBehind cfg log table' taken' := by
  have hrow := hm.row_upsert hu
  obtain ⟨taken', hkept, hmore⟩ : ∃ taken' : BarKey → List (List Entry),
      (∀ k, table'.get? k = table.get? k → taken' k = taken k) ∧
        ∀ k, table'.get? k ≠ table.get? k → taken' k = taken k ++ [es] := by
    classical
    exact ⟨fun k => if table'.get? k = table.get? k then taken k else taken k ++ [es],
      fun _ hsame => if_pos hsame, fun _ hnew => if_neg hnew⟩
  refine ⟨taken', ⟨fun k => ?_, fun k e he => ?_⟩, fun e he x hx r hr hle => ?_⟩
  · by_cases hsame : table'.get? k = table.get? k
    · rw [hkept k hsame, hsame]
      exact h.rows k
    · obtain ⟨r, hr, -, b, hb, hbar⟩ := (hrow k).resolve_left hsame
      rw [hmore k hsame, List.map_append, List.map_singleton, rowOf_concat hb, ← h.rows k, hr, Option.map_some, hbar]
  · by_cases hsame : table'.get? k = table.get? k
    · exact h.known k e (hkept k hsame ▸ he)
    · rw [hmore k hsame, List.flatten_append, List.mem_append] at he
      rcases he with he | he
      · exact h.known k e he
      · exact hes e (by simpa using he)
  · by_cases hsame : table'.get? (x.1.symbol, x.2) = table.get? (x.1.symbol, x.2)
    · rw [hkept _ hsame]
      exact hbehind e he x hx r (hsame ▸ hr) hle
    · obtain ⟨r', hr', hid, -⟩ := (hrow _).resolve_left hsame
      rw [Option.mem_def, hr'] at hr
      cases hr
      obtain ⟨f, hf, hfid, -⟩ := hm.top _ _ hid
      rw [hmore _ hsame, List.flatten_append, List.mem_append]
      rcases hall f hf e he (hfid ▸ hle) with hin | htaken
      · exact .inr (by simpa using hin)
      · exact .inl (htaken x hx)

end FxTracker.Worker.Ticks
