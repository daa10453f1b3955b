import FxTracker.Redis.Autoclaim
import FxTracker.Worker.AlertDelivery
import FxTracker.Worker.ExactlyOnce

/-!
# Adopting what dead consumers left

`claim_abandoned` of `fx_worker/persister.py` and of `fx_worker/alerts.py`. Both take page after page
from `XAUTOCLAIM` and stop at the cursor `0-0`, and also at a page without entries, whatever its
cursor.

* `adopts_iff` — a call that returns has claimed everything eligible just where no page without
  entries came with a cursor that something eligible was not before
* `claimAbandoned_adopts_iff` — this of both persisters
-/

namespace FxTracker.Worker

open Redis

abbrev AutoclaimPage := ClaimPage StreamId Fields

/-! ## The loop -/

/-- A call of `claim_abandoned`, with the state `σ` its pages are taken into. -/
inductive Claiming (σ : Type)
  /-- About to claim from `start`. -/
  | calling (state : σ) (total : Nat) (start : Option StreamId)
  | returned (state : σ) (total : Nat)
  /-- An exception escaped. -/
  | raised

variable {K σ : Type}

/-- The loop takes the next page; `consume` is what it does with the entries. -/
def Claiming.receive (consume : σ → List Entry → Option σ) :
    Claiming σ → AutoclaimPage → Option (Claiming σ)
  | .calling state total _, page =>
    if page.entries = [] then some (.returned state total)
    else
      match consume state page.entries with
      | none => some .raised
      | some state =>
        match page.cursor with
        | none => some (.returned state (total + page.entries.length))
        | some next => some (.calling state (total + page.entries.length) (some next))
  | _, _ => none

/-- What a call makes of the pages, up to the last one it asked for. -/
def claimPages (consume : σ → List Entry → Option σ) (state : σ) (pages : List AutoclaimPage) :
    Option (Claiming σ) :=
  Lts.exec (Claiming.receive consume) (.calling state 0 none) pages

section Tick

variable [FloatOps K] [LT K] [DecidableLT K]

/-- The memory of a `Persister`, the table, and what was acknowledged. -/
structure TickClaims (K : Type) where
  memory : Persister K
  table : BarTable K
  acked : List StreamId

/-- A page of `Persister.claim_abandoned`: it is folded in and flushed. -/
def TickClaims.consume (cfg : PersisterConfig K) (s : TickClaims K) (entries : List Entry) :
    Option (TickClaims K) := do
  let memory ← s.memory.ingestAll cfg entries
  if memory.accs.isEmpty then return { s with memory }
  else
    let table ← upsertBars cfg.instruments s.table memory.batch
    return { memory := memory.clearBatch, table, acked := s.acked ++ memory.unacked }

/-- `Persister.claim_abandoned`. -/
def Persister.claimAbandoned (cfg : PersisterConfig K) : TickClaims K → List AutoclaimPage →
    Option (Claiming (TickClaims K)) :=
  claimPages (TickClaims.consume cfg)

end Tick

/-- The table of alerts, and what was acknowledged. -/
structure AlertClaims (K : Type) where
  table : AlertTable K
  acked : List StreamId

/-- A page of `AlertPersister.claim_abandoned`: `_consume`. -/
def AlertClaims.consume (codec : Codec K) (s : AlertClaims K) (entries : List Entry) :
    Option (AlertClaims K) :=
  (flushAlerts s.table (AlertPersister.rowsOf codec entries)).map fun flushed =>
    { table := flushed.table, acked := s.acked ++ entries.map Prod.fst }

/-- `AlertPersister.claim_abandoned`. -/
def AlertPersister.claimAbandoned (codec : Codec K) : AlertClaims K → List AutoclaimPage →
    Option (Claiming (AlertClaims K)) :=
  claimPages (AlertClaims.consume codec)

/-! ## What it adopts -/

/-- Everything eligible was claimed. -/
def Adopted (eligible : List Entry) (pages : List AutoclaimPage) : Prop :=
  ∀ e ∈ eligible, ∃ page ∈ pages, e ∈ page.entries

/-- What is eligible is before the cursor of any page without entries. -/
def BlankLast (eligible : List Entry) (pages : List AutoclaimPage) : Prop :=
  ∀ page ∈ pages, page.entries = [] → ∀ next ∈ page.cursor, ∀ e ∈ eligible, e.1 < next

variable {consume : σ → List Entry → Option σ} {state state' : σ} {total total' : Nat}
  {start : Option StreamId} {pages : List AutoclaimPage} {eligible : List Entry}

/-- **Where a call returns**: at the first page without entries or with the cursor `0-0`. -/
theorem returned_split
    (h : Lts.exec (Claiming.receive consume) (.calling state total start) pages =
      some (.returned state' total')) :
    ∃ init last, pages = init ++ [last] ∧ (last.entries = [] ∨ last.cursor = none) ∧
      ∀ page ∈ init, page.entries ≠ [] ∧ page.cursor ≠ none := by
  have hover : ∀ done : Claiming σ, (∀ s n id, done ≠ .calling s n id) → ∀ pages out,
      Lts.exec (Claiming.receive consume) done pages = some out → pages = [] := by
    intro done hdone pages out hout
    cases pages with
    | nil => rfl
    | cons page pages =>
      cases done with
      | calling s n id => exact absurd rfl (hdone s n id)
      | returned | raised => cases hout
  induction pages generalizing state total start with
  | nil => cases h
  | cons page pages ih =>
    rw [Lts.exec, Claiming.receive] at h
    by_cases hblank : page.entries = []
    · rw [if_pos hblank, Option.bind_some] at h
      rw [hover _ (by simp) pages _ h]
      exact ⟨[], page, rfl, .inl hblank, fun p hp => absurd hp List.not_mem_nil⟩
    · rw [if_neg hblank] at h
      cases hcons : consume state page.entries with
      | none =>
        rw [hcons] at h
        have hnil := hover _ (by simp) pages _ h
        subst hnil
        cases h
      | some state₁ =>
        rw [hcons] at h
        cases hcur : page.cursor with
        | none =>
          rw [hcur] at h
          rw [hover _ (by simp) pages _ h]
          exact ⟨[], page, rfl, .inr hcur, fun p hp => absurd hp List.not_mem_nil⟩
        | some next =>
          rw [hcur] at h
          obtain ⟨init, last, rfl, hlast, hinit⟩ := ih h
          refine ⟨page :: init, last, rfl, hlast, fun p hp => ?_⟩
          rcases List.mem_cons.mp hp with rfl | hp
          · refine ⟨hblank, ?_⟩
            rw [hcur]
            exact Option.some_ne_none next
          · exact hinit p hp

/-- **What a call that returns has adopted.** -/
theorem adopts_iff (hscan : Scan eligible none pages)
    (h : claimPages consume state pages = some (.returned state' total)) :
    Adopted eligible pages ↔ BlankLast eligible pages := by
  obtain ⟨init, last, rfl, hlast, hinit⟩ := returned_split h
  have hcursor : ∀ p ∈ init, p.cursor ≠ none := fun p hp => (hinit p hp).2
  have hmem : last ∈ init ++ [last] := List.mem_append_right _ (List.mem_singleton_self last)
  constructor
  · intro hall page hpage hblank next hnext e he
    obtain ⟨p, hp, hep⟩ := hall e he
    rcases List.mem_append.mp hpage with hpage | hpage
    · exact absurd hblank (hinit page hpage).1
    · rw [List.mem_singleton.mp hpage] at hnext
      exact hscan.lt_cursor hcursor hnext hp hep
  · intro hblank e he
    refine (hscan.claimed_or_le he nofun hcursor).resolve_right ?_
    rintro ⟨next, hnext, hle⟩
    have hempty : last.entries = [] := hlast.resolve_right (by rw [hnext]; nofun)
    exact absurd (hblank last hmem hempty next hnext e he) (not_lt.mpr hle)

/--
**What `claim_abandoned` adopts.**

`eligible` is pending, in the stream and idle enough throughout the call, and the pages are any that
`XAUTOCLAIM` may answer. A call that returns, of either persister, has claimed all of it just where
every page without entries that it was answered came with the cursor `0-0` or one that everything
eligible was before.
-/
theorem claimAbandoned_adopts_iff [FloatOps K] [LT K] [DecidableLT K] (cfg : PersisterConfig K)
    (codec : Codec K) (hscan : Scan eligible none pages) :
    (∀ s s' total, Persister.claimAbandoned cfg s pages = some (.returned s' total) →
      (Adopted eligible pages ↔ BlankLast eligible pages)) ∧
    ∀ s s' total, AlertPersister.claimAbandoned codec s pages = some (.returned s' total) →
      (Adopted eligible pages ↔ BlankLast eligible pages) :=
  ⟨fun _ _ _ h => adopts_iff hscan h, fun _ _ _ h => adopts_iff hscan h⟩

open Ticks in
/-- Two abandoned entries, in the two pages a dead consumer's scan can answer them in. -/
def twoPages : List AutoclaimPage :=
  [⟨some (toLex (5, 1)), [(toLex (5, 0), sampleTick)]⟩, ⟨none, [(toLex (5, 1), sampleTick)]⟩]

open Ticks in
/-- A consumer that died with both of them: the scan of its group answers these pages. -/
theorem scan_twoPages : Scan [(toLex (5, 0), sampleTick), (toLex (5, 1), sampleTick)] none twoPages := by
  have hasc : [(toLex (5, 0), sampleTick), (toLex (5, 1), sampleTick)].Pairwise
      fun e f : Entry => e.1 < f.1 := by decide +kernel
  have hread := fun start =>
    ((Group.ofLog _ hasc).xreadNew () 2).answers_claimable (fun _ => true) start one_pos
  exact ⟨hread none, hread (some (toLex (5, 1))), trivial⟩

open Ticks in
theorem claimAbandoned_adopts_twoPages :
    Adopted [(toLex (5, 0), sampleTick), (toLex (5, 1), sampleTick)] twoPages := by
  refine ((claimAbandoned_adopts_iff sampleConfig sampleCodec scan_twoPages).1
    ⟨.fresh, .empty, []⟩ _ _ rfl).mpr ?_
  unfold BlankLast
  decide

/-- The first entries of the scan were trimmed: the page is blank, and its cursor is the next one. -/
def blankPage : List AutoclaimPage := [⟨some (toLex (5, 1)), []⟩]

open Ticks in
/-- A call that returns with nothing, and leaves an entry that was eligible throughout. -/
theorem blank_page_ends_claim :
    Scan [(toLex (5, 1), sampleTick)] none blankPage ∧
    Persister.claimAbandoned sampleConfig ⟨.fresh, .empty, []⟩ blankPage =
      some (.returned ⟨.fresh, .empty, []⟩ 0) ∧
    AlertPersister.claimAbandoned sampleCodec ⟨.empty, []⟩ blankPage = some (.returned ⟨.empty, []⟩ 0) ∧
    ¬ Adopted [(toLex (5, 1), sampleTick)] blankPage := by
  refine ⟨⟨⟨?_, ?_, nofun⟩, trivial⟩, rfl, rfl, fun h => ?_⟩
  · decide +kernel
  · decide +kernel
  · obtain ⟨page, hpage, hin⟩ := h _ (List.mem_singleton_self _)
    rw [List.mem_singleton.mp hpage] at hin
    cases hin

end FxTracker.Worker
