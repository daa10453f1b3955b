import FxTracker.Worker.Backlog
import FxTracker.Worker.ExactlyOnce

/-!
# The periodic sweep and what is committed

`fx_worker/persister.py`, `run`: the sweep swallows a Redis error, so the memory survives it. After an
`XACK` that fails inside the sweep's `flush` the accumulators still hold what was just committed, and
the next flush adds it again.

One worker acts, from the start of a sweep on; every other consumer is dead, with whatever entries
pending for it. The ledger notes what is committed.

* `Sound.step` — while no Redis error comes out of a sweep's flush, what the loop holds is not committed
* `continues_clean` — so no later flush adds a tick that was committed before
* `unacked_commit_survives` — an `XACK` that fails in the sweep, and the tick that counts twice

`XPENDING` comes last in the sweep and changes nothing: failing or not it leads to the top of the loop.
-/

namespace FxTracker.Worker.Ticks

open Redis Persister

variable {K κ : Type} [FloatOps K] [LT K] [DecidableLT K]
  {cfg : PersisterConfig K} {g : Group StreamId Fields κ} {m m' : Persister K} {e : Entry}
  {es page : List Entry}

/-! ## What the accumulators hold -/

/-- The accumulators count the ticks of these entries, each in its row. -/
def SumsUp (cfg : PersisterConfig K) (m : Persister K) (es : List Entry) : Prop :=
  ∀ k, ((m.accs.get? k).map (·.tickCount)).getD 0 = es.countP fun e => entryRow cfg e.2 = some k

/-- The memory holds these entries of the stream. -/
structure Holding (cfg : PersisterConfig K) (log : List Entry) (m : Persister K) (es : List Entry) :
    Prop where
  unacked : m.unacked = es.map Prod.fst
  logged : ∀ e ∈ es, e ∈ log
  sums : SumsUp cfg m es

/-- No tick of the entries has one of the ids. -/
def Apart (cfg : PersisterConfig K) (es : List Entry) (ids : List StreamId) : Prop :=
  ∀ e ∈ es, (entryRow cfg e.2).isSome → e.1 ∉ ids

omit [LT K] [DecidableLT K] in
theorem sumsUp_nil (h : m.accs = .empty) : SumsUp cfg m [] := fun k => by
  rw [h]
  rfl

omit [LT K] [DecidableLT K] in
theorem holding_nil {log : List Entry} (haccs : m.accs = .empty) (hun : m.unacked = []) :
    Holding cfg log m [] :=
  ⟨hun, fun _ h => (nomatch h), sumsUp_nil haccs⟩

omit [LT K] [DecidableLT K] in
/-- Where no accumulator is left there is no tick in memory. -/
theorem SumsUp.no_tick (h : SumsUp cfg m es) (hempty : m.accs.isEmpty = true) :
    ∀ e ∈ es, entryRow cfg e.2 = none := by
  intro e he
  by_contra hsome
  obtain ⟨k, hk⟩ := Option.ne_none_iff_exists'.mp hsome
  have hnone : m.accs.get? k = none := by
    rw [Dict.get?_eq_none_iff, Dict.keys, Dict.isEmpty_iff.mp hempty]
    exact List.not_mem_nil
  have hcount := h k
  rw [hnone, Option.map_none, Option.getD_none, eq_comm, List.countP_eq_zero] at hcount
  exact hcount e he (decide_eq_true hk)

omit [LT K] [DecidableLT K] in
theorem Apart.of_no_tick (h : ∀ e ∈ es, entryRow cfg e.2 = none) (ids : List StreamId) :
    Apart cfg es ids := by
  intro e he hsome
  rw [h e he] at hsome
  cases hsome

/-- A tick counts once more in its row. -/
theorem tickCount_ingestTick {bs : Int} {id : StreamId} {tick : RawTick K}
    (h : m.ingestTick bs id tick = some m') :
    ∃ bucket, floorToBucket tick.ts bs = some bucket ∧
      ∀ k, ((m'.accs.get? k).map (·.tickCount)).getD 0 =
        ((m.accs.get? k).map (·.tickCount)).getD 0 + if (tick.symbol, bucket) = k then 1 else 0 := by
  obtain ⟨bucket, acc, acc', prev, hbucket, hacc, hadd, haccs, -⟩ := ingestTick_eq_some h
  refine ⟨bucket, hbucket, fun k => ?_⟩
  have hcount : acc'.tickCount = acc.tickCount + 1 := by
    obtain ⟨r, -, rfl⟩ := Option.map_eq_some_iff.mp hadd
    rfl
  have hold : ((m.accs.get? (tick.symbol, bucket)).map (·.tickCount)).getD 0 = acc.tickCount := by
    unfold accFor at hacc
    split at hacc
    · next hget =>
      cases hacc
      rw [hget]
      rfl
    · next hget =>
      obtain ⟨b, -, rfl⟩ := Option.map_eq_some_iff.mp hacc
      rw [hget]
      rfl
  rw [haccs, Dict.get?_set]
  by_cases hk : k = (tick.symbol, bucket)
  · rw [if_pos hk, if_pos hk.symm, hk, hold, Option.map_some, Option.getD_some, hcount]
  · rw [if_neg hk, if_neg (Ne.symm hk), Nat.add_zero]

/-- **Folding an entry in.** -/
theorem SumsUp.ingestEntry (h : SumsUp cfg m es) (hm : m.ingestEntry cfg e = some m') :
    SumsUp cfg m' (es ++ [e]) ∧ m'.unacked = m.unacked := by
  unfold Persister.ingestEntry at hm
  split at hm
  · next tick hparse =>
    obtain ⟨bucket, hbucket, hcount⟩ := tickCount_ingestTick hm
    obtain ⟨-, -, -, -, -, -, -, -, -, hun⟩ := ingestTick_eq_some hm
    refine ⟨fun k => ?_, hun⟩
    rw [hcount, h k, List.countP_append, List.countP_singleton, entryRow_eq_some hparse hbucket]
    simp
  · next hparse =>
    cases hm
    have hrow : entryRow cfg e.2 = none := by
      unfold entryRow entryPrice
      simp [hparse]
    refine ⟨fun k => ?_, rfl⟩
    rw [h k, List.countP_append, List.countP_singleton, hrow]
    simp

/-- **Folding a page in.** -/
theorem Holding.ingestAll {log : List Entry} (h : Holding cfg log m es) (hlog : ∀ e ∈ page, e ∈ log)
    (hm : m.ingestAll cfg page = some m') : Holding cfg log m' (es ++ page) := by
  induction page generalizing m es with
  | nil =>
    cases hm
    rw [List.append_nil]
    exact h
  | cons e page ih =>
    unfold Persister.ingestAll at hm
    obtain ⟨m₁, hm₁, hrest⟩ := Option.bind_eq_some_iff.mp hm
    obtain ⟨hsums, hun⟩ := h.sums.ingestEntry hm₁
    have hnext : Holding cfg log { m₁ with unacked := m₁.unacked ++ [e.1] } (es ++ [e]) := by
      refine ⟨?_, fun f hf => ?_, hsums⟩
      · rw [List.map_append, ← h.unacked, ← hun]
        rfl
      · rcases List.mem_append.mp hf with hf | hf
        · exact h.logged f hf
        · rw [List.mem_singleton.mp hf]
          exact hlog e (List.mem_cons_self ..)
    rw [List.append_cons]
    exact ih hnext (fun f hf => hlog f (List.mem_cons_of_mem _ hf)) hrest

/-! ## The ledger -/

variable [DecidableEq κ]

/-- What a step of the worker commits: the entries its batch is made of. -/
def System.commits (s : System K κ) (c : κ) (cfg : PersisterConfig K) : Act → List StreamId
  | .commit | .commitLost _ =>
    match (s.worker c).phase with
    | .flushing .. =>
      if (upsertBars cfg.instruments s.table (s.worker c).memory.batch).isSome
      then (s.worker c).memory.unacked else []
    | _ => []
  | _ => []

/-- The system, with the ids of the entries that were committed before the run and in it. -/
structure Ledger (K κ : Type) where
  system : System K κ
  before : List StreamId
  since : List StreamId

namespace Ledger

def committed (l : Ledger K κ) : List StreamId := l.before ++ l.since

def step (cfg : PersisterConfig K) (l : Ledger K κ) : Action κ → Option (Ledger K κ)
  | .append id fields => (l.system.step cfg (.append id fields)).map fun system => { l with system }
  | .act c what => (l.system.act c cfg what).map fun system =>
      { l with system, since := l.since ++ l.system.commits c cfg what }

end Ledger

def Phase.isSweepFlush : Phase → Bool
  | .flushing _ sweep | .acking _ sweep => sweep
  | _ => false

/-- The step is a Redis error of the operation the worker awaits. -/
def Act.isRedisError : Act → Bool
  | .ackLost | .fail .redis | .commitLost .redis => true
  | _ => false

/-- Only this worker acts, and no Redis error comes out of the flush of a sweep. PostgreSQL raises
none, so that is one of the `XACK`, after the commit. -/
def SweepAcks (c : κ) (l : Ledger K κ) : Action κ → Prop
  | .append .. => True
  | .act d what => d = c ∧
      ((l.system.worker c).phase.isSweepFlush = true → what.isRedisError = false)

instance (c : κ) (l : Ledger K κ) (a : Action κ) : Decidable (SweepAcks c l a) :=
  match a with
  | .append .. => isTrue trivial
  | .act d what => inferInstanceAs (Decidable (d = c ∧ (_ = true → what.isRedisError = false)))

/-- The runs of the worker from a state on. -/
def Ledger.runs (cfg : PersisterConfig K) (c : κ) (l : Ledger K κ) : Lts (Ledger K κ) (Action κ) :=
  (Lts.ofFn l (Ledger.step cfg)).guard (SweepAcks c)

/-- The accumulators of the worker sum up entries of the stream of which no tick has one of the ids. -/
def System.Clean (s : System K κ) (c : κ) (cfg : PersisterConfig K) (ids : List StreamId) : Prop :=
  ∃ es, Holding cfg s.group.log (s.worker c).memory es ∧ Apart cfg es ids

/-! ## What holds in a run -/

/-- Each of these entries that is pending is so for the worker. -/
def OwnedBy (g : Group StreamId Fields κ) (c : κ) (ids : List StreamId) : Prop :=
  ∀ p ∈ g.pel, p.1.1 ∈ ids → p.2 = c

/-- None of these entries is pending. -/
def Gone (g : Group StreamId Fields κ) (ids : List StreamId) : Prop := ∀ p ∈ g.pel, p.1.1 ∉ ids

/-- What holds of the entries committed in the run where a flush goes on. -/
def Behind (g : Group StreamId Fields κ) (c : κ) (since : List StreamId) : Resume → Prop
  | .drain => OwnedBy g c since
  | _ => Gone g since

/-- What holds of the worker's entries and the committed ones, by where it stands. -/
def Stands (cfg : PersisterConfig K) (g : Group StreamId Fields κ) (c : κ)
    (before since : List StreamId) (es : List Entry) : Phase → Prop
  | .stopped => OwnedBy g c since
  | .drain => OwnedBy g c since ∧ ∀ e ∈ es, entryRow cfg e.2 = none
  | .claim _ false => Gone g since ∧ ∀ e ∈ es, entryRow cfg e.2 = none
  | .claim _ true | .loopTop | .reading | .check | .sweepCheck =>
    Gone g since ∧ Apart cfg es (before ++ since)
  | .flushing resume _ => Behind g c since resume ∧
      (resume = .sweepCheck ∨ resume = .exit → Apart cfg es (before ++ since))
  | .acking .drain _ => OwnedBy g c since
  | .acking _ _ => ∀ p ∈ g.pel, p.1.1 ∈ since → p.1.1 ∈ es.map Prod.fst

def deliveredIds (g : Group StreamId Fields κ) : List StreamId :=
  (g.log.take g.delivered).map Prod.fst

/-- What holds of the worker's entries wherever it stands. The `spent` ones are committed, and
acknowledged for good. -/
structure Carried (cfg : PersisterConfig K) (c : κ) (spent ids : List StreamId)
    (g : Group StreamId Fields κ) (m : Persister K) (es : List Entry) : Prop where
  holding : Holding cfg g.log m es
  delivered : ∀ id ∈ ids ++ spent ++ es.map Prod.fst, id ∈ deliveredIds g
  owned : OwnedBy g c (es.map Prod.fst)
  gone : Gone g spent
  apart : Apart cfg es spent

/-- The invariant of a run. -/
def Sound (cfg : PersisterConfig K) (c : κ) (spent before since : List StreamId) (s : System K κ) :
    Prop :=
  ∃ es, Carried cfg c spent (before ++ since) s.group (s.worker c).memory es ∧
    Stands cfg s.group c before since es (s.worker c).phase

variable {c : κ} {g' : Group StreamId Fields κ} {s t : System K κ} {w : WorkerState K}
  {spent before since ids ids' : List StreamId} {resume : Resume} {sweep : Bool}

section Commands

omit [FloatOps K] [LT K] [DecidableLT K] [DecidableEq κ]

theorem Gone.of_pel (h : Gone g ids) (hpel : ∀ p ∈ g'.pel, ∃ q ∈ g.pel, q.1.1 = p.1.1) : Gone g' ids := by
  intro p hp
  obtain ⟨q, hq, hid⟩ := hpel p hp
  exact hid ▸ h q hq

theorem Gone.owned (h : Gone g ids) (c : κ) : OwnedBy g c ids := fun p hp hid => absurd hid (h p hp)

theorem fresh_notMem_deliveredIds {count : Nat} (he : e ∈ g.fresh count) : e.1 ∉ deliveredIds g := by
  intro hid
  obtain ⟨f, hf, hfe⟩ := List.mem_map.mp hid
  have hasc := g.ascending
  rw [← List.take_append_drop g.delivered g.log] at hasc
  have hlt := (List.pairwise_append.mp hasc).2.2 f hf e (List.mem_of_mem_take he)
  exact absurd hfe (ne_of_lt hlt)

theorem mem_deliveredIds_xreadNew {id : StreamId} (consumer : κ) (count : Nat) :
    id ∈ deliveredIds (g.xreadNew consumer count) ↔
      id ∈ deliveredIds g ∨ id ∈ (g.fresh count).map Prod.fst := by
  have hlog : (g.xreadNew consumer count).log.take (g.xreadNew consumer count).delivered =
      g.log.take g.delivered ++ g.fresh count := g.take_delivered_append_fresh count
  rw [deliveredIds, hlog, List.map_append, List.mem_append, deliveredIds]

theorem mem_pel_xreadNew {p : Entry × κ} {consumer : κ} {count : Nat} :
    p ∈ (g.xreadNew consumer count).pel ↔
      p ∈ g.pel ∨ p.1 ∈ g.fresh count ∧ p.2 = consumer := by
  show p ∈ g.pel ++ (g.fresh count).map (·, consumer) ↔ _
  rw [List.mem_append, List.mem_map]
  refine or_congr_right ⟨?_, ?_⟩
  · rintro ⟨e, he, rfl⟩
    exact ⟨he, rfl⟩
  · rintro ⟨he, rfl⟩
    exact ⟨p.1, he, rfl⟩

/-- A claim hands the entries it names to the claimer. -/
theorem mem_pel_xautoclaim {p : Entry × κ} {consumer : κ} {claimed : List Entry}
    (hp : p ∈ (g.xautoclaim consumer claimed).pel) :
    (p ∈ g.pel ∨ p.2 = consumer ∧ ∃ q ∈ g.pel, q.1 = p.1) ∧
      (p.1.1 ∈ claimed.map Prod.fst → p.2 = consumer) := by
  obtain ⟨q, hq, rfl⟩ := List.mem_map.mp hp
  split
  · exact ⟨.inr ⟨rfl, q, hq, rfl⟩, fun _ => rfl⟩
  · next hne => exact ⟨.inl hq, fun hid => absurd hid hne⟩

theorem Gone.xautoclaim [DecidableEq κ] (h : Gone g ids) (consumer : κ) (claimed : List Entry) :
    Gone (g.xautoclaim consumer claimed) ids :=
  h.of_pel fun p hp => (mem_pel_xautoclaim hp).1.elim (fun hp => ⟨p, hp, rfl⟩)
    fun ⟨_, q, hq, hqp⟩ => ⟨q, hq, congrArg Prod.fst hqp⟩

theorem Gone.xreadNew (h : Gone g ids) (hids : ∀ id ∈ ids, id ∈ deliveredIds g) (consumer : κ)
    (count : Nat) : Gone (g.xreadNew consumer count) ids := by
  intro p hp hid
  rcases mem_pel_xreadNew.mp hp with hp | ⟨hp, -⟩
  · exact h p hp hid
  · exact fresh_notMem_deliveredIds hp (hids _ hid)

end Commands

/-! ### What is in hand -/

section Carried

omit [LT K] [DecidableLT K] [DecidableEq κ]

variable (h : Carried cfg c spent ids g m es)

include h

theorem Carried.clear (haccs : m'.accs = .empty) (hun : m'.unacked = []) :
    Carried cfg c spent ids g m' [] := by
  refine ⟨holding_nil haccs hun, fun id hid => h.delivered id ?_, fun _ _ hid => (nomatch hid), h.gone,
    fun _ he => (nomatch he)⟩
  rw [List.map_nil, List.append_nil] at hid
  exact List.mem_append_left _ hid

theorem Carried.commit : Carried cfg c spent (ids ++ m.unacked) g m es := by
  refine ⟨h.holding, fun id hid => h.delivered id ?_, h.owned, h.gone, h.apart⟩
  rw [h.holding.unacked] at hid
  simp only [List.mem_append] at hid ⊢
  tauto

theorem Carried.xack (acked : List StreamId) : Carried cfg c spent ids (g.xack acked) m es where
  holding := h.holding
  delivered := h.delivered
  owned := fun p hp => h.owned p (Group.mem_pel_xack.mp hp).1
  gone := fun p hp => h.gone p (Group.mem_pel_xack.mp hp).1
  apart := h.apart

theorem Carried.xautoclaim [DecidableEq κ] (claimed : List Entry) :
    Carried cfg c spent ids (g.xautoclaim c claimed) m es where
  holding := h.holding
  delivered := h.delivered
  owned := fun p hp hid => (mem_pel_xautoclaim hp).1.elim (fun hp => h.owned p hp hid) (·.1)
  gone := h.gone.xautoclaim c claimed
  apart := h.apart

theorem Carried.xreadNew (count : Nat) : Carried cfg c spent ids (g.xreadNew c count) m es where
  holding := h.holding
  delivered := fun id hid => (mem_deliveredIds_xreadNew ..).mpr (.inl (h.delivered id hid))
  owned := fun p hp hid => (mem_pel_xreadNew.mp hp).elim (fun hp => h.owned p hp hid) (·.2)
  gone := h.gone.xreadNew
    (fun _ hid => h.delivered _ (List.mem_append_left _ (List.mem_append_right _ hid))) c count
  apart := h.apart

/-- Taking in entries that were pending. -/
theorem Carried.take [LT K] [DecidableLT K] (hpel : ∀ e ∈ page, ∃ p ∈ g.pel, p.1 = e)
    (howned : OwnedBy g c (page.map Prod.fst)) (hm : m.ingestAll cfg page = some m') :
    Carried cfg c spent ids g m' (es ++ page) := by
  have hin : ∀ e ∈ page, e ∈ g.log.take g.delivered := fun e he => by
    obtain ⟨p, hp, rfl⟩ := hpel e he
    exact g.pel_sublist.subset (List.mem_map_of_mem hp)
  refine ⟨h.holding.ingestAll (fun e he => List.mem_of_mem_take (hin e he)) hm, ?_, ?_, h.gone, ?_⟩
  · intro id hid
    rw [List.map_append, ← List.append_assoc, List.mem_append] at hid
    rcases hid with hid | hid
    · exact h.delivered id hid
    · obtain ⟨e, he, rfl⟩ := List.mem_map.mp hid
      exact List.mem_map_of_mem (hin e he)
  · intro p hp hid
    rw [List.map_append, List.mem_append] at hid
    exact hid.elim (h.owned p hp) (howned p hp)
  · intro e he htick
    rcases List.mem_append.mp he with he | he
    · exact h.apart e he htick
    · obtain ⟨p, hp, rfl⟩ := hpel e he
      exact h.gone p hp

end Carried

/-! ### Where a step leads -/

omit [DecidableEq κ] in
theorem Behind.owned (h : Behind g c since resume) : OwnedBy g c since := by
  cases resume with
  | drain => exact h
  | _ => exact Gone.owned h c

omit [LT K] [DecidableLT K] [DecidableEq κ] in
/-- Wherever the worker stands, what was committed in the run and is pending is so for it. -/
theorem Stands.owned {phase : Phase} (h : Stands cfg g c before since es phase)
    (ho : OwnedBy g c (es.map Prod.fst)) : OwnedBy g c since := by
  cases phase with
  | stopped => exact h
  | drain => exact h.1
  | claim start sweep => cases sweep <;> exact h.1.owned c
  | loopTop | reading | check | sweepCheck => exact h.1.owned c
  | flushing resume sweep => exact h.1.owned
  | acking resume sweep =>
    cases resume with
    | drain => exact h
    | _ => exact fun p hp hid => ho p hp (h p hp hid)

section Lead

omit [LT K] [DecidableLT K]

variable (h : Carried cfg c spent (before ++ since) s.group w.memory es)

include h

theorem Carried.put (hs : Stands cfg s.group c before since es w.phase) :
    Sound cfg c spent before since (s.put c w) :=
  ⟨es, by rw [System.worker_put_self]; exact ⟨h, hs⟩⟩

theorem Carried.leave (ho : OwnedBy s.group c since) :
    Sound cfg c spent before since (s.leave c w w.memory) := by
  have hput := Carried.put (w := { w with phase := .stopped }) h ho
  exact hput

theorem Carried.leave_fresh (ho : OwnedBy s.group c since) :
    Sound cfg c spent before since (s.leave c w .fresh) := by
  have hput := Carried.put (w := { w with phase := .stopped, memory := .fresh }) (h.clear rfl rfl) ho
  exact hput

theorem Carried.goOn (hb : Behind s.group c since resume) (hn : ∀ e ∈ es, entryRow cfg e.2 = none) :
    Sound cfg c spent before since (s.goOn c w resume) := by
  have hput : ∀ phase, Stands cfg s.group c before since es phase →
      Sound cfg c spent before since (s.put c { w with phase }) := fun phase hs =>
    Carried.put (w := { w with phase }) h hs
  cases resume with
  | drain => exact hput _ ⟨hb, hn⟩
  | claim next sweep =>
    cases sweep with
    | false => exact hput _ ⟨hb, hn⟩
    | true => exact hput _ ⟨hb, .of_no_tick hn _⟩
  | loop | sweepCheck => exact hput _ ⟨hb, .of_no_tick hn _⟩
  | exit => exact h.leave_fresh (Gone.owned hb c)

theorem Carried.beginFlush (hb : Behind s.group c since resume)
    (ha : resume = .sweepCheck ∨ resume = .exit → Apart cfg es (before ++ since)) (sweep : Bool) :
    Sound cfg c spent before since (s.beginFlush c w resume sweep) := by
  unfold System.beginFlush
  split
  · next hempty => exact h.goOn hb (h.holding.sums.no_tick hempty)
  · exact Carried.put (w := { w with phase := .flushing resume sweep }) h ⟨hb, ha⟩

theorem Carried.receive [LT K] [DecidableLT K] (hpel : ∀ e ∈ page, ∃ p ∈ s.group.pel, p.1 = e)
    (howned : OwnedBy s.group c (page.map Prod.fst)) (hb : Behind s.group c since resume)
    (hpage : ¬ (resume = .sweepCheck ∨ resume = .exit)) (sweep : Bool) :
    Sound cfg c spent before since (s.receive c w cfg page resume sweep) := by
  unfold System.receive
  split
  · next memory hm =>
    exact Carried.beginFlush (w := { w with memory }) (h.take hpel howned hm) hb
      (fun hr => absurd hr hpage) sweep
  · exact h.leave_fresh hb.owned

theorem Carried.failed (ho : OwnedBy s.group c since) {failure : Failure}
    (hne : failure = .redis → sweep = false) :
    Sound cfg c spent before since (s.failed c w sweep failure) := by
  cases failure with
  | redis =>
    rw [hne rfl]
    exact h.leave ho
  | os => exact h.leave ho
  | other => exact h.leave_fresh ho

end Lead

/-! ### The steps -/

omit [FloatOps K] [LT K] [DecidableLT K] in
theorem mem_pel_of_mem_xreadPending {count : Nat} (he : e ∈ g.xreadPending c count) :
    ∃ p ∈ g.pel, p.1 = e ∧ p.2 = c := by
  obtain ⟨p, hp, rfl⟩ := List.mem_map.mp (List.mem_of_mem_take he)
  obtain ⟨hp, hc⟩ := List.mem_filter.mp hp
  exact ⟨p, hp, rfl, of_decide_eq_true hc⟩

/-- A page of the worker's own entries, or the first without any. -/
theorem Sound.act_readPending (h : Sound cfg c spent before since s)
    (ht : s.act c cfg .readPending = some t) : Sound cfg c spent before since t := by
  obtain ⟨es, hc, hs⟩ := h
  have ho : OwnedBy s.group c since := hs.owned hc.owned
  cases takes_of_act ht with
  | drained hdrain hnil =>
    rw [hdrain] at hs
    have hnone := (Group.xreadPending_eq_nil_iff cfg.flushMaxRows_pos).mp hnil
    refine Carried.put (w := { s.worker c with phase := .claim none false }) hc
      ⟨fun p hp hid => ?_, hs.2⟩
    have hmem : p.1 ∈ s.group.pendingOf c :=
      List.mem_map_of_mem (List.mem_filter.mpr ⟨hp, decide_eq_true (ho p hp hid)⟩)
    rw [hnone] at hmem
    cases hmem
  | readPending hdrain =>
    rw [hdrain] at hs
    refine hc.receive (fun e he => ?_) (fun p hp hid => ?_)
      (show Behind s.group c since .drain from hs.1) (by simp) false
    · obtain ⟨p, hp, hpe, -⟩ := mem_pel_of_mem_xreadPending he
      exact ⟨p, hp, hpe⟩
    · obtain ⟨e, he, hid⟩ := List.mem_map.mp hid
      obtain ⟨q, hq, rfl, hqc⟩ := mem_pel_of_mem_xreadPending he
      rw [← Group.eq_of_mem_pel hq hp hid]
      exact hqc

/-- A page of a dead worker's entries, or the first without any. -/
theorem Sound.act_claim (h : Sound cfg c spent before since s) {idle : StreamId → Bool}
    (ht : s.act c cfg (.claim idle) = some t) : Sound cfg c spent before since t := by
  obtain ⟨es, hc, hs⟩ := h
  have hgone : ∀ {start sweep}, (s.worker c).phase = .claim start sweep → Gone s.group since := by
    intro start sweep hclaim
    rw [hclaim] at hs
    cases sweep <;> exact hs.1
  cases takes_of_act ht with
  | @claimed idle start next sweep hclaim =>
    have hapart : Apart cfg es (before ++ since) := by
      rw [hclaim] at hs
      cases sweep with
      | false => exact .of_no_tick hs.2 _
      | true => exact hs.2
    exact Carried.put (s := { s with group := s.group.xautoclaim c [] })
      (w := { s.worker c with phase := .loopTop }) (hc.xautoclaim [])
      ⟨(hgone hclaim).xautoclaim c [], hapart⟩
  | @claim idle start next sweep page hclaim hpage =>
    have hgone' := (hgone hclaim).xautoclaim c page
    refine Carried.receive (s := { s with group := s.group.xautoclaim c page }) (hc.xautoclaim page)
      (fun e he => ?_) (fun p hp hid => (mem_pel_xautoclaim hp).2 hid) ?_ ?_ sweep
    · have hin : e ∈ (s.group.claimable (fun id => !sweep || idle id) start cfg.flushMaxRows).1 := by
        rw [hpage]
        exact he
      obtain ⟨p, hp, rfl⟩ := List.mem_map.mp (Group.mem_of_mem_claimScan hin)
      have hmem : p.1 ∈ (s.group.xautoclaim c page).pel.map Prod.fst := by
        rw [Group.map_fst_pel_xautoclaim]
        exact List.mem_map_of_mem (List.mem_of_mem_filter hp)
      exact List.mem_map.mp hmem
    · cases next <;> exact hgone'
    · cases next <;> simp [Resume.after]

/-- A page of new entries. None of them was delivered before. -/
theorem Sound.act_read (h : Sound cfg c spent before since s) {count : Nat}
    (ht : s.act c cfg (.read count) = some t) : Sound cfg c spent before since t := by
  obtain ⟨es, hc, hs⟩ := h
  have hc' := hc.xreadNew count
  have hgone : (s.worker c).phase = .reading → Gone (s.group.xreadNew c count) since := by
    intro hread
    rw [hread] at hs
    exact hs.1.xreadNew (fun id hid => hc.delivered id (by simp [hid])) c count
  cases takes_of_act ht with
  | @read count memory hread hcount hm =>
    have hpel : ∀ e ∈ s.group.fresh count, ∃ p ∈ (s.group.xreadNew c count).pel, p.1 = e :=
      fun e he => ⟨(e, c), mem_pel_xreadNew.mpr (.inr ⟨he, rfl⟩), rfl⟩
    have howned : OwnedBy (s.group.xreadNew c count) c ((s.group.fresh count).map Prod.fst) := by
      intro p hp hid
      rcases mem_pel_xreadNew.mp hp with hp | ⟨-, hp⟩
      · obtain ⟨e, he, hid⟩ := List.mem_map.mp hid
        refine absurd ?_ (fresh_notMem_deliveredIds he)
        rw [hid]
        exact List.mem_map_of_mem (s.group.pel_sublist.subset (List.mem_map_of_mem hp))
      · exact hp
    refine Carried.put (s := { s with group := s.group.xreadNew c count })
      (w := { s.worker c with phase := .check, memory }) (hc'.take hpel howned hm)
      ⟨hgone hread, fun e he htick => ?_⟩
    rcases List.mem_append.mp he with he | he
    · rw [hread] at hs
      exact hs.2 e he htick
    · intro hid
      exact fresh_notMem_deliveredIds he
        (hc.delivered _ (List.mem_append_left _ (List.mem_append_left _ hid)))
  | readRaises hread =>
    exact Carried.leave_fresh (s := { s with group := s.group.xreadNew c count }) hc'
      ((hgone hread).owned c)

/-- A step outside `flush`. -/
theorem Sound.act_quiet (h : Sound cfg c spent before since s) {what : Act}
    (hphase : (s.worker c).phase.isFlushing = false ∧ (s.worker c).phase.isAcking = false)
    (ht : s.act c cfg what = some t) : Sound cfg c spent before since t := by
  have hsound := h
  obtain ⟨es, hc, hs⟩ := h
  have ho : OwnedBy s.group c since := hs.owned hc.owned
  have hput : ∀ phase, Stands cfg s.group c before since es phase →
      Sound cfg c spent before since (s.put c { s.worker c with phase }) := fun phase hs =>
    Carried.put (w := { s.worker c with phase }) hc hs
  cases takes_of_act ht with
  | acquire =>
    exact Carried.put (s := { s with lease := some c })
      (w := { phase := .drain, memory := (s.worker c).memory.clear, lost := false })
      (hc.clear rfl rfl) ⟨ho, fun _ he => (nomatch he)⟩
  | lose => exact Carried.put (s := { s with lease := none }) (w := { s.worker c with lost := true }) hc hs
  | drained | readPending => exact hsound.act_readPending ht
  | claimed | claim => exact hsound.act_claim ht
  | lost => exact hc.leave ho
  | top hloop =>
    rw [hloop] at hs
    exact hput _ hs
  | stop hloop =>
    rw [hloop] at hs
    exact hc.beginFlush (show Behind s.group c since .exit from hs.1) (fun _ => hs.2) false
  | read | readRaises => exact hsound.act_read ht
  | due hcheck =>
    rw [hcheck] at hs
    exact hc.beginFlush (show Behind s.group c since .sweepCheck from hs.1) (fun _ => hs.2) false
  | notDue hcheck =>
    rw [hcheck] at hs
    exact hput _ hs
  | @sweepCheck due hcheck =>
    rw [hcheck] at hs
    cases due <;> exact hput _ hs
  | commit hflushing | commitRaises hflushing | commitLost hflushing =>
    rw [hflushing] at hphase
    cases hphase.1
  | ack hacking | ackLost hacking =>
    rw [hacking] at hphase
    cases hphase.2
  | @fail failure =>
    cases hp : (s.worker c).phase with
    | claim start sweep =>
      rw [hp] at hs
      cases sweep with
      | false => exact hc.failed ho fun _ => rfl
      | true =>
        cases failure with
        | redis => exact hput _ hs
        | os => exact hc.leave ho
        | other => exact hc.leave_fresh ho
    | flushing =>
      rw [hp] at hphase
      cases hphase.1
    | acking =>
      rw [hp] at hphase
      cases hphase.2
    | _ => exact hc.failed ho fun _ => rfl
  | crash => exact hc.leave_fresh ho

omit [LT K] [DecidableLT K] in
theorem Sound.lose (h : Sound cfg c spent before since s) :
    Sound cfg c spent before since
      ({ s with lease := none }.put c { s.worker c with lost := true }) := by
  obtain ⟨es, hc, hs⟩ := h
  exact Carried.put (s := { s with lease := none }) (w := { s.worker c with lost := true }) hc hs

/-- A step before the commit, or the commit. -/
theorem Sound.act_flushing (h : Sound cfg c spent before since s) {what : Act}
    (hphase : (s.worker c).phase = .flushing resume sweep)
    (hredis : sweep = true → what.isRedisError = false) (ht : s.act c cfg what = some t) :
    Sound cfg c spent before (since ++ s.commits c cfg what) t := by
  have hlose := h.lose
  obtain ⟨es, hc, hs⟩ := h
  have ho : OwnedBy s.group c since := hs.owned hc.owned
  rw [hphase] at hs
  -- no Redis error comes out of a sweep's flush
  have hnever : ∀ failure, (sweep = true → (Act.fail failure).isRedisError = false) →
      failure = .redis → sweep = false := by
    rintro failure hok rfl
    cases sweep with
    | false => rfl
    | true => cases hok rfl
  have hcommitted : Carried cfg c spent (before ++ (since ++ (s.worker c).memory.unacked)) s.group
      (s.worker c).memory es := by
    rw [← List.append_assoc]
    exact hc.commit
  have howned : OwnedBy s.group c (since ++ (s.worker c).memory.unacked) := by
    intro p hp hid
    rw [hc.holding.unacked] at hid
    exact (List.mem_append.mp hid).elim (ho p hp) (hc.owned p hp)
  cases what with
  | commit =>
    rw [System.act, hphase] at ht
    dsimp only at ht
    rw [System.commits, hphase]
    dsimp only
    split at ht <;> cases ht
    · next table hu =>
      rw [hu]
      refine Carried.put (s := { s with table })
        (w := { s.worker c with phase := .acking resume sweep }) hcommitted ?_
      -- of what is pending, only the batch is committed
      have hwithin : ∀ resume, Behind s.group c since resume → resume ≠ .drain → ∀ p ∈ s.group.pel,
          p.1.1 ∈ since ++ (s.worker c).memory.unacked → p.1.1 ∈ es.map Prod.fst := by
        intro resume hb hne p hp hid
        rw [hc.holding.unacked] at hid
        refine (List.mem_append.mp hid).resolve_left ?_
        cases resume with
        | drain => exact absurd rfl hne
        | _ => exact hb p hp
      cases resume with
      | drain => exact howned
      | _ =>
        refine hwithin _ hs.1 ?_
        intro hdrain
        cases hdrain
    · next hu =>
      rw [hu, Option.isSome_none, if_neg Bool.false_ne_true, List.append_nil]
      exact hc.leave_fresh ho
  | commitLost failure =>
    rw [System.act, hphase] at ht
    obtain ⟨table, hu, rfl⟩ := Option.map_eq_some_iff.mp ht
    rw [System.commits, hphase]
    dsimp only
    rw [hu]
    refine Carried.failed (s := { s with table }) hcommitted howned (hnever failure fun hsweep => ?_)
    have hok := hredis hsweep
    cases failure <;> first | rfl | cases hok
  | fail failure =>
    rw [System.act, hphase] at ht
    cases ht
    show Sound cfg c spent before (since ++ []) _
    rw [List.append_nil]
    exact hc.failed ho (hnever failure hredis)
  | crash =>
    cases ht
    show Sound cfg c spent before (since ++ []) _
    rw [List.append_nil]
    exact hc.leave_fresh ho
  | lose =>
    rw [System.act] at ht
    split at ht <;> cases ht
    show Sound cfg c spent before (since ++ []) _
    rw [List.append_nil]
    exact hlose
  | _ =>
    rw [System.act, hphase] at ht
    cases ht

/-- A step after the commit, or the `XACK`. -/
theorem Sound.act_acking (h : Sound cfg c spent before since s) {what : Act}
    (hphase : (s.worker c).phase = .acking resume sweep)
    (hredis : sweep = true → what.isRedisError = false) (ht : s.act c cfg what = some t) :
    Sound cfg c spent before since t := by
  have hlose := h.lose
  obtain ⟨es, hc, hs⟩ := h
  have ho : OwnedBy s.group c since := hs.owned hc.owned
  rw [hphase] at hs
  -- what the `XACK` leaves pending is not of the batch
  have hacked : ∀ p ∈ (s.group.xack (s.worker c).memory.unacked).pel, p ∈ s.group.pel ∧
      p.1.1 ∉ es.map Prod.fst := fun p hp => by
    rw [← hc.holding.unacked]
    exact Group.mem_pel_xack.mp hp
  cases what with
  | ack =>
    rw [System.act, hphase] at ht
    cases ht
    refine Carried.goOn (s := { s with group := s.group.xack (s.worker c).memory.unacked })
      (w := { s.worker c with memory := (s.worker c).memory.clearBatch })
      ((hc.xack _).clear rfl rfl) ?_ fun _ he => ?_
    · cases resume with
      | drain => exact fun p hp => hs p (hacked p hp).1
      | _ => exact fun p hp hid => (hacked p hp).2 (hs p (hacked p hp).1 hid)
    · cases he
  | ackLost =>
    rw [System.act, hphase] at ht
    cases ht
    refine Carried.failed (s := { s with group := s.group.xack (s.worker c).memory.unacked })
      (hc.xack _) (fun p hp => ho p (hacked p hp).1) fun _ => ?_
    cases sweep with
    | false => rfl
    | true => cases hredis rfl
  | fail failure =>
    rw [System.act, hphase] at ht
    cases ht
    refine hc.failed ho ?_
    rintro rfl
    cases sweep with
    | false => rfl
    | true => cases hredis rfl
  | crash =>
    cases ht
    exact hc.leave_fresh ho
  | lose =>
    rw [System.act] at ht
    split at ht <;> cases ht
    exact hlose
  | _ =>
    rw [System.act, hphase] at ht
    cases ht

omit [DecidableEq κ] in
theorem commits_of_not_flushing (h : (s.worker c).phase.isFlushing = false) (what : Act) :
    s.commits c cfg what = [] := by
  have hnone : (match (s.worker c).phase with
      | .flushing .. =>
        if (upsertBars cfg.instruments s.table (s.worker c).memory.batch).isSome
        then (s.worker c).memory.unacked else []
      | _ => ([] : List StreamId)) = [] := by
    split
    · next hphase =>
      rw [hphase] at h
      cases h
    · rfl
  cases what with
  | commit | commitLost failure => exact hnone
  | _ => rfl

omit [LT K] [DecidableLT K] [DecidableEq κ] in
/-- An append is no business of the worker's. -/
theorem Sound.append (h : Sound cfg c spent before since s) {id : StreamId} {fields : Fields}
    (hg : s.group.xadd id fields = some g) : Sound cfg c spent before since { s with group := g } := by
  obtain ⟨es, hc, hs⟩ := h
  obtain ⟨hlog, hdel, hpel⟩ := Group.xadd_eq_some hg
  have hids : deliveredIds g = deliveredIds s.group := by
    rw [deliveredIds, deliveredIds, hlog, hdel, List.take_append_of_le_length s.group.delivered_le]
  have hout : ∀ ids, OwnedBy s.group c ids → OwnedBy g c ids := fun ids ho p hp => ho p (hpel ▸ hp)
  have hgone : ∀ ids, Gone s.group ids → Gone g ids := fun ids ho p hp => ho p (hpel ▸ hp)
  refine ⟨es, ⟨⟨hc.holding.unacked, fun e he => ?_, hc.holding.sums⟩, fun id hid => ?_,
    hout _ hc.owned, hgone _ hc.gone, hc.apart⟩, ?_⟩
  · show e ∈ g.log
    rw [hlog]
    exact List.mem_append_left _ (hc.holding.logged e he)
  · show id ∈ deliveredIds g
    rw [hids]
    exact hc.delivered id hid
  · show Stands cfg g c before since es (s.worker c).phase
    generalize (s.worker c).phase = phase at hs
    cases phase with
    | stopped => exact hout _ hs
    | drain => exact ⟨hout _ hs.1, hs.2⟩
    | claim start sweep => cases sweep <;> exact ⟨hgone _ hs.1, hs.2⟩
    | loopTop | reading | check | sweepCheck => exact ⟨hgone _ hs.1, hs.2⟩
    | flushing resume sweep =>
      refine ⟨?_, hs.2⟩
      cases resume with
      | drain => exact hout _ hs.1
      | _ => exact hgone _ hs.1
    | acking resume sweep =>
      cases resume with
      | drain => exact hout _ hs
      | _ => exact fun p hp => hs p (hpel ▸ hp)

/-- **A step of a run** keeps the invariant. -/
theorem Sound.step {l l' : Ledger K κ} (h : Sound cfg c spent l.before l.since l.system)
    {a : Action κ} (hok : SweepAcks c l a) (hl : l.step cfg a = some l') :
    l'.before = l.before ∧ Sound cfg c spent l'.before l'.since l'.system := by
  cases a with
  | append id fields =>
    obtain ⟨t, ht, rfl⟩ := Option.map_eq_some_iff.mp hl
    obtain ⟨g, hg, rfl⟩ := Option.map_eq_some_iff.mp ht
    exact ⟨rfl, h.append hg⟩
  | act d what =>
    obtain ⟨rfl, hredis⟩ := hok
    obtain ⟨t, ht, rfl⟩ := Option.map_eq_some_iff.mp hl
    refine ⟨rfl, ?_⟩
    dsimp only
    by_cases hflushing : (l.system.worker d).phase.isFlushing = true
    · cases hphase : (l.system.worker d).phase with
      | flushing resume sweep =>
        rw [hphase] at hredis
        exact h.act_flushing hphase hredis ht
      | _ =>
        rw [hphase] at hflushing
        cases hflushing
    · rw [Bool.not_eq_true] at hflushing
      rw [commits_of_not_flushing hflushing, List.append_nil]
      by_cases hacking : (l.system.worker d).phase.isAcking = true
      · cases hphase : (l.system.worker d).phase with
        | acking resume sweep =>
          rw [hphase] at hredis
          exact h.act_acking hphase hredis ht
        | _ =>
          rw [hphase] at hacking
          cases hacking
      · exact h.act_quiet ⟨hflushing, by simpa using hacking⟩ ht

/-- **Every state of a run.** -/
theorem Sound.reachable {l l' : Ledger K κ} (h : Sound cfg c spent l.before l.since l.system)
    (hr : (l.runs cfg c).Reachable l') :
    l'.before = l.before ∧ Sound cfg c spent l'.before l'.since l'.system := by
  induction hr with
  | init hl =>
    rw [show _ = l from hl]
    exact ⟨rfl, h⟩
  | step _ hstep ih =>
    obtain ⟨hb, hs⟩ := ih
    obtain ⟨hb', hs'⟩ := hs.step hstep.2 hstep.1
    exact ⟨hb'.trans hb, hs'⟩

/-! ## What the loop goes on with -/

/-- At the start of a sweep. What the worker holds is delivered and not committed, and what of it is
pending is so for the worker. -/
structure SweepStart (cfg : PersisterConfig K) (c : κ) (l : Ledger K κ) : Prop where
  phase : (l.system.worker c).phase = .claim none true
  since : l.since = []
  clean : l.system.Clean c cfg l.before
  delivered : ∀ id ∈ l.before ++ (l.system.worker c).memory.unacked, id ∈ deliveredIds l.system.group
  owned : OwnedBy l.system.group c (l.system.worker c).memory.unacked

/-- What is committed, but for what was so before the sweep and a dead consumer did not acknowledge. -/
def Ledger.retired (l : Ledger K κ) : List StreamId :=
  l.committed.filter fun id => id ∈ l.since ∨ id ∉ l.system.group.pel.map (·.1.1)

/-- In the loop, outside `flush`. -/
def Phase.inLoop : Phase → Bool
  | .claim _ sweep => sweep
  | .loopTop | .reading | .check | .sweepCheck => true
  | _ => false

omit [LT K] [DecidableLT K] [DecidableEq κ] in
theorem SweepStart.sound {l : Ledger K κ} (h : SweepStart cfg c l) :
    Sound cfg c [] l.before l.since l.system := by
  obtain ⟨es, hold, hapart⟩ := h.clean
  have hids : (l.system.worker c).memory.unacked = es.map Prod.fst := hold.unacked
  have hdel := h.delivered
  have howned := h.owned
  rw [hids] at hdel howned
  refine ⟨es, ⟨hold, ?_, howned, fun _ _ hid => (nomatch hid), fun _ _ _ hid => (nomatch hid)⟩, ?_⟩
  · rw [h.since, List.append_nil, List.append_nil]
    exact hdel
  · rw [h.phase, h.since]
    refine ⟨fun _ _ hid => (nomatch hid), ?_⟩
    rw [List.append_nil]
    exact hapart

omit [LT K] [DecidableLT K] [DecidableEq κ] in
theorem Stands.of_inLoop {phase : Phase} (h : Stands cfg g c before since es phase)
    (hloop : phase.inLoop = true) : Gone g since ∧ Apart cfg es (before ++ since) := by
  cases phase with
  | claim start sweep =>
    cases sweep with
    | false => cases hloop
    | true => exact h
  | loopTop | reading | check | sweepCheck => exact h
  | _ => cases hloop

omit [LT K] [DecidableLT K] [DecidableEq κ] in
/-- In the loop, what is committed is spent, but for what a dead consumer did not acknowledge. -/
theorem Sound.spend {l : Ledger K κ} (h : Sound cfg c [] l.before l.since l.system)
    (hloop : (l.system.worker c).phase.inLoop = true) :
    l.system.Clean c cfg l.committed ∧ Sound cfg c l.retired l.before l.since l.system := by
  obtain ⟨es, hc, hs⟩ := h
  obtain ⟨hgone, hapart⟩ := hs.of_inLoop hloop
  have hspent : ∀ id ∈ l.retired, id ∈ l.before ++ l.since := fun id hid => List.mem_of_mem_filter hid
  refine ⟨⟨es, hc.holding, hapart⟩, es, ⟨hc.holding, fun id hid => hc.delivered id ?_, hc.owned,
    fun p hp hid => ?_, fun e he htick hid => hapart e he htick (hspent _ hid)⟩, hs⟩
  · simp only [List.mem_append] at hid hspent ⊢
    rcases hid with (hid | hid) | hid
    · exact .inl (.inl hid)
    · exact .inl (.inl (hspent id hid))
    · exact .inr hid
  · rcases of_decide_eq_true (List.mem_filter.mp hid).2 with hid | hid
    · exact hgone p hp hid
    · exact hid (List.mem_map_of_mem hp)

/--
**The sweep and what is committed.**

From any start of a sweep on, with whatever the worker holds unflushed and whatever is pending for
dead consumers, while no Redis error comes out of the flush of a sweep: in every state the loop goes
on in, after a sweep that fails or not, the accumulators hold no committed tick. What is committed
there, by this worker or acknowledged, is in memory in no later state, so that no later flush adds it.
-/
theorem continues_clean (cfg : PersisterConfig K) {l₀ l : Ledger K κ} (h₀ : SweepStart cfg c l₀)
    (hr : (l₀.runs cfg c).Reachable l) (hloop : (l.system.worker c).phase.inLoop = true) :
    l.system.Clean c cfg l.committed ∧
    ∀ l', (l.runs cfg c).Reachable l' → l'.system.Clean c cfg l.retired := by
  obtain ⟨hclean, hsound⟩ := (h₀.sound.reachable hr).2.spend hloop
  refine ⟨hclean, fun l' hr' => ?_⟩
  obtain ⟨es, hc, -⟩ := (hsound.reachable hr').2
  exact ⟨es, hc.holding, hc.apart⟩

/-- One tick in the worker's memory, and one in the hands of a dead consumer. -/
def twoTicks : List Entry := [(toLex (5, 0), sampleTick), (toLex (5, 1), sampleTick)]

def sweepStart : Ledger Int Bool where
  system :=
    { group := ((Group.ofLog twoTicks (by decide)).xreadNew false 1).xreadNew true 1
      table := .empty
      lease := some false
      worker := fun c =>
        if c then ⟨.stopped, .fresh, false⟩
        else ⟨.claim none true,
          ((Persister.fresh : Persister Int).ingestAll sampleConfig (twoTicks.take 1)).getD .fresh, false⟩ }
  before := []
  since := []

theorem sweepStart_start : SweepStart sampleConfig false sweepStart where
  phase := rfl
  since := rfl
  clean := by
    have hfold : (Persister.fresh : Persister Int).ingestAll sampleConfig (twoTicks.take 1) =
        some (sweepStart.system.worker false).memory := by
      refine (Option.some_get (show _ = true from ?_)).symm
      decide +kernel
    refine ⟨twoTicks.take 1, ?_, fun _ _ _ hid => (nomatch hid)⟩
    have hlog : ∀ e ∈ twoTicks.take 1, e ∈ sweepStart.system.group.log := fun e he =>
      List.mem_of_mem_take he
    have hfresh : Holding sampleConfig sweepStart.system.group.log .fresh [] := holding_nil rfl rfl
    exact hfresh.ingestAll hlog hfold
  delivered := by decide +kernel
  owned := by
    unfold OwnedBy
    decide +kernel

/-- A sweep that takes the dead consumer's tick in, and the next one, whose `XAUTOCLAIM` fails. -/
def sweepTwice : List (Action Bool) :=
  [.act false (.claim (toLex (5, 1) = ·)), .act false .commit, .act false .ack, .act false .top,
    .act false (.read 5), .act false (.check false), .act false (.sweepCheck true),
    .act false (.fail .redis)]

theorem continues_clean_sweepTwice :
    ∃ l, Lts.exec (Ledger.step sampleConfig) sweepStart sweepTwice = some l ∧
      l.committed = [toLex (5, 0), toLex (5, 1)] ∧ l.system.Clean false sampleConfig l.committed := by
  have hmeets : Lts.Meets (Ledger.step sampleConfig) (SweepAcks false) sweepStart sweepTwice := by
    decide +kernel
  have hr : ∀ l, Lts.exec (Ledger.step sampleConfig) sweepStart sweepTwice = some l →
      (sweepStart.runs sampleConfig false).Reachable l := fun l hl =>
    Lts.reachable_of_meets (.init rfl) hmeets hl
  exact ⟨_, rfl, rfl, (continues_clean sampleConfig sweepStart_start (hr _ rfl) rfl).1⟩

/-- A sweep that takes the dead consumer's tick in, and whose `XACK` fails. -/
def unackedSweep : List (Action Bool) :=
  [.act false (.claim (toLex (5, 1) = ·)), .act false .commit, .act false (.fail .redis)]

/-- One more tick, and the next flush. -/
def nextFlush : List (Action Bool) :=
  [.append (toLex (5, 2)) sampleTick, .act false .top, .act false (.read 5), .act false (.check true),
    .act false .commit]

/-- The loop goes on with two ticks in memory that are committed, and adds them again. -/
theorem unacked_commit_survives :
    ∃ l l', SweepStart sampleConfig false sweepStart ∧
      Lts.exec (Ledger.step sampleConfig) sweepStart unackedSweep = some l ∧
      (l.system.worker false).phase = .loopTop ∧ ¬ l.system.Clean false sampleConfig l.committed ∧
      Lts.exec (Ledger.step sampleConfig) l nextFlush = some l' ∧
      l'.system.group.log.length = 3 ∧ l'.system.table.values.map (·.tickCount) = [5] := by
  refine ⟨_, _, sweepStart_start, rfl, rfl, ?_, rfl, rfl, rfl⟩
  rintro ⟨es, hold, hapart⟩
  have hids : [toLex (5, 0), toLex (5, 1)] = es.map Prod.fst := hold.unacked
  have hfirst : toLex (5, 0) ∈ es.map Prod.fst := hids ▸ List.mem_cons_self ..
  obtain ⟨e, he, hid⟩ := List.mem_map.mp hfirst
  have htick : ∀ e ∈ twoTicks, (entryRow sampleConfig e.2).isSome := by decide
  refine hapart e he (htick e (hold.logged e he)) ?_
  rw [hid]
  exact List.mem_cons_self ..

end FxTracker.Worker.Ticks
