import FxTracker.Redis.Trim
import FxTracker.Worker.Loop
import Mathlib.Data.Fintype.Defs

/-!
# The rows the persisters can still write

A persister writes a row because of an entry: one a read can still answer, or one it has folded in.

* `Confined.act` — while all of these belong to rows with a property, a step keeps it so, and changes
  no other row
-/

namespace FxTracker.Worker

variable {K : Type} {cfg : PersisterConfig K} {P Q : BarKey → Prop}

section Row

variable [FloatOps K]

/-- The row an entry counts in; none if it does not parse or has no bucket. -/
def entryRow (cfg : PersisterConfig K) (fields : Fields) : Option BarKey :=
  (entryPrice cfg fields).map Prod.fst

theorem entryRow_empty (cfg : PersisterConfig K) : entryRow cfg .empty = none := rfl

theorem entryRow_eq_some {fields : Fields} {tick : RawTick K} {bucket : Int}
    (hparse : parseTick cfg.codec fields = some tick)
    (hbucket : floorToBucket tick.ts cfg.bucketSeconds = some bucket) :
    entryRow cfg fields = some (tick.symbol, bucket) := by
  unfold entryRow entryPrice
  simp [hparse, hbucket]

end Row

namespace Persister

variable {m m' : Persister K}

/-- Every accumulator is of its row, and of a row with the property. -/
def Confined (P : BarKey → Prop) (m : Persister K) : Prop :=
  ∀ k acc, m.accs.get? k = some acc → (acc.symbol, acc.bucket) = k ∧ P k

theorem confined_empty (P : BarKey → Prop) (h : m.accs = .empty) : m.Confined P := by
  intro k acc hacc
  rw [h] at hacc
  cases hacc

variable [FloatOps K]

/-- The accumulator a tick goes to is of the tick's row. -/
theorem Confined.accFor (h : m.Confined P) {tick : RawTick K} {bucket bs : Int}
    (hbucket : floorToBucket tick.ts bs = some bucket) {acc : BucketAccumulator K}
    (hacc : m.accFor bs (tick.symbol, bucket) tick = some acc) :
    (acc.symbol, acc.bucket) = (tick.symbol, bucket) := by
  unfold Persister.accFor at hacc
  split at hacc
  · next a ha =>
    cases hacc
    exact (h _ _ ha).1
  · obtain ⟨hstart, hsym⟩ := BucketAccumulator.start_eq_some hacc
    rw [hbucket] at hstart
    cases hstart
    rw [hsym]

variable [LT K] [DecidableLT K]

theorem Confined.ingestEntry (h : m.Confined P) {e : Entry} (hrow : ∀ k ∈ entryRow cfg e.2, P k)
    (hm : m.ingestEntry cfg e = some m') : m'.Confined P := by
  unfold Persister.ingestEntry at hm
  split at hm
  · next tick hparse =>
    obtain ⟨bucket, acc, acc', prev, hbucket, hacc, hadd, haccs, -⟩ := ingestTick_eq_some hm
    obtain ⟨hsym, hbuc⟩ := BucketAccumulator.add_fixed hadd
    intro k a ha
    rw [haccs, Dict.get?_set] at ha
    split at ha
    · next hk =>
      cases ha
      subst hk
      refine ⟨?_, hrow _ (entryRow_eq_some hparse hbucket)⟩
      rw [hsym, hbuc]
      exact h.accFor hbucket hacc
    · exact h k a ha
  · cases hm
    exact h

/-- **Folding entries in** starts only their rows. -/
theorem Confined.ingestAll (h : m.Confined P) {entries : List Entry}
    (hrow : ∀ e ∈ entries, ∀ k ∈ entryRow cfg e.2, P k)
    (hm : m.ingestAll cfg entries = some m') : m'.Confined P := by
  induction entries generalizing m with
  | nil =>
    cases hm
    exact h
  | cons e entries ih =>
    unfold Persister.ingestAll at hm
    obtain ⟨m₁, hm₁, hrest⟩ := Option.bind_eq_some_iff.mp hm
    have hfirst : m₁.Confined P := h.ingestEntry (hrow e (List.mem_cons_self ..)) hm₁
    refine ih ?_ (fun f hf => hrow f (List.mem_cons_of_mem _ hf)) hrest
    exact hfirst

/-- **Committing the batch** changes only rows with the property. -/
theorem Confined.upsertBars (h : m.Confined P) {instruments : List String} {table table' : BarTable K}
    (hu : upsertBars instruments table m.batch = some table') {k : BarKey} (hk : ¬ P k) :
    table'.get? k = table.get? k := by
  unfold Worker.upsertBars at hu
  split at hu
  · cases hu
    have hkeyed := fun k acc hacc => (h k acc hacc).1
    have hnone : m.accs.get? k = none := by
      cases hacc : m.accs.get? k with
      | none => rfl
      | some acc => exact absurd (h k acc hacc).2 hk
    rw [get?_foldl_upsertRow table (nodup_batch hkeyed), find?_batch hkeyed, hnone]
    rfl
  · cases hu

end Persister

/-! ## A step of a worker -/

namespace Ticks

open Redis

variable {κ : Type} [FloatOps K]

def Phase.isStopped : Phase → Bool
  | .stopped => true
  | _ => false

/-- Whatever a worker has still to write is for rows with the property. What a stopped one remembers
it forgets before it reads. -/
structure Confined (cfg : PersisterConfig K) (P : BarKey → Prop) (s : System K κ) : Prop where
  backlog : ∀ e ∈ s.group.backlog, ∀ k ∈ entryRow cfg e.2, P k
  folded : ∀ c, (s.worker c).phase.isStopped = false → (s.worker c).memory.Confined P

variable {s t : System K κ} {c : κ} {w : WorkerState K}

/-- A persister can still write the row. -/
def Outstanding (cfg : PersisterConfig K) (s : System K κ) (k : BarKey) : Prop :=
  (∃ e ∈ s.group.backlog, entryRow cfg e.2 = some k) ∨
    ∃ c, (s.worker c).phase.isStopped = false ∧ (s.worker c).memory.accs.contains k = true

instance [Fintype κ] (s : System K κ) (k : BarKey) : Decidable (Outstanding cfg s k) :=
  inferInstanceAs (Decidable (_ ∨ _))

/-- A row with the property that no persister can write any more may lose it. -/
theorem Confined.restrict (h : Confined cfg P s) (hPQ : ∀ k, Outstanding cfg s k → P k → Q k) :
    Confined cfg Q s where
  backlog := fun e he k hk => hPQ k (.inl ⟨e, he, hk⟩) (h.backlog e he k hk)
  folded := by
    intro c hc k acc hacc
    obtain ⟨hkey, hP⟩ := h.folded c hc k acc hacc
    refine ⟨hkey, hPQ k (.inr ⟨c, hc, ?_⟩) hP⟩
    rw [Dict.contains, hacc]
    rfl

theorem confined_init (cfg : PersisterConfig K) (P : BarKey → Prop) : Confined cfg P (.init : System K κ) where
  backlog := fun _ he => nomatch he
  folded := fun _ h => nomatch h

/-- Another stream with no more to answer, another table and another lease. -/
theorem Confined.congr (h : Confined cfg P s) (hworker : t.worker = s.worker)
    (hback : ∀ e ∈ t.group.backlog, e ∈ s.group.backlog) : Confined cfg P t where
  backlog := fun e he => h.backlog e (hback e he)
  folded := by rw [hworker]; exact h.folded

/-- An append of an entry of a row with the property, and the trimming it brings. -/
theorem Confined.append (h : Confined cfg P s) {id bound : StreamId} {fields : Fields}
    {g : Group StreamId Fields κ} (hadd : s.group.xadd id fields = some g)
    (hrow : ∀ k ∈ entryRow cfg fields, P k) :
    Confined cfg P { s with group := g.trim bound .empty } where
  backlog := by
    intro e he k hk
    rcases Group.mem_backlog_trim he with hblank | he
    · rw [hblank, entryRow_empty] at hk
      cases hk
    · rcases Group.mem_backlog_xadd hadd he with he | rfl
      · exact h.backlog e he k hk
      · exact hrow k hk
  folded := h.folded

variable [DecidableEq κ]

theorem Confined.put (h : Confined cfg P s) (hw : w.phase.isStopped = false → w.memory.Confined P) :
    Confined cfg P (s.put c w) where
  backlog := h.backlog
  folded := by
    intro d hd
    by_cases hc : d = c
    · subst hc
      rw [System.worker_put_self] at hd ⊢
      exact hw hd
    · rw [System.worker_put_of_ne hc] at hd ⊢
      exact h.folded d hd

theorem Confined.leave (h : Confined cfg P s) (memory : Persister K) :
    Confined cfg P (s.leave c w memory) :=
  (h.put (fun hstop => nomatch hstop) : Confined cfg P (s.put c { w with phase := .stopped, memory })).congr
    rfl fun _ he => he

theorem Confined.goOn (h : Confined cfg P s) (hw : w.memory.Confined P) (resume : Resume) :
    Confined cfg P (s.goOn c w resume) := by
  cases resume with
  | exit => exact h.leave _
  | _ => exact h.put fun _ => hw

theorem Confined.beginFlush (h : Confined cfg P s) (hw : w.memory.Confined P) (resume : Resume)
    (sweep : Bool) : Confined cfg P (s.beginFlush c w resume sweep) := by
  unfold System.beginFlush
  split
  · exact h.goOn hw resume
  · exact h.put fun _ => hw

theorem Confined.failed (h : Confined cfg P s) (hw : w.memory.Confined P) (sweep : Bool)
    (failure : Failure) : Confined cfg P (s.failed c w sweep failure) := by
  cases failure with
  | redis =>
    unfold System.failed
    dsimp only
    split
    · exact h.put fun _ => hw
    · exact h.leave _
  | os | other => exact h.leave _

variable [LT K] [DecidableLT K]

theorem Confined.receive (h : Confined cfg P s) (hw : w.memory.Confined P) {entries : List Entry}
    (hback : ∀ e ∈ entries, e ∈ s.group.backlog) (resume : Resume) (sweep : Bool) :
    Confined cfg P (s.receive c w cfg entries resume sweep) := by
  unfold System.receive
  split
  · next memory hm =>
    have hmem : memory.Confined P := hw.ingestAll (fun e he => h.backlog e (hback e he)) hm
    exact h.beginFlush hmem resume sweep
  · exact h.leave _

/-- **A step of a worker** keeps what is still to be written within the rows with the property, and
changes no other row. -/
theorem Confined.act (h : Confined cfg P s) {what : Act} (hstep : s.act c cfg what = some t) :
    Confined cfg P t ∧ ∀ k, ¬ P k → t.table.get? k = s.table.get? k := by
  -- a worker that is not stopped has folded entries of the backlog
  have hmem : ∀ phase, (s.worker c).phase = phase → phase.isStopped = false →
      (s.worker c).memory.Confined P := by
    rintro phase rfl hphase
    exact h.folded c hphase
  have hsame : ∀ {u : System K κ} {w : WorkerState K}, System.Moves u t c w → u.table = s.table →
      ∀ k, ¬ P k → t.table.get? k = s.table.get? k := by
    intro u w hm hu k _
    rw [hm.table, hu]
  have hgroup : ∀ {g : Group StreamId Fields κ}, g.backlog = s.group.backlog →
      Confined cfg P { s with group := g } := fun hg => h.congr rfl fun e he => hg ▸ he
  have hread : ∀ count, Confined cfg P { s with group := s.group.xreadNew c count } := fun count =>
    h.congr rfl fun _ he => Group.mem_backlog_xreadNew he
  cases takes_of_act hstep with
  | acquire =>
    refine ⟨?_, fun _ _ => rfl⟩
    exact (h.congr rfl fun _ he => he : Confined cfg P { s with lease := some c }).put fun _ =>
      Persister.confined_empty P rfl
  | lose =>
    refine ⟨?_, fun _ _ => rfl⟩
    exact (h.congr rfl fun _ he => he : Confined cfg P { s with lease := none }).put (h.folded c)
  | drained hphase | top hphase | notDue hphase | sweepCheck hphase =>
    exact ⟨h.put fun _ => hmem _ hphase rfl, fun _ _ => rfl⟩
  | readPending hphase =>
    refine ⟨h.receive (hmem _ hphase rfl) (fun e he => ?_) _ _, hsame (System.moves_receive ..) rfl⟩
    exact Group.mem_backlog_of_mem_xreadPending he
  | claimed hphase =>
    exact ⟨(hgroup (Group.backlog_xautoclaim ..)).put fun _ => hmem _ hphase rfl, fun _ _ => rfl⟩
  | claim hphase hpage =>
    refine ⟨(hgroup (Group.backlog_xautoclaim ..)).receive (hmem _ hphase rfl) (fun e he => ?_) _ _,
      hsame (System.moves_receive ..) rfl⟩
    show e ∈ (s.group.xautoclaim c _).backlog
    rw [Group.backlog_xautoclaim]
    exact Group.mem_backlog_of_mem_claimable (by rw [hpage]; exact he)
  | lost | crash => exact ⟨h.leave _, hsame (System.moves_leave _) rfl⟩
  | stop hphase | due hphase =>
    exact ⟨h.beginFlush (hmem _ hphase rfl) _ _, hsame (System.moves_beginFlush ..) rfl⟩
  | read hphase hcount hfold =>
    refine ⟨(hread _).put fun _ => ?_, fun _ _ => rfl⟩
    exact (hmem _ hphase rfl).ingestAll
      (fun e he => h.backlog e (Group.mem_backlog_of_mem_fresh he)) hfold
  | readRaises => exact ⟨(hread _).leave _, hsame (System.moves_leave _) rfl⟩
  | @commit resume sweep table hphase hu =>
    refine ⟨?_, fun k hk => (hmem _ hphase rfl).upsertBars hu hk⟩
    exact (h.congr rfl fun _ he => he : Confined cfg P { s with table }).put fun _ =>
      hmem _ hphase rfl
  | commitRaises => exact ⟨h.leave _, hsame (System.moves_leave _) rfl⟩
  | @commitLost failure resume sweep table hphase hu =>
    refine ⟨?_, fun k hk => ?_⟩
    · exact (h.congr rfl fun _ he => he : Confined cfg P { s with table }).failed
        (hmem _ hphase rfl) _ _
    · rw [(System.moves_failed ..).table]
      exact (hmem _ hphase rfl).upsertBars hu hk
  | ack =>
    refine ⟨?_, hsame (System.moves_goOn _) rfl⟩
    exact (h.congr rfl fun _ he => Group.mem_backlog_xack he : Confined cfg P
      { s with group := s.group.xack (s.worker c).memory.unacked }).goOn
        (Persister.confined_empty P rfl) _
  | ackLost hphase =>
    refine ⟨?_, hsame (System.moves_failed ..) rfl⟩
    exact (h.congr rfl fun _ he => Group.mem_backlog_xack he : Confined cfg P
      { s with group := s.group.xack (s.worker c).memory.unacked }).failed
        (hmem _ hphase rfl) _ _
  | fail hphase =>
    have hon : (s.worker c).phase.isStopped = false := by
      cases hp : (s.worker c).phase with
      | stopped => exact absurd hp hphase
      | _ => rfl
    exact ⟨h.failed (hmem _ rfl hon) _ _, hsame (System.moves_failed ..) rfl⟩

end Ticks

end FxTracker.Worker
