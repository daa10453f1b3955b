import FxTracker.Worker.ExactlyOnce

/-!
# Persisters that lose the lease

`lease_handover` says what any number of persisters guarantee on disciplined runs. Two runs show what
an undisciplined one can do: a worker that loses the lease while it waits in `XREADGROUP` goes on to
fold what it is handed and to flush, and what it is handed and leaves pending is claimed too late.
-/

namespace FxTracker.Worker.Ticks

open Redis

variable {K κ : Type} [LinearOrder K] [FloatOps K] [DecidableEq κ]

/--
**Handing the lease over.**

Any number of persisters on one stream, with any losses of the lease and any interleaving of their
steps. In every state a disciplined run reaches, a worker that has lost the lease has no commit to
make, and where every entry is acknowledged, each row counts each tick of its bucket once.
-/
theorem lease_handover (cfg : PersisterConfig K) {s : System K κ}
    (hr : ((tickLts cfg).guard (Disciplined cfg)).Reachable s) :
    (∀ c, (s.worker c).lost = true →
      s.act c cfg .commit = none ∧ ∀ failure, s.act c cfg (.commitLost failure) = none) ∧
    ((∀ e ∈ s.group.log, e ∈ s.group.acked) → RowsExact cfg s.table s.group.log) := by
  have hi := inv_of_reachable hr
  refine ⟨fun c hlost => ⟨?_, fun failure => ?_⟩, hi.rowsExact⟩
  · rw [System.act]
    split
    · next resume sweep hphase => exact absurd hphase (hi.not_flushing hlost resume sweep)
    · rfl
  · rw [System.act]
    split
    · next resume sweep hphase => exact absurd hphase (hi.not_flushing hlost resume sweep)
    · rfl

/-- Worker `false` folds a tick in and loses the lease before it commits; worker `true` claims the
tick and commits it, and the next one. -/
def handedOver : List (Action Bool) :=
  [.append (toLex (5, 0)) sampleTick] ++ startUp false ++
    [.act false (.read 5), .act false (.check false), .act false (.sweepCheck false),
      .act false .lose, .act false .top, .act true .acquire, .act true .readPending,
      .act true (.claim fun _ => false), .act true .commit, .act true .ack, .act true .top,
      .append (toLex (5, 1)) sampleTick, .act true (.read 5), .act true (.check true),
      .act true .commit, .act true .ack]

theorem lease_handover_handedOver :
    ∃ s : System Int Bool, Lts.exec (fun s a => s.step sampleConfig a) .init handedOver = some s ∧
      s.table.values.map (·.tickCount) = [2] ∧
      (s.worker false).phase = .stopped ∧ RowsExact sampleConfig s.table s.group.log := by
  have : Decidable (Subsingleton Bool) := isFalse (not_subsingleton Bool)
  have hmeets : Lts.Meets (fun s a => s.step sampleConfig a) (Disciplined sampleConfig)
      (.init : System Int Bool) handedOver := by decide
  have hr : ∀ s : System Int Bool,
      Lts.exec (fun s a => s.step sampleConfig a) .init handedOver = some s →
      ((tickLts sampleConfig).guard (Disciplined sampleConfig)).Reachable s := fun s hs =>
    Lts.reachable_of_meets (.init rfl) hmeets hs
  exact ⟨_, rfl, rfl, rfl, (lease_handover sampleConfig (hr _ rfl)).2 (by decide)⟩

/-- Worker `false` folds a tick in and loses the lease in its next `XREADGROUP`; `true` claims the tick
and commits it. The read then hands `false` the next tick, and its flush is due. -/
def lateFlush : List (Action Bool) :=
  [.append (toLex (5, 0)) sampleTick] ++ startUp false ++
    [.act false (.read 5), .act false (.check false), .act false (.sweepCheck false),
      .act false .top, .act false .lose, .act true .acquire, .act true .readPending,
      .act true (.claim fun _ => false), .act true .commit, .act true .ack,
      .append (toLex (5, 1)) sampleTick, .act false (.read 5), .act false (.check true)]

/-- Worker `false` loses the lease in an `XREADGROUP` that hands it a tick; `true` commits the next
one. When the sweep claims the first, its row's watermark is past it. -/
def lateClaim : List (Action Bool) :=
  startUp false ++ [.act false .lose] ++ startUp true ++
    [.append (toLex (5, 0)) sampleTick, .act false (.read 5), .act false (.check false),
      .act false (.sweepCheck false), .act false .top, .append (toLex (5, 1)) sampleTick,
      .act true (.read 5), .act true (.check true), .act true .commit, .act true .ack,
      .act true (.sweepCheck true), .act true (.claim fun _ => true), .act true .commit,
      .act true .ack]

theorem lost_worker_commits_and_skips :
    (∃ s t u : System Int Bool, (tickLts sampleConfig).Reachable s ∧
      (s.worker false).lost = true ∧ s.lease = some true ∧
      s.act false sampleConfig .commit = some t ∧ t.act false sampleConfig .ack = some u ∧
      (∀ e ∈ u.group.log, e ∈ u.group.acked) ∧ u.group.log.length = 2 ∧
      u.table.values.map (·.tickCount) = [3]) ∧
    ∃ s : System Int Bool, (tickLts sampleConfig).Reachable s ∧
      (∀ e ∈ s.group.log, e ∈ s.group.acked) ∧ s.group.log.length = 2 ∧
      s.table.values.map (·.tickCount) = [1] ∧ ¬ RowsExact sampleConfig s.table s.group.log := by
  have hr : ∀ as : List (Action Bool), ∀ s : System Int Bool,
      Lts.exec (fun s a => s.step sampleConfig a) .init as = some s →
      (tickLts sampleConfig).Reachable s := fun _ _ hs => Lts.reachable_of_exec hs
  refine ⟨⟨_, _, _, hr lateFlush _ rfl, rfl, rfl, rfl, rfl, by decide, rfl, rfl⟩,
    _, hr lateClaim _ rfl, by decide, rfl, rfl, fun h => ?_⟩
  have hcount := (h ("EURUSD", 0)).2.count
  exact absurd hcount (by decide)

end FxTracker.Worker.Ticks
