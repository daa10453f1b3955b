import FxTracker.Lib.Lts
import FxTracker.Ingestor.Pipeline

/-!
# Leaders and their ticks

What `Ingestor.run` does with ticks over any number of processes: elections, the switch of the provider with
its hold-off, the ticks, and every end of a leadership. A process keeps its pipeline for as long as it lives.
There is at most one leader. Of the adoption script there is the marker; a transaction is applied whole or
not at all.

Every exception out of a pipeline ends its process, and so does a command that fails or whose reply is lost.

* `stepTick_cases`, `quiet_step` — all that a tick can do, and what nothing else does
-/

namespace FxTracker.Ingestor.Feed

/-- How far a leader is: elected; past the script of a switch, with the hold-off to come; consuming. -/
inductive Phase
  | elected
  | switched
  | leading
  deriving DecidableEq

/-- What becomes of the transaction of a tick. -/
inductive Outcome
  | applied
  /-- It was applied and the process ended. -/
  | unheard
  /-- The process ended before it was applied. -/
  | lost
  deriving DecidableEq

/-- A process: `cfg.provider`, and its pipeline. -/
structure Member (K : Type) where
  provider : String
  pipeline : IngestPipeline K

structure State (K κ : Type) where
  marker : Option String
  /-- All that was appended to `stream:ticks`. -/
  stream : List Fields
  /-- The bars written to `hist:{SYMBOL}:1m` on a seal, by `SYMBOL`. -/
  history : List (String × Bar K)
  process : κ → Option (Member K)
  leader : Option (κ × Phase)
  /-- The process that made the last switch and derived its hold-off, while it lives. -/
  switcher : Option κ
  /-- The ticks the leaders were given. -/
  ticks : List (Tick K)
  /-- The bars the detectors were fed, by symbol. -/
  fed : List (String × Alerts.SealedBar K)

inductive Action (K κ : Type)
  | start (k : κ) (provider : String)
  | acquire (k : κ)
  | adopt (k : κ)
  | adoptUnheard (k : κ)
  | holdOff (k : κ)
  | tick (k : κ) (tick : Tick K) (outcome : Outcome)
  | feedStale (k : κ) (stale : Bool)
  | handBack (k : κ)
  | crash (k : κ)

variable {K κ : Type} [DecidableEq κ]

namespace State

/-- No process yet, and nothing written. -/
def idle (marker : Option String) : State K κ := ⟨marker, [], [], fun _ => none, none, none, [], []⟩

def put (s : State K κ) (k : κ) (m : Option (Member K)) : State K κ :=
  { s with process := fun k' => if k' = k then m else s.process k' }

/-- The process ends, and so do its leadership and its hold-off. -/
def kill (s : State K κ) (k : κ) : State K κ :=
  { s.put k none with
    leader := s.leader.filter fun l => l.1 ≠ k
    switcher := s.switcher.filter fun l => l ≠ k }

/-- The process that leads, at this point. -/
def leads (s : State K κ) (k : κ) (phase : Phase) : Option (Member K) :=
  if s.leader = some (k, phase) then s.process k else none

/-- The transaction of a tick is applied. -/
def write (s : State K κ) (symbol : String) (w : Written K) : State K κ :=
  { s with
    stream := s.stream ++ [w.entry]
    history := s.history ++ (w.bar.map fun b => (symbol, b.1)).toList }

/-- The detector was fed. -/
def feed (s : State K κ) (symbol : String) (w : Written K) : State K κ :=
  { s with fed := s.fed ++ (w.bar.map fun b => (symbol, b.2)).toList }

end State

variable {s t : State K κ} {k : κ} {phase : Phase}

theorem leads_eq_some_iff {m : Member K} :
    s.leads k phase = some m ↔ s.leader = some (k, phase) ∧ s.process k = some m := by
  unfold State.leads
  by_cases h : s.leader = some (k, phase) <;> simp [h]

/-- Who is there when one process has changed. -/
theorem process_put_some {k' : κ} {m m' : Member K} (h : (s.put k (some m)).process k' = some m') :
    (k' = k ∧ m' = m) ∨ s.process k' = some m' := by
  have hif : (if k' = k then some m else s.process k') = some m' := h
  split at hif
  · next heq =>
    cases hif
    exact .inl ⟨heq, rfl⟩
  · exact .inr hif

/-- What is said of a process stays true when one changes that keeps it. -/
theorem exists_process_put {k' : κ} {m m₁ : Member K} {P : Member K → Prop} (hm : s.process k = some m)
    (hkeep : P m → P m₁) (h : ∃ m', s.process k' = some m' ∧ P m') :
    ∃ m', (s.put k (some m₁)).process k' = some m' ∧ P m' := by
  obtain ⟨m', hm', hp⟩ := h
  by_cases hk : k' = k
  · subst hk
    rw [hm] at hm'
    cases hm'
    exact ⟨m₁, if_pos rfl, hkeep hp⟩
  · exact ⟨m', (if_neg hk).trans hm', hp⟩

/-- Who is left when a process ends. -/
theorem process_kill_some {k' : κ} {m : Member K} (h : (s.kill k).process k' = some m) :
    s.process k' = some m := by
  have hif : (if k' = k then none else s.process k') = some m := h
  split at hif
  · cases hif
  · exact hif

theorem leader_kill {l : κ × Phase} (h : (s.kill k).leader = some l) : s.leader = some l :=
  (Option.filter_eq_some_iff.mp h).1

variable [FloatMath K] [LT K] [DecidableLT K]

/-- One tick for the leader. One that is dropped has no transaction. -/
def stepTick (cfg : IngestConfig K) (s : State K κ) (k : κ) (tick : Tick K) (outcome : Outcome) :
    Option (State K κ) := do
  let m ← s.leads k .leading
  let (pipeline, written) ← m.pipeline.handle cfg tick
  let s := { s with ticks := s.ticks ++ [tick] }
  match written, outcome with
  | none, .applied => return s
  | none, _ => none
  | some w, .applied => return ((s.feed tick.symbol w).write tick.symbol w).put k (some { m with pipeline })
  | some w, .unheard => return ((s.feed tick.symbol w).write tick.symbol w).kill k
  | some w, .lost => return (s.feed tick.symbol w).kill k

def step (cfg : IngestConfig K) (s : State K κ) : Action K κ → Option (State K κ)
  | .start k provider =>
    if (s.process k).isNone then some (s.put k (some ⟨provider, .new⟩)) else none
  | .acquire k =>
    if (s.process k).isSome ∧ s.leader = none then some { s with leader := some (k, .elected) } else none
  | .adopt k => do
    let m ← s.leads k .elected
    let s' := s.put k (some { m with pipeline := { m.pipeline with provider := m.provider } })
    if s.marker = some m.provider then return { s' with leader := some (k, .leading) }
    else return { s' with marker := some m.provider, leader := some (k, .switched), switcher := none }
  -- the script was applied, and its answer is lost
  | .adoptUnheard k => do
    let m ← s.leads k .elected
    return ({ s with marker := some m.provider, switcher := none } : State K κ).kill k
  | .holdOff k => do
    let m ← s.leads k .switched
    let pipeline ← m.pipeline.holdOff cfg s.stream.getLast?
    return { s.put k (some { m with pipeline }) with leader := some (k, .leading), switcher := some k }
  | .tick k tick outcome => stepTick cfg s k tick outcome
  | .feedStale k stale => do
    let m ← s.leads k .leading
    return s.put k (some { m with pipeline := { m.pipeline with feedIsStale := stale } })
  | .handBack k => (s.leads k .leading).map fun _ => { s with leader := none }
  | .crash k => some (s.kill k)

/-! ## What a step does -/

variable {cfg : IngestConfig K}

/-- **All that a tick can do**: nothing, or its transaction with one of three ends. -/
theorem stepTick_cases {tick : Tick K} {outcome : Outcome} (h : stepTick cfg s k tick outcome = some t) :
    ∃ m pipeline, s.leads k .leading = some m ∧
      ((m.pipeline.handle cfg tick = some (pipeline, none) ∧ t = { s with ticks := s.ticks ++ [tick] }) ∨
        ∃ w fed, m.pipeline.handle cfg tick = some (pipeline, some w) ∧
          fed = ({ s with ticks := s.ticks ++ [tick] } : State K κ).feed tick.symbol w ∧
          (t = (fed.write tick.symbol w).put k (some { m with pipeline }) ∨
            t = (fed.write tick.symbol w).kill k ∨ t = fed.kill k)) := by
  unfold stepTick at h
  obtain ⟨m, hm, h⟩ := Option.bind_eq_some_iff.mp h
  obtain ⟨⟨pipeline, written⟩, hhandle, h⟩ := Option.bind_eq_some_iff.mp h
  refine ⟨m, pipeline, hm, ?_⟩
  cases written with
  | none =>
    refine .inl ⟨hhandle, ?_⟩
    cases outcome <;> cases h
    rfl
  | some w =>
    refine .inr ⟨w, _, hhandle, rfl, ?_⟩
    cases outcome <;> cases h
    · exact .inl rfl
    · exact .inr (.inl rfl)
    · exact .inr (.inr rfl)

/-- What every step but a tick leaves as it was. -/
structure Quiet (s t : State K κ) (a : Action K κ) : Prop where
  stream : t.stream = s.stream
  history : t.history = s.history
  ticks : t.ticks = s.ticks
  fed : t.fed = s.fed
  process : ∀ k m', t.process k = some m' → m'.pipeline.state = (fun _ => .new) ∨
    ∃ m, s.process k = some m ∧ m'.pipeline.state = m.pipeline.state
  leader : ∀ k phase, t.leader = some (k, phase) → (∃ phase', s.leader = some (k, phase')) ∨ a = .acquire k

omit [FloatMath K] [LT K] [DecidableLT K] in
theorem quiet_kill (k : κ) {a : Action K κ} : Quiet s (s.kill k) a where
  stream := rfl
  history := rfl
  ticks := rfl
  fed := rfl
  process _ m' hm := .inr ⟨m', process_kill_some hm, rfl⟩
  leader _ phase hl := .inl ⟨phase, leader_kill hl⟩

omit [FloatMath K] [LT K] [DecidableLT K] in
/-- The leader's pipeline changes, but not its symbols. -/
theorem quiet_put {m : Member K} (hm : s.leads k phase = some m) (m' : Member K)
    (hstate : m'.pipeline.state = m.pipeline.state) (phase' : Phase) (marker : Option String)
    (switcher : Option κ) (a : Action K κ) :
    Quiet s
      { s.put k (some m') with marker := marker, leader := some (k, phase'), switcher := switcher } a where
  stream := rfl
  history := rfl
  ticks := rfl
  fed := rfl
  process k' m₁ hm₁ := by
    rcases process_put_some hm₁ with ⟨rfl, rfl⟩ | hold
    · exact .inr ⟨m, (leads_eq_some_iff.mp hm).2, hstate⟩
    · exact .inr ⟨m₁, hold, rfl⟩
  leader k' phase₁ hl := by
    cases hl
    exact .inl ⟨phase, (leads_eq_some_iff.mp hm).1⟩

theorem quiet_step {a : Action K κ} (h : step cfg s a = some t) (ha : ∀ k tick o, a ≠ .tick k tick o) :
    Quiet s t a := by
  cases a with
  | start k provider =>
    simp only [step] at h
    split at h
    · cases h
      refine ⟨rfl, rfl, rfl, rfl, fun k' m' hm => ?_, fun _ phase hl => .inl ⟨phase, hl⟩⟩
      rcases process_put_some hm with ⟨-, rfl⟩ | hold
      · exact .inl rfl
      · exact .inr ⟨m', hold, rfl⟩
    · cases h
  | acquire k =>
    simp only [step] at h
    split at h
    · cases h
      refine ⟨rfl, rfl, rfl, rfl, fun _ m' hm => .inr ⟨m', hm, rfl⟩, fun k' phase hl => ?_⟩
      cases hl
      exact .inr rfl
    · cases h
  | adopt k =>
    obtain ⟨m, hm, h⟩ := Option.bind_eq_some_iff.mp h
    dsimp only at h
    split at h <;> cases h
    · exact quiet_put hm { m with pipeline := { m.pipeline with provider := m.provider } } rfl .leading
        s.marker s.switcher _
    · exact quiet_put hm { m with pipeline := { m.pipeline with provider := m.provider } } rfl .switched
        (some m.provider) none _
  | adoptUnheard k =>
    obtain ⟨m, hm, h⟩ := Option.bind_eq_some_iff.mp h
    cases h
    exact ⟨rfl, rfl, rfl, rfl, fun _ m' hm => .inr ⟨m', process_kill_some hm, rfl⟩,
      fun _ phase hl => .inl ⟨phase, leader_kill hl⟩⟩
  | holdOff k =>
    obtain ⟨m, hm, h⟩ := Option.bind_eq_some_iff.mp h
    obtain ⟨pipeline, hoff, h⟩ := Option.bind_eq_some_iff.mp h
    cases h
    exact quiet_put hm { m with pipeline } (IngestPipeline.state_holdOff hoff) .leading s.marker (some k) _
  | tick k tick o => exact absurd rfl (ha k tick o)
  | feedStale k stale =>
    obtain ⟨m, hm, h⟩ := Option.bind_eq_some_iff.mp h
    cases h
    have hq := quiet_put hm { m with pipeline := { m.pipeline with feedIsStale := stale } } rfl .leading
      s.marker s.switcher (.feedStale k stale)
    exact ⟨rfl, rfl, rfl, rfl, hq.process, fun _ phase hl => .inl ⟨phase, hl⟩⟩
  | handBack k =>
    obtain ⟨m, -, h⟩ := Option.map_eq_some_iff.mp h
    cases h
    exact ⟨rfl, rfl, rfl, rfl, fun _ m' hm => .inr ⟨m', hm, rfl⟩, fun _ _ hl => (nomatch hl)⟩
  | crash k =>
    cases h
    exact quiet_kill k

/-- The ingestors, from a start with `marker` recorded. -/
def system (cfg : IngestConfig K) (κ : Type) [DecidableEq κ] (marker : Option String) :
    Lts (State K κ) (Action K κ) :=
  Lts.ofFn (.idle marker) (step cfg)

/-! ## Steps of runs on fixed inputs -/

/-- An election, with the provider unchanged. -/
def lead (k : Nat) : List (Action ℚ Nat) := [.acquire k, .adopt k]

def tickAt (k minute : Nat) : Action ℚ Nat := .tick k (sampleTick minute) .applied

end FxTracker.Ingestor.Feed
