import FxTracker.Ingestor.Numbering
import FxTracker.Ingestor.Transitions
import Mathlib.Data.Rat.Encodable

/-!
# From the detectors to `alert_events`

The ingestors and the alert persisters over one `stream:alerts`. The transaction of a sealed bar adds the
entry of its transition; the persisters read the stream, whatever the ingestors do. Nothing is trimmed: the
`maxlen` of the stream is a backstop of years.

The ingestors are those of `leaderships`: one leads at a time (the lease is taken only where nobody leads),
the stored snapshots are intact, and a transaction is applied at most once, whole or not at all. A leader that
goes on after its lease ran out, and a client that sends a timed-out transaction again, are outside of it.

* `reachable_parts` — the stream the ingestors write is one the persisters' guarantee is about: its entries
  all parse, under keys of their own
* `alert_events_exact` — the table holds of each symbol the transitions committed for it, each under its
  number and with its own fields
-/

namespace FxTracker.Worker.AlertTrail

open Alerts Ingestor Redis AlertPersister

variable {K : Type} [LE K] [DecidableLE K] [LT K] [DecidableLT K] [FloatMath K]

/-- The ingestors with what they keep in Redis, and the persisters with the stream and the table. -/
structure Trail (setup : Setup K) (κ ω : Type) where
  ingest : Ingestor.State setup κ
  persist : AlertPersister.System K ω

inductive TrailAction (K κ ω : Type)
  /-- `id` is the id Redis gives to the entry, if there is one. -/
  | ingest (a : Ingestor.Action K κ) (id : StreamId)
  | persist (consumer : ω) (what : AlertPersister.Act)

variable {setup : Setup K} {κ ω : Type} [DecidableEq κ] [DecidableEq ω]

/-- The `XADD` of a sealed bar's transaction. -/
def queueTransition (printer : AlertPrinter K) (group : Group StreamId Fields ω) (id : StreamId) :
    Option (RegimeTransition K) → Option (Group StreamId Fields ω)
  | none => some group
  | some tr => group.xadd id (transitionFields printer tr)

/-- One step. What a step of the ingestors commits is added to the stream with it. -/
inductive TrailStep (codec : Codec K) (printer : AlertPrinter K) (batch : Nat) :
    Trail setup κ ω → TrailAction K κ ω → Trail setup κ ω → Prop
  | ingest {s : Trail setup κ ω} {a t o id group} (hstep : Step setup s.ingest a t)
      (ho : t.alerts = s.ingest.alerts ++ o.toList)
      (hx : queueTransition printer s.persist.group id o = some group) :
    TrailStep codec printer batch s (.ingest a id) ⟨t, { s.persist with group := group }⟩
  | persist {s : Trail setup κ ω} {c what p} (hact : s.persist.act codec batch c what = some p) :
    TrailStep codec printer batch s (.persist c what) ⟨s.ingest, p⟩

variable (setup κ ω) in
/-- From an empty stream and an empty table. -/
def trails (codec : Codec K) (printer : AlertPrinter K) (batch : Nat) :
    Lts (Trail setup κ ω) (TrailAction K κ ω) where
  init s := Fresh s.ingest ∧ s.persist = .init
  step := TrailStep codec printer batch

/-- The time of a sealed bar, a `datetime`. -/
def barTime : Ingestor.Action K κ → Option Int
  | .sealBar _ _ bar | .sealBarUnheard _ _ bar => some bar.ts
  | _ => none

def Timed (a : Ingestor.Action K κ) : Prop := ∀ ts ∈ barTime a, IsTimestamptz ts

def TimedBars (_ : Trail setup κ ω) : TrailAction K κ ω → Prop
  | .ingest a _ => Timed a
  | .persist .. => True

/-! ## What a step commits -/

/-- The transition changes the regime, and has the time of the bar. -/
structure CommittedAt (ts : Int) (tr : RegimeTransition K) : Prop where
  changes : tr.oldRegime ≠ tr.newRegime
  time : tr.ts = ts

omit [DecidableEq κ] [DecidableEq ω] in
theorem committedAt_of_update {d d' : RegimeDetector K} {bar : SealedBar K} {tr : RegimeTransition K}
    (h : d.update bar = some (d', some tr)) : CommittedAt bar.ts tr := by
  have hc : d.trigger.Commits bar.ts tr d'.trigger := RegimeDetector.update_step h
  refine ⟨?_, hc.time⟩
  rw [hc.old, hc.new]
  exact (Regime.flip_ne _).symm

/-- **A step of the ingestors** commits nothing, or the transition of the bar it seals. -/
theorem alerts_of_step {s t : Ingestor.State setup κ} {a : Ingestor.Action K κ} (h : Step setup s a t) :
    ∃ o : Option (RegimeTransition K), t.alerts = s.alerts ++ o.toList ∧
      ∀ tr ∈ o, ∃ ts ∈ barTime a, CommittedAt ts tr := by
  cases h with
  | @sealBar k p symbol bar d o hp hlead hmem hup =>
    refine ⟨o, rfl, ?_⟩
    intro tr htr
    cases htr
    exact ⟨bar.ts, rfl, committedAt_of_update hup⟩
  | @sealBarUnheard k p symbol bar d o hp hlead hmem hup =>
    refine ⟨o, rfl, ?_⟩
    intro tr htr
    cases htr
    exact ⟨bar.ts, rfl, committedAt_of_update hup⟩
  | _ => exact ⟨none, (List.append_nil _).symm, by simp⟩

omit [LE K] [DecidableLE K] [LT K] [DecidableLT K] [DecidableEq ω] in
theorem log_queueTransition {printer : AlertPrinter K} {group group' : Group StreamId Fields ω} {id : StreamId}
    {o : Option (RegimeTransition K)} (h : queueTransition printer group id o = some group') :
    group'.log.map Prod.snd = group.log.map Prod.snd ++ o.toList.map (transitionFields printer) := by
  cases o with
  | none =>
    cases h
    simp
  | some tr =>
    obtain ⟨hlog, -, -⟩ := Group.xadd_eq_some h
    simp [hlog]

/-! ## The two parts -/

/-- The stream holds the entries of what was committed, in its order. -/
structure Written (printer : AlertPrinter K) (s : Trail setup κ ω) : Prop where
  log : s.persist.group.log.map Prod.snd = s.ingest.alerts.map (transitionFields printer)
  changes : ∀ tr ∈ s.ingest.alerts, tr.oldRegime ≠ tr.newRegime
  time : ∀ tr ∈ s.ingest.alerts, IsTimestamptz tr.ts

variable {codec : Codec K} {printer : AlertPrinter K} {batch : Nat} {s : Trail setup κ ω}

omit [LT K] [DecidableLT K] [DecidableEq κ] [DecidableEq ω] in
/-- An entry is that of a transition, and comes back as its row. -/
theorem Written.parse (h : Written printer s) (hreads : ReadsBack codec printer) {e : StreamId × Fields}
    (he : e ∈ s.persist.group.log) : ∃ tr ∈ s.ingest.alerts, e.2 = transitionFields printer tr ∧
      parseAlert codec e.2 = some (alertRow printer tr) := by
  have hmem : e.2 ∈ s.ingest.alerts.map (transitionFields printer) := h.log ▸ List.mem_map_of_mem he
  obtain ⟨tr, htr, heq⟩ := List.mem_map.mp hmem
  refine ⟨tr, htr, heq.symm, ?_⟩
  rw [← heq]
  exact parseAlert_transitionFields hreads (h.changes tr htr) (h.time tr htr)

omit [LT K] [DecidableLT K] [FloatMath K] [DecidableEq κ] in
/-- A transition that follows others of its symbol has a number of its own. -/
theorem seq_ne_of_led {s : Ingestor.State setup κ} (h : Led Standing.seq Standing.Numbers s)
    {alerts : List (RegimeTransition K)} {tr tr' : RegimeTransition K}
    (halerts : s.alerts = alerts ++ [tr]) (htr' : tr' ∈ alerts) (hsymbol : tr'.symbol = tr.symbol) :
    tr'.seq ≠ tr.seq := by
  have hpair := seq_pairwise_of_numbers (h.log tr.symbol)
  have hlog : logOf s.alerts tr.symbol = logOf alerts tr.symbol ++ [tr] := by
    rw [halerts]
    simp [logOf]
  rw [hlog, List.pairwise_append] at hpair
  have hmem : tr' ∈ logOf alerts tr.symbol := List.mem_filter.mpr ⟨htr', by simp [hsymbol]⟩
  exact Int.ne_of_lt (hpair.2.2 tr' hmem tr (List.mem_singleton_self tr))

/--
**Each part is a run of its own.** In every run of the two together the ingestors run as they would alone, one
leader at a time, on intact snapshots, each transaction applied at most once; and the persisters run on a stream
whose entries all parse, no two under one key.
-/
theorem reachable_parts (hreads : ReadsBack codec printer)
    (h : ((trails setup κ ω codec printer batch).guard TimedBars).Reachable s) :
    (leaderships setup κ).Reachable s.ingest ∧
      ((alertLts codec batch).guard (DistinctAlerts codec)).Reachable s.persist ∧ Written printer s := by
  induction h with
  | @init s hs =>
    obtain ⟨hfresh, hpersist⟩ := hs
    refine ⟨.init hfresh, .init hpersist, ?_⟩
    constructor
    · simp [hpersist, AlertPersister.System.init, Group.empty, hfresh.alerts]
    · simp [hfresh.alerts]
    · simp [hfresh.alerts]
  | @step s t a _ hstep ih =>
    obtain ⟨hingest, hpersist, hwritten⟩ := ih
    obtain ⟨hstep, htimed⟩ := hstep
    cases hstep with
    | @persist c what p hact =>
      refine ⟨hingest, hpersist.step (a := .act c what) ⟨hact, trivial⟩, ?_⟩
      have hlog : p.group.log = s.persist.group.log :=
        ((alertsOk_of_reachable hpersist).act hact).log
      exact ⟨by rw [hlog]; exact hwritten.log, hwritten.changes, hwritten.time⟩
    | @ingest a t o id group hstep ho hx =>
      have hnext := hingest.step hstep
      obtain ⟨o', ho', hcommitted⟩ := alerts_of_step hstep
      have heq : o' = o := by
        have htail := List.append_cancel_left (ho'.symm.trans ho)
        cases o <;> cases o' <;> simp_all
      subst heq
      have hnew : ∀ tr ∈ t.alerts, tr ∈ s.ingest.alerts ∨ ∃ ts ∈ barTime a, CommittedAt ts tr := by
        intro tr htr
        rw [ho, List.mem_append, Option.mem_toList] at htr
        exact htr.imp_right (hcommitted tr)
      refine ⟨hnext, ?_, ?_, ?_, ?_⟩
      · cases o' with
        | none =>
          cases hx
          exact hpersist
        | some tr =>
          obtain ⟨ts, hts, hc⟩ := hcommitted tr rfl
          have hparse : parseAlert codec (transitionFields printer tr) = some (alertRow printer tr) :=
            parseAlert_transitionFields hreads hc.changes (hc.time ▸ htimed ts hts)
          have hadd : s.persist.step codec batch (.append id (transitionFields printer tr)) =
              some { s.persist with group := group } := by
            unfold queueTransition at hx
            simp [AlertPersister.System.step, hx]
          refine hpersist.step (a := .append id (transitionFields printer tr)) ⟨hadd, _, hparse, ?_⟩
          -- an entry with the key would be of a transition with the number
          intro e he r hr hkey
          obtain ⟨tr', htr', -, hrow⟩ := hwritten.parse hreads he
          rw [hr] at hrow
          cases hrow
          obtain ⟨hsymbol, hseq⟩ := Prod.ext_iff.mp hkey
          exact seq_ne_of_led (counted_of_reachable hnext).2 ho htr' hsymbol hseq
      · show group.log.map Prod.snd = t.alerts.map (transitionFields printer)
        rw [log_queueTransition hx, hwritten.log, ho, List.map_append]
      · intro tr htr
        rcases hnew tr htr with htr | ⟨ts, -, hc⟩
        · exact hwritten.changes tr htr
        · exact hc.changes
      · intro tr htr
        rcases hnew tr htr with htr | ⟨ts, hts, hc⟩
        · exact hwritten.time tr htr
        · exact hc.time ▸ htimed ts hts

/-! ## What the table comes to -/

/-- The transition committed under a key. -/
def committedUnder (alerts : List (RegimeTransition K)) (key : AlertKey) : Option (RegimeTransition K) :=
  (logOf alerts key.1).find? (·.seq = key.2)

omit [LT K] [DecidableLT K] [FloatMath K] [DecidableEq κ] in
theorem committedUnder_of_mem {s : Ingestor.State setup κ} (h : Led Standing.seq Standing.Numbers s)
    {tr : RegimeTransition K} (htr : tr ∈ s.alerts) :
    committedUnder s.alerts (tr.symbol, tr.seq) = some tr := by
  have hmem : tr ∈ logOf s.alerts tr.symbol := List.mem_filter.mpr ⟨htr, by simp⟩
  have hsome : ((logOf s.alerts tr.symbol).find? (·.seq = tr.seq)).isSome := by
    rw [List.find?_isSome]
    exact ⟨tr, hmem, by simp⟩
  obtain ⟨tr', htr'⟩ := Option.isSome_iff_exists.mp hsome
  have hseq : tr'.seq = tr.seq := by simpa using List.find?_some htr'
  have heq : tr' = tr :=
    eq_of_key_eq (seq_pairwise_of_numbers (h.log tr.symbol)) (List.mem_of_find?_eq_some htr') hmem hseq
  rw [committedUnder, htr', heq]

omit [LE K] [DecidableLE K] [LT K] [DecidableLT K] [FloatMath K] in
theorem committedUnder_eq_some {alerts : List (RegimeTransition K)} {key : AlertKey}
    {tr : RegimeTransition K} (h : committedUnder alerts key = some tr) :
    tr ∈ alerts ∧ (tr.symbol, tr.seq) = key := by
  have hmem := List.mem_filter.mp (List.mem_of_find?_eq_some h)
  have hseq : tr.seq = key.2 := by simpa using List.find?_some h
  exact ⟨hmem.1, Prod.ext (of_decide_eq_true hmem.2) hseq⟩

/--
**`alert_events` is the ingestors' log.**

In every run of any number of ingestors and persisters in which one ingestor leads at a time, the stored snapshots
are intact and each transaction is applied at most once, whatever the order of elections, provider switches,
sealed bars, reads, claims, inserts, acknowledgements, failures and crashes: the transitions of each symbol are
numbered 1, 2, 3, …; a row is that of the transition committed under its key, with all its fields; an entry is
acknowledged only after the row of its transition is stored; and once every entry is acknowledged the table
holds, under each key, exactly what was committed under it.
-/
theorem alert_events_exact (hreads : ReadsBack codec printer)
    (h : ((trails setup κ ω codec printer batch).guard TimedBars).Reachable s) :
    (∀ symbol i (hi : i < (logOf s.ingest.alerts symbol).length),
      (logOf s.ingest.alerts symbol)[i].seq = i + 1) ∧
    (∀ key r, s.persist.table.get? key = some r →
      (committedUnder s.ingest.alerts key).map (alertRow printer) = some r) ∧
    (∀ e ∈ s.persist.group.acked, ∃ tr ∈ s.ingest.alerts, e.2 = transitionFields printer tr ∧
      s.persist.table.get? (tr.symbol, tr.seq) = some (alertRow printer tr)) ∧
    ((∀ e ∈ s.persist.group.log, e ∈ s.persist.group.acked) → ∀ key,
      s.persist.table.get? key = (committedUnder s.ingest.alerts key).map (alertRow printer)) := by
  obtain ⟨hingest, hpersist, hwritten⟩ := reachable_parts hreads h
  have hled := (counted_of_reachable hingest).2
  have hok := alertsOk_of_reachable hpersist
  have hrow : ∀ key r, s.persist.table.get? key = some r →
      (committedUnder s.ingest.alerts key).map (alertRow printer) = some r := by
    intro key r hr
    obtain ⟨hkey, e, he, hpe⟩ := hok.fromLog key r hr
    obtain ⟨tr, htr, -, hparse⟩ := hwritten.parse hreads he
    rw [hpe] at hparse
    cases hparse
    rw [← hkey]
    show (committedUnder s.ingest.alerts (tr.symbol, tr.seq)).map (alertRow printer) = _
    rw [committedUnder_of_mem hled htr, Option.map_some]
  have hacked : ∀ e ∈ s.persist.group.acked, ∃ tr ∈ s.ingest.alerts,
      e.2 = transitionFields printer tr ∧ s.persist.table.get? (tr.symbol, tr.seq) = some (alertRow printer tr) := by
    intro e he
    obtain ⟨tr, htr, hfields, hparse⟩ := hwritten.parse hreads (Group.mem_log_of_mem_acked he)
    obtain ⟨row, hrow, hstored⟩ := hok.acked e he
    rw [hparse] at hrow
    cases hrow
    exact ⟨tr, htr, hfields, hstored⟩
  refine ⟨fun symbol i hi => seq_getElem_of_numbers (hled.log symbol) i hi, hrow, hacked, ?_⟩
  intro hall key
  cases hc : committedUnder s.ingest.alerts key with
  | none =>
    cases hr : s.persist.table.get? key with
    | none => rfl
    | some r =>
      have hsome := hrow key r hr
      rw [hc] at hsome
      cases hsome
  | some tr =>
    obtain ⟨htr, hkey⟩ := committedUnder_eq_some hc
    -- the entry of the transition is in the stream
    have hmem : transitionFields printer tr ∈ s.persist.group.log.map Prod.snd := by
      rw [hwritten.log]
      exact List.mem_map_of_mem htr
    obtain ⟨e, he, hfields⟩ := List.mem_map.mp hmem
    obtain ⟨row, hp, hstored⟩ := hok.acked e (hall e he)
    rw [hfields, parseAlert_transitionFields hreads (hwritten.changes tr htr) (hwritten.time tr htr)] at hp
    cases hp
    rw [← hkey]
    exact hstored

/-! ## The stream refuses nothing -/

theorem exists_id_gt (log : List (StreamId × Fields)) : ∃ id : StreamId, ∀ e ∈ log, e.1 < id := by
  induction log with
  | nil => exact ⟨toLex (0, 0), by simp⟩
  | cons e log ih =>
    obtain ⟨id, hid⟩ := ih
    obtain ⟨next, hnext⟩ := exists_gt (max e.1 id)
    refine ⟨next, ?_⟩
    intro f hf
    rcases List.mem_cons.mp hf with rfl | hf
    · exact lt_of_le_of_lt (le_max_left _ _) hnext
    · exact lt_trans (hid f hf) (lt_of_le_of_lt (le_max_right _ _) hnext)

omit [LE K] [DecidableLE K] [LT K] [DecidableLT K] [DecidableEq ω] in
theorem exists_queueTransition (printer : AlertPrinter K) (group : Group StreamId Fields ω)
    (o : Option (RegimeTransition K)) : ∃ id group', queueTransition printer group id o = some group' ∧
      group'.delivered = group.delivered ∧ group'.pel = group.pel := by
  cases o with
  | none => exact ⟨toLex (0, 0), group, rfl, rfl, rfl⟩
  | some tr =>
    obtain ⟨id, hid⟩ := exists_id_gt group.log
    refine ⟨id, _, dif_pos hid, rfl, rfl⟩

variable (codec printer batch) in
/-- **Every run of the ingestors** is their part of a run in which no persister acts. -/
theorem exists_trail {s : Ingestor.State setup κ}
    (h : ((leaderships setup κ).guard fun _ a => Timed a).Reachable s) :
    ∃ group : Group StreamId Fields ω, group.delivered = 0 ∧ group.pel = [] ∧
      ((trails setup κ ω codec printer batch).guard TimedBars).Reachable
        ⟨s, { group, table := .empty, worker := fun _ => .down }⟩ := by
  induction h with
  | init hs => exact ⟨.empty, rfl, rfl, .init ⟨hs, rfl⟩⟩
  | @step s t a _ hstep ih =>
    obtain ⟨group, hdelivered, hpel, hr⟩ := ih
    obtain ⟨o, ho, -⟩ := alerts_of_step hstep.1
    obtain ⟨id, group', hx, hdelivered', hpel'⟩ := exists_queueTransition printer group o
    refine ⟨group', hdelivered'.trans hdelivered, hpel'.trans hpel, ?_⟩
    exact hr.step (a := .ingest a id) ⟨.ingest hstep.1 ho hx, hstep.2⟩

/-! ## A run on fixed inputs -/

/-- What persisters do while the ingestors wait. -/
theorem reachable_acts {acts : List (ω × AlertPersister.Act)} {i : Ingestor.State setup κ}
    {p q : AlertPersister.System K ω}
    (h : ((trails setup κ ω codec printer batch).guard TimedBars).Reachable ⟨i, p⟩)
    (hexec : Lts.exec (System.step codec batch) p (acts.map fun a => .act a.1 a.2) = some q) :
    ((trails setup κ ω codec printer batch).guard TimedBars).Reachable ⟨i, q⟩ := by
  induction acts generalizing p with
  | nil =>
    cases hexec
    exact h
  | cons a acts ih =>
    rw [List.map_cons, Lts.exec, Option.bind_eq_some_iff] at hexec
    obtain ⟨u, hu, hexec⟩ := hexec
    exact ih (h.step (a := .persist a.1 a.2) ⟨.persist hu, trivial⟩) hexec

/-- One persister reads the whole stream and acknowledges it. -/
def drainOnce : List (Unit × AlertPersister.Act) :=
  [((), .start), ((), .readPending), ((), .claim fun _ => true), ((), .read), ((), .insert), ((), .ack)]

/-- A text for every value: those of `known` are written as given. -/
def spell {α : Type} [DecidableEq α] [Encodable α] (known : List (α × String)) (x : α) : String :=
  (known.lookup x).getD (String.ofList (List.replicate (Encodable.encode x + 1) '~'))

/-- The value of a text. -/
def unspell {α : Type} [Encodable α] (known : List (α × String)) (raw : String) : Option α :=
  match known.find? (·.2 = raw) with
  | some p => some p.1
  | none => raw.toList.tail?.bind fun rest => Encodable.decode rest.length

theorem find?_of_mem_known {α : Type} {known : List (α × String)}
    (hdistinct : known.Pairwise fun p q => p.2 ≠ q.2) {p : α × String} (hp : p ∈ known) :
    known.find? (fun q => q.2 = p.2) = some p := by
  induction known with
  | nil => cases hp
  | cons q known ih =>
    obtain ⟨hq, hrest⟩ := List.pairwise_cons.mp hdistinct
    rcases List.mem_cons.mp hp with rfl | hp
    · simp
    · rw [List.find?_cons_of_neg (by simpa using hq p hp)]
      exact ih hrest hp

theorem unspell_spell {α : Type} [DecidableEq α] [Encodable α] {known : List (α × String)}
    (hdistinct : known.Pairwise fun p q => p.2 ≠ q.2) (hword : ∀ p ∈ known, p.2.toList.head? ≠ some '~')
    (x : α) : unspell known (spell known x) = some x := by
  unfold spell
  cases hx : known.lookup x with
  | some text =>
    have hmem : (x, text) ∈ known := by
      obtain ⟨l₁, l₂, rfl, -⟩ := List.lookup_eq_some_iff.mp hx
      simp
    rw [Option.getD_some, unspell, find?_of_mem_known hdistinct hmem]
  | none =>
    have hfind : known.find? (fun p => p.2 = String.ofList (List.replicate (Encodable.encode x + 1) '~')) =
        none := by
      rw [List.find?_eq_none]
      intro p hp heq
      have hne := hword p hp
      rw [of_decide_eq_true heq] at hne
      simp [List.replicate_succ] at hne
    rw [Option.getD_none, unspell, hfind]
    simp [List.replicate_succ]

def sampleNumbers : List (ℚ × String) := [(5, "5.0"), (3, "3.0"), (1, "1.0")]

def sampleInts : List (Int × String) := [(1, "1")]

def sampleTimes : List (Int × String) := [(1, "1970-01-01T00:00:00.000001+00:00")]

/-- The texts that Python writes for the values of the run. -/
def samplePrinter : AlertPrinter ℚ where
  repr := spell sampleNumbers
  int := spell sampleInts
  isoformat := spell sampleTimes
  fixed2 := spell [(5, "5.00")]
  seconds := spell [(0, "0")]

def trailCodec : Codec ℚ where
  float := unspell sampleNumbers
  int := unspell sampleInts
  fromisoformat raw := (unspell sampleTimes raw).map fun t => { wall := t, offset := some 0 }
  isFinite _ := true

theorem reads_sample : ReadsBack trailCodec samplePrinter where
  float := unspell_spell (by decide) (by decide)
  blank := by decide
  int := unspell_spell (by decide) (by decide)
  time t _ := by
    show ((unspell sampleTimes (spell sampleTimes t)).map fun t => IsoTime.mk t (some 0)).map _ = _
    rw [unspell_spell (by decide) (by decide)]
    simp [IsoTime.instant]
  isFinite _ := rfl

theorem reachable_timed_sampleEscalated :
    ((leaderships sampleSetup Nat).guard fun _ a => Timed a).Reachable sampleEscalated := by
  have hok : (adoptProvider sampleState.store ["EURUSD"] tiingo.name).2 = .ok none := rfl
  have hscan : ∀ p symbol v, (adoptProvider sampleState.store ["EURUSD"] tiingo.name).1.value
      (.archive p .regime symbol) = some v → (p, symbol) ∈ [("another", "EURUSD")] := by
    intro p symbol v h
    rcases value_sampleState h with h | h
    · cases h
    · cases h
      exact List.mem_singleton_self _
  have hidle : sampleState.process 0 = none := rfl
  have hM : ∀ s a t, Step sampleSetup s a t → Timed a →
      ((leaderships sampleSetup Nat).guard fun _ a => Timed a).step s a t :=
    fun _ _ _ hs ht => ⟨hs, ht⟩
  have hled := reachable_led hM (.init fresh_sampleState) (List.nodup_singleton "EURUSD") hidle rfl hok
    hscan (by simp [Timed, barTime]) (by simp [Timed, barTime]) (by simp [Timed, barTime])
  refine reachable_stint hM (List.nodup_singleton "EURUSD") hled (by decide) (Option.some_get _).symm ?_
  intro _ ts hts
  cases hts
  decide

/-- A persister that reads a stream of one entry stores its row and acknowledges it. -/
theorem exec_drainOnce {group : Group StreamId Fields Unit} {e : StreamId × Fields}
    (hlog : group.log = [e]) (hdelivered : group.delivered = 0) (hpel : group.pel = []) :
    ∃ p : AlertPersister.System ℚ Unit,
      Lts.exec (System.step trailCodec 10) { group, table := .empty, worker := fun _ => .down }
        (drainOnce.map fun a => .act a.1 a.2) = some p ∧ p.group.log = [e] ∧ p.group.acked = [e] := by
  obtain ⟨log, delivered, pel, hasc, hle, hsub⟩ := group
  cases hlog
  cases hdelivered
  cases hpel
  let claimed : Group StreamId Fields Unit :=
    (⟨[e], 0, [], hasc, hle, hsub⟩ : Group StreamId Fields Unit).xautoclaim () []
  have hacked : ((claimed.xreadNew () 10).xack [e.1]).acked = [e] := by
    simp [claimed, Group.acked, Group.xack, Group.xreadNew, Group.fresh, Group.xautoclaim]
  exact ⟨_, rfl, rfl, hacked⟩

/-- An escalation is committed while the persisters are down. -/
theorem reachable_parts_sample : ∃ group : Group StreamId Fields Unit,
    group.log.map Prod.snd = sampleEscalated.alerts.map (transitionFields samplePrinter) ∧
      (leaderships sampleSetup Nat).Reachable sampleEscalated ∧
      ((alertLts trailCodec 10).guard (DistinctAlerts trailCodec)).Reachable
        ⟨group, .empty, fun _ => .down⟩ := by
  obtain ⟨group, -, -, hr⟩ :=
    exists_trail (ω := Unit) trailCodec samplePrinter 10 reachable_timed_sampleEscalated
  obtain ⟨hingest, hpersist, hwritten⟩ := reachable_parts reads_sample hr
  exact ⟨group, hwritten.log, hingest, hpersist⟩

/-- It goes into the table. -/
theorem alert_events_exact_sample : ∃ s : Trail sampleSetup Nat Unit,
    ((trails sampleSetup Nat Unit trailCodec samplePrinter 10).guard TimedBars).Reachable s ∧
      s.ingest.alerts.map (·.seq) = [1] ∧
      s.persist.table.get? ("EURUSD", 1) =
        (committedUnder s.ingest.alerts ("EURUSD", 1)).map (alertRow samplePrinter) ∧
      (committedUnder s.ingest.alerts ("EURUSD", 1)).isSome := by
  obtain ⟨group, hdelivered, hpel, hr⟩ :=
    exists_trail (ω := Unit) trailCodec samplePrinter 10 reachable_timed_sampleEscalated
  obtain ⟨-, -, hwritten⟩ := reachable_parts reads_sample hr
  have hseqs : sampleEscalated.alerts.map (·.seq) = [1] := by decide +kernel
  have hsome : (committedUnder sampleEscalated.alerts ("EURUSD", 1)).isSome := by decide +kernel
  obtain ⟨tr, halerts, -⟩ := List.map_eq_singleton_iff.mp hseqs
  have hentries : group.log.map Prod.snd = [transitionFields samplePrinter tr] := by
    have hlog : group.log.map Prod.snd = sampleEscalated.alerts.map (transitionFields samplePrinter) :=
      hwritten.log
    rw [hlog, halerts]
    rfl
  obtain ⟨e, hlog, -⟩ := List.map_eq_singleton_iff.mp hentries
  obtain ⟨p, hexec, hplog, hpacked⟩ := exec_drainOnce hlog hdelivered hpel
  have hreach := reachable_acts hr hexec
  refine ⟨⟨sampleEscalated, p⟩, hreach, hseqs, ?_, hsome⟩
  refine (alert_events_exact reads_sample hreach).2.2.2 ?_ ("EURUSD", 1)
  show ∀ e ∈ p.group.log, e ∈ p.group.acked
  rw [hplog, hpacked]
  simp

end FxTracker.Worker.AlertTrail
