import FxTracker.Worker.AlertDelivery
import Mathlib.Data.Option.Basic

/-!
# The constraints of `alert_events`

`alert_events` of `003_alert_events.sql`, and what `AlertPersister._parse` lets through to it. A
batch is one statement: a row that the table refuses fails the rows beside it, and nothing of the
batch is acknowledged.

* `parseAlert_eq_some_iff` — what `_parse` reads, and what it checks
* `insertable_iff` — what it leaves to the database
* `isolated_iff` — where a bad entry does not fail its batch
-/

namespace FxTracker.Worker

variable {K : Type}

/-! ## The table -/

def IsBigint (n : Int) : Prop := -2 ^ 63 ≤ n ∧ n < 2 ^ 63

/-- The driver sends a time in UTC, in the years 1 to 9999 of Python's `datetime`. -/
def IsTimestamptz (t : Int) : Prop := -62135596800000000 ≤ t ∧ t < 253402300800000000

/-- `TEXT` holds no NUL. -/
def IsText (s : String) : Prop := Char.ofNat 0 ∉ s.toList

/-- The enum `regime`. -/
def regime : List String := ["normal", "stressed"]

/-- The enum `transition_cause`. -/
def transitionCause : List String := ["threshold", "baseline_thaw", "observation_lost"]

/-- Every value is one of its column's type. A `DOUBLE PRECISION` holds any float, and a null one is
allowed. -/
structure FitsColumns (r : AlertRow K) : Prop where
  symbol : IsText r.symbol
  seq : IsBigint r.seq
  ts : IsTimestamptz r.ts
  oldRegime : r.oldRegime ∈ regime
  newRegime : r.newRegime ∈ regime
  cause : r.cause ∈ transitionCause
  reason : IsText r.reason

/-- The two `CHECK`s. -/
structure MeetsChecks (r : AlertRow K) : Prop where
  isATransition : r.oldRegime ≠ r.newRegime
  triggerValuePresence : r.cause = "observation_lost" ∨ r.triggerValue.isSome

/-- The row satisfies every constraint but `UNIQUE (symbol, seq)`, whose conflicts are skipped. -/
structure Insertable (instruments : List String) (r : AlertRow K) : Prop where
  columns : FitsColumns r
  checks : MeetsChecks r
  symbol : r.symbol ∈ instruments

instance (n : Int) : Decidable (IsBigint n) := inferInstanceAs (Decidable (_ ∧ _))

instance (t : Int) : Decidable (IsTimestamptz t) := inferInstanceAs (Decidable (_ ∧ _))

instance (s : String) : Decidable (IsText s) := inferInstanceAs (Decidable (_ ∉ _))

instance (r : AlertRow K) : Decidable (FitsColumns r) :=
  decidable_of_iff (IsText r.symbol ∧ IsBigint r.seq ∧ IsTimestamptz r.ts ∧ r.oldRegime ∈ regime ∧
      r.newRegime ∈ regime ∧ r.cause ∈ transitionCause ∧ IsText r.reason)
    ⟨fun ⟨hs, hn, ht, ho, hw, hc, hr⟩ => ⟨hs, hn, ht, ho, hw, hc, hr⟩,
      fun ⟨hs, hn, ht, ho, hw, hc, hr⟩ => ⟨hs, hn, ht, ho, hw, hc, hr⟩⟩

instance (r : AlertRow K) : Decidable (MeetsChecks r) :=
  decidable_of_iff (r.oldRegime ≠ r.newRegime ∧ (r.cause = "observation_lost" ∨ r.triggerValue.isSome))
    ⟨fun ⟨ht, hp⟩ => ⟨ht, hp⟩, fun ⟨ht, hp⟩ => ⟨ht, hp⟩⟩

instance (instruments : List String) (r : AlertRow K) : Decidable (Insertable instruments r) :=
  decidable_of_iff (FitsColumns r ∧ MeetsChecks r ∧ r.symbol ∈ instruments)
    ⟨fun ⟨hc, hk, hs⟩ => ⟨hc, hk, hs⟩, fun ⟨hc, hk, hs⟩ => ⟨hc, hk, hs⟩⟩

/-- The statement goes through. The columns and the checks are made of every row, also of one that
then conflicts; the reference to `instruments` only of the rows it stores. -/
def Accepted (instruments : List String) (table : AlertTable K) (rows : List (AlertRow K)) : Prop :=
  (∀ r ∈ rows, FitsColumns r ∧ MeetsChecks r) ∧
    ∀ k ∈ (insertAlerts table rows).landed, k.1 ∈ instruments

instance (instruments : List String) (table : AlertTable K) (rows : List (AlertRow K)) :
    Decidable (Accepted instruments table rows) := inferInstanceAs (Decidable (_ ∧ _))

/-- What `_consume` leaves of a batch. -/
structure Consumed (K : Type) where
  table : AlertTable K
  /-- The entries counted by `fx_alerts_malformed_total`. -/
  malformed : Nat
  acked : List StreamId

/-- `_consume`. An exception of the `INSERT` (`none`) escapes before the `XACK`. -/
def AlertPersister.consumeBatch (codec : Codec K) (instruments : List String)
    (table : AlertTable K) (entries : List (StreamId × Fields)) : Option (Consumed K) := do
  let rows := rowsOf codec entries
  guard (Accepted instruments table rows)
  let flushed ← flushAlerts table rows
  return {
    table := flushed.table
    malformed := entries.countP fun e => (parseAlert codec e.2).isNone
    acked := entries.map Prod.fst }

/-! ## What `_parse` reads and checks -/

/-- The row holds what the fields say, and passes the checks of `_parse`. -/
structure ParsedAs (codec : Codec K) (fields : Fields) (r : AlertRow K) : Prop where
  symbol : fields.get? "s" = some r.symbol
  seq : (fields.get? "seq").bind codec.int = some r.seq
  ts : ((fields.get? "ts").bind codec.fromisoformat).map IsoTime.instant = some r.ts
  oldRegime : fields.get? "old_regime" = some r.oldRegime
  newRegime : fields.get? "new_regime" = some r.newRegime
  triggerValue : optionalFloat codec ((fields.get? "trigger_value").getD "") = some r.triggerValue
  thresholdValue : (fields.get? "threshold_value").bind codec.float = some r.thresholdValue
  sigma : optionalFloat codec ((fields.get? "sigma").getD "") = some r.sigma
  cause : fields.get? "cause" = some r.cause
  reason : (fields.get? "reason").getD "" = r.reason
  validRegimes : r.oldRegime ∈ validRegimes ∧ r.newRegime ∈ validRegimes
  changes : r.oldRegime ≠ r.newRegime
  validCause : r.cause ∈ validCauses

variable {codec : Codec K} {instruments : List String} {table : AlertTable K} {fields : Fields}
  {rows : List (AlertRow K)} {r : AlertRow K} {entries : List (StreamId × Fields)}

/-- **What `_parse` makes of an entry.** -/
theorem parseAlert_eq_some_iff : parseAlert codec fields = some r ↔ ParsedAs codec fields r := by
  constructor
  · intro h
    unfold parseAlert at h
    obtain ⟨old, hold, h⟩ := Option.bind_eq_some_iff.mp h
    obtain ⟨new, hnew, h⟩ := Option.bind_eq_some_iff.mp h
    obtain ⟨cause, hcause, h⟩ := Option.bind_eq_some_iff.mp h
    -- the three checks
    obtain ⟨_, hvalid, h⟩ := Option.bind_eq_some_iff.mp h
    obtain ⟨_, hne, h⟩ := Option.bind_eq_some_iff.mp h
    obtain ⟨_, hcauses, h⟩ := Option.bind_eq_some_iff.mp h
    rw [Option.guard_eq_some'] at hvalid hne hcauses
    obtain ⟨rawTs, hrawTs, h⟩ := Option.bind_eq_some_iff.mp h
    obtain ⟨t, ht, h⟩ := Option.bind_eq_some_iff.mp h
    obtain ⟨symbol, hsymbol, h⟩ := Option.bind_eq_some_iff.mp h
    obtain ⟨rawSeq, hrawSeq, h⟩ := Option.bind_eq_some_iff.mp h
    obtain ⟨seq, hseq, h⟩ := Option.bind_eq_some_iff.mp h
    obtain ⟨trigger, htrigger, h⟩ := Option.bind_eq_some_iff.mp h
    obtain ⟨rawThreshold, hrawThreshold, h⟩ := Option.bind_eq_some_iff.mp h
    obtain ⟨threshold, hthreshold, h⟩ := Option.bind_eq_some_iff.mp h
    obtain ⟨sigma, hsigma, h⟩ := Option.bind_eq_some_iff.mp h
    cases h
    exact {
      symbol := hsymbol
      seq := by rw [hrawSeq, Option.bind_some, hseq]
      ts := by rw [hrawTs, Option.bind_some, ht, Option.map_some]
      oldRegime := hold
      newRegime := hnew
      triggerValue := htrigger
      thresholdValue := by rw [hrawThreshold, Option.bind_some, hthreshold]
      sigma := hsigma
      cause := hcause
      reason := rfl
      validRegimes := hvalid
      changes := hne
      validCause := hcauses }
  · intro h
    obtain ⟨rawSeq, hrawSeq, hseq⟩ := Option.bind_eq_some_iff.mp h.seq
    obtain ⟨t, ht, hinstant⟩ := Option.map_eq_some_iff.mp h.ts
    obtain ⟨rawTs, hrawTs, ht⟩ := Option.bind_eq_some_iff.mp ht
    obtain ⟨rawThreshold, hrawThreshold, hthreshold⟩ := Option.bind_eq_some_iff.mp h.thresholdValue
    unfold parseAlert
    rw [h.oldRegime, h.newRegime, h.cause, hrawTs, h.symbol, hrawSeq, hrawThreshold, h.triggerValue,
      h.sigma, h.reason]
    simp only [Option.bind_eq_bind, Option.bind_some, Option.pure_def, guard, if_pos h.validRegimes,
      if_pos h.changes, if_pos h.validCause, ht, hseq, hthreshold, hinstant]

/-! ## What it leaves to the database -/

/-- Every field that `_parse` needs is there, and reads as it wants it. -/
structure Readable (codec : Codec K) (fields : Fields) : Prop where
  symbol : (fields.get? "s").isSome
  seq : ((fields.get? "seq").bind codec.int).isSome
  ts : ((fields.get? "ts").bind codec.fromisoformat).isSome
  regimes : ∃ old ∈ fields.get? "old_regime", ∃ new ∈ fields.get? "new_regime",
    (old ∈ validRegimes ∧ new ∈ validRegimes) ∧ old ≠ new
  triggerValue : (optionalFloat codec ((fields.get? "trigger_value").getD "")).isSome
  thresholdValue : ((fields.get? "threshold_value").bind codec.float).isSome
  sigma : (optionalFloat codec ((fields.get? "sigma").getD "")).isSome
  cause : ∃ cause ∈ fields.get? "cause", cause ∈ validCauses

/-- What `_parse` does not look at is as the table wants it. -/
structure Unrefused (codec : Codec K) (instruments : List String) (fields : Fields) : Prop where
  symbol : ∀ s ∈ fields.get? "s", IsText s ∧ s ∈ instruments
  seq : ∀ n ∈ (fields.get? "seq").bind codec.int, IsBigint n
  ts : ∀ t ∈ (fields.get? "ts").bind codec.fromisoformat, IsTimestamptz t.instant
  triggerValue : fields.get? "cause" = some "observation_lost" ∨
    ∃ raw ∈ fields.get? "trigger_value", raw ≠ "" ∧ ∃ x ∈ codec.float raw, codec.isFinite x
  reason : IsText ((fields.get? "reason").getD "")

/-- An entry parses just where it is readable. -/
theorem isSome_parseAlert_iff : (parseAlert codec fields).isSome ↔ Readable codec fields := by
  rw [Option.isSome_iff_exists]
  constructor
  · rintro ⟨r, hr⟩
    have h := parseAlert_eq_some_iff.mp hr
    exact {
      symbol := Option.isSome_of_eq_some h.symbol
      seq := Option.isSome_of_eq_some h.seq
      ts := by
        have hts := Option.isSome_of_eq_some h.ts
        rwa [Option.isSome_map] at hts
      regimes := ⟨r.oldRegime, h.oldRegime, r.newRegime, h.newRegime, h.validRegimes, h.changes⟩
      triggerValue := Option.isSome_of_eq_some h.triggerValue
      thresholdValue := Option.isSome_of_eq_some h.thresholdValue
      sigma := Option.isSome_of_eq_some h.sigma
      cause := ⟨r.cause, h.cause, h.validCause⟩ }
  · intro h
    obtain ⟨symbol, hsymbol⟩ := Option.isSome_iff_exists.mp h.symbol
    obtain ⟨seq, hseq⟩ := Option.isSome_iff_exists.mp h.seq
    obtain ⟨t, ht⟩ := Option.isSome_iff_exists.mp h.ts
    obtain ⟨old, hold, new, hnew, hvalid, hne⟩ := h.regimes
    obtain ⟨trigger, htrigger⟩ := Option.isSome_iff_exists.mp h.triggerValue
    obtain ⟨threshold, hthreshold⟩ := Option.isSome_iff_exists.mp h.thresholdValue
    obtain ⟨sigma, hsigma⟩ := Option.isSome_iff_exists.mp h.sigma
    obtain ⟨cause, hcause, hcauses⟩ := h.cause
    refine ⟨⟨symbol, seq, t.instant, old, new, trigger, threshold, sigma, cause, _⟩,
      parseAlert_eq_some_iff.mpr ⟨hsymbol, hseq, ?_, hold, hnew, htrigger, hthreshold, hsigma, hcause,
        rfl, hvalid, hne, hcauses⟩⟩
    rw [ht, Option.map_some]

/-- An optional float is not null just where a finite one is given. -/
theorem isSome_of_optionalFloat {raw : String} {value : Option K}
    (h : optionalFloat codec raw = some value) :
    value.isSome ↔ raw ≠ "" ∧ ∃ x ∈ codec.float raw, codec.isFinite x := by
  unfold optionalFloat at h
  split at h
  · next hraw =>
    cases h
    simp [hraw]
  · next hraw =>
    simp only [Option.bind_eq_bind, Option.bind_eq_some_iff, Option.pure_def, Option.some.injEq] at h
    obtain ⟨x, hx, rfl⟩ := h
    rw [hx]
    cases hfin : codec.isFinite x <;> simp [hraw, hfin]

/-- **What `_parse` leaves to the database.** -/
theorem insertable_iff (h : ParsedAs codec fields r) :
    Insertable instruments r ↔ Unrefused codec instruments fields := by
  have hgiven : r.triggerValue.isSome ↔
      ∃ raw ∈ fields.get? "trigger_value", raw ≠ "" ∧ ∃ x ∈ codec.float raw, codec.isFinite x := by
    rw [isSome_of_optionalFloat h.triggerValue]
    cases hraw : fields.get? "trigger_value" with
    | none => simp
    | some raw => simp
  constructor
  · intro hr
    refine ⟨?_, ?_, ?_, ?_, ?_⟩
    · intro s hs
      rw [h.symbol] at hs
      cases hs
      exact ⟨hr.columns.symbol, hr.symbol⟩
    · intro n hn
      rw [h.seq] at hn
      cases hn
      exact hr.columns.seq
    · intro t ht
      have hts := h.ts
      rw [ht, Option.map_some, Option.some.injEq] at hts
      rw [hts]
      exact hr.columns.ts
    · rw [h.cause, Option.some.injEq, ← hgiven]
      exact hr.checks.triggerValuePresence
    · rw [h.reason]
      exact hr.columns.reason
  · intro hf
    obtain ⟨t, ht, hts⟩ := Option.map_eq_some_iff.mp h.ts
    have hsymbol := hf.symbol r.symbol h.symbol
    have htrigger := hf.triggerValue
    rw [h.cause, Option.some.injEq, ← hgiven] at htrigger
    refine ⟨⟨hsymbol.1, hf.seq r.seq h.seq, hts ▸ hf.ts t ht, h.validRegimes.1, h.validRegimes.2,
      h.validCause, h.reason ▸ hf.reason⟩, ⟨h.changes, htrigger⟩, hsymbol.2⟩

/-! ## A batch -/

/-- The references of the stored rows hold. -/
def Referenced (instruments : List String) (table : AlertTable K) : Prop :=
  ∀ k r, table.get? k = some r → k.1 ∈ instruments

/-- The rows of a batch that the table takes. -/
def validRows (codec : Codec K) (instruments : List String) (entries : List (StreamId × Fields)) :
    List (AlertRow K) :=
  (AlertPersister.rowsOf codec entries).filter (Insertable instruments ·)

/-- The batch is acknowledged, its valid rows are inserted, and each other entry is counted as
malformed. -/
def Isolated (codec : Codec K) (instruments : List String) (table : AlertTable K)
    (entries : List (StreamId × Fields)) : Prop :=
  ∃ out, AlertPersister.consumeBatch codec instruments table entries = some out ∧
    out.acked = entries.map Prod.fst ∧
    out.table = (insertAlerts table (validRows codec instruments entries)).table ∧
    out.malformed + (validRows codec instruments entries).length = entries.length

/-- A statement goes through where every row is insertable, and nowhere else. -/
theorem accepted_iff (h : Referenced instruments table) :
    Accepted instruments table rows ↔ ∀ r ∈ rows, Insertable instruments r := by
  constructor
  · intro hacc r hr
    refine ⟨(hacc.1 r hr).1, (hacc.1 r hr).2, ?_⟩
    cases hstored : table.get? r.key with
    | none => exact hacc.2 r.key (mem_landed_iff.mpr ⟨hstored, List.mem_map_of_mem hr⟩)
    | some stored => exact h r.key stored hstored
  · intro hall
    refine ⟨fun r hr => ⟨(hall r hr).columns, (hall r hr).checks⟩, fun k hk => ?_⟩
    obtain ⟨r, hr, rfl⟩ := List.mem_map.mp (mem_landed_iff.mp hk).2
    exact (hall r hr).symbol

/-- What `_consume` leaves, where the statement goes through. -/
theorem consumeBatch_of_accepted
    (h : Accepted instruments table (AlertPersister.rowsOf codec entries)) :
    AlertPersister.consumeBatch codec instruments table entries =
      some ⟨(insertAlerts table (AlertPersister.rowsOf codec entries)).table,
        entries.countP fun e => (parseAlert codec e.2).isNone, entries.map Prod.fst⟩ := by
  obtain ⟨verdicts, hflush, -, -⟩ := flushAlerts_eq table (AlertPersister.rowsOf codec entries)
  simp only [AlertPersister.consumeBatch, guard, if_pos h, hflush, Option.bind_eq_bind,
    Option.pure_def, Option.bind_some]
  rfl

/-- A row that the table refuses fails the batch, whatever stands beside it. -/
theorem accepted_of_consumeBatch {out : Consumed K}
    (h : AlertPersister.consumeBatch codec instruments table entries = some out) :
    Accepted instruments table (AlertPersister.rowsOf codec entries) := by
  simp only [AlertPersister.consumeBatch, Option.bind_eq_bind, Option.bind_eq_some_iff,
    Option.guard_eq_some'] at h
  obtain ⟨_, hacc, -⟩ := h
  exact hacc

/-- The entries that do not parse and the rows of the others are all there is. -/
theorem countP_add_length_rowsOf (codec : Codec K) (entries : List (StreamId × Fields)) :
    (entries.countP fun e => (parseAlert codec e.2).isNone) +
      (AlertPersister.rowsOf codec entries).length = entries.length := by
  rw [AlertPersister.rowsOf, List.length_filterMap_eq_countP,
    List.length_eq_countP_add_countP fun e => (parseAlert codec e.2).isNone]
  congr 2
  funext e
  cases parseAlert codec e.2 <;> rfl

/-- The rows of a batch are insertable where no entry that parses is refused. -/
theorem insertable_rowsOf_iff : (∀ r ∈ AlertPersister.rowsOf codec entries, Insertable instruments r) ↔
    ∀ e ∈ entries, Readable codec e.2 → Unrefused codec instruments e.2 := by
  constructor
  · intro hall e he hread
    obtain ⟨r, hr⟩ := Option.isSome_iff_exists.mp (isSome_parseAlert_iff.mpr hread)
    exact (insertable_iff (parseAlert_eq_some_iff.mp hr)).mp
      (hall r (List.mem_filterMap.mpr ⟨e, he, hr⟩))
  · intro hall r hr
    obtain ⟨e, he, hp⟩ := List.mem_filterMap.mp hr
    exact (insertable_iff (parseAlert_eq_some_iff.mp hp)).mpr
      (hall e he (isSome_parseAlert_iff.mp (Option.isSome_of_eq_some hp)))

theorem isolated_iff (h : Referenced instruments table) : Isolated codec instruments table entries ↔
    ∀ e ∈ entries, Readable codec e.2 → Unrefused codec instruments e.2 := by
  rw [← insertable_rowsOf_iff, ← accepted_iff h]
  constructor
  · rintro ⟨out, hout, -⟩
    exact accepted_of_consumeBatch hout
  · intro hacc
    have hrows : validRows codec instruments entries = AlertPersister.rowsOf codec entries :=
      List.filter_eq_self.mpr fun r hr => decide_eq_true ((accepted_iff h).mp hacc r hr)
    refine ⟨_, consumeBatch_of_accepted hacc, rfl, ?_, ?_⟩
    · rw [hrows]
    · rw [hrows]
      exact countP_add_length_rowsOf codec entries

/-- **Where an entry is malformed or insertable.** -/
theorem malformed_or_insertable_iff :
    (parseAlert codec fields = none ∨
      ∃ r, parseAlert codec fields = some r ∧ Insertable instruments r) ↔
    (Readable codec fields → Unrefused codec instruments fields) := by
  constructor
  · rintro (hnone | ⟨r, hr, hinsertable⟩) hread
    · rw [← isSome_parseAlert_iff, hnone] at hread
      cases hread
    · exact (insertable_iff (parseAlert_eq_some_iff.mp hr)).mp hinsertable
  · intro h
    cases hr : parseAlert codec fields with
    | none => exact .inl rfl
    | some r =>
      refine .inr ⟨r, rfl, (insertable_iff (parseAlert_eq_some_iff.mp hr)).mpr (h ?_)⟩
      exact isSome_parseAlert_iff.mp (Option.isSome_of_eq_some hr)

/--
**Alert batch isolation.**

An entry either does not parse or gives a row that satisfies every constraint just where, if it is
readable, its `seq` is a `BIGINT`, its time is one of the years 1 to 9999 in UTC, its symbol is an
instrument, its texts hold no NUL, and a finite trigger value is given unless the cause is
`observation_lost`. A bad entry leaves the rows of its batch alone just where this is so of every
entry of it.
-/
theorem alert_batch_isolated_iff (codec : Codec K) (instruments : List String) :
    (∀ fields, (parseAlert codec fields = none ∨
        ∃ r, parseAlert codec fields = some r ∧ Insertable instruments r) ↔
      (Readable codec fields → Unrefused codec instruments fields)) ∧
    ∀ table entries, Referenced instruments table → (Isolated codec instruments table entries ↔
      ∀ e ∈ entries, Readable codec e.2 → Unrefused codec instruments e.2) :=
  ⟨fun _ => malformed_or_insertable_iff, fun _ _ h => isolated_iff h⟩

open AlertPersister

/-- A malformed entry beside a valid one. -/
theorem alert_batch_isolated_malformed :
    Isolated sampleCodec ["EURUSD"] .empty
      [(toLex (5, 0), ⟨[("s", "EURUSD")], by decide⟩), (toLex (5, 1), sampleFields)] := by
  refine ((alert_batch_isolated_iff sampleCodec ["EURUSD"]).2 .empty _ nofun).mpr ?_
  rw [← insertable_rowsOf_iff]
  decide

/-- A threshold crossing without a trigger value. -/
def blankTrigger : Fields :=
  ⟨[("s", "EURUSD"), ("seq", "1"), ("ts", "1970-01-01T00:00:00+00:00"), ("old_regime", "normal"),
    ("new_regime", "stressed"), ("trigger_value", ""), ("threshold_value", "3"),
    ("cause", "threshold")], by decide⟩

/-- It parses to a row that the table refuses, and fails the valid row beside it. -/
theorem blank_trigger_fails_batch :
    (∃ r, parseAlert sampleCodec blankTrigger = some r ∧ ¬ Insertable ["EURUSD"] r) ∧
    (consumeBatch sampleCodec ["EURUSD"] .empty [(toLex (5, 1), sampleFields)]).isSome ∧
    consumeBatch sampleCodec ["EURUSD"] .empty
      [(toLex (5, 0), blankTrigger), (toLex (5, 1), sampleFields)] = none := by
  refine ⟨⟨_, rfl, ?_⟩, ?_, ?_⟩ <;> decide

end FxTracker.Worker
