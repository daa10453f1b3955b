import FxTracker.Ingestor.Planning
import FxTracker.Lib.Lts

/-!
# What recovery asks for, over many runs

`HistoryRecovery` and the span records of `RecoveryStore` (`fx_ingestor/recovery.py`). A run passes
over what the records say was settled, or asked for within the hour; it records every span it asks
for. Instants are microseconds. What a run reports, the hot cache and the rollups are left out: no
request depends on them.

* `requestAll_spec` — what a run asks for is recorded
* `asked_apart` — where a list names no symbol twice, or its gaps are short, no minute is asked for again
  within the hour, nor after it is settled
* `asked_twice_of_symbol_twice` — a symbol listed twice, and a gap of two requests
-/

namespace FxTracker.Ingestor.Asking

open Recovery Worker

variable {K : Type}

/-- `SETTLE`. -/
def settle : Int := 3600 * 1000000

/-- `AUTH_BACKOFF` and `RATE_LIMIT_BACKOFF`. -/
def authBackoff : Int := 6 * 3600 * 1000000

def rateLimitBackoff : Int := 15 * 60 * 1000000

/-- The `status` of a span; `partially` is `partial` in the source. -/
inductive Status
  | recovered
  | partially
  | silent
  | failed
  deriving DecidableEq

/-- A row of `history_recovery_spans`. -/
structure SpanRecord where
  runId : Nat
  symbol : String
  start : Int
  last : Int
  status : Status
  fetchedAt : Int
  deriving DecidableEq

/-- What a provider raises: an authentication, rate limit or entitlement error, or any other
`ProviderError`. -/
inductive Failure
  | auth
  | rateLimit (retryAfter : Option Int)
  | entitlement
  | other

/-- What a process remembers of refusals. -/
structure Memory where
  blockedUntil : Option Int
  symbolBlockedUntil : Dict String Int

/-- A provider request that was made, and whether it succeeded. -/
structure Asked where
  now : Int
  request : Request
  answered : Bool

/-- It covers a minute of a symbol. -/
def Asked.Covers (a : Asked) (k : BarKey) : Prop :=
  a.request.symbol = k.1 ∧ ∃ span ∈ a.request.spans, k.2 ∈ span.eachMinute

/-- One apply-mode run: its settings, and what it meets. -/
structure Run (K : Type) where
  id : Nat
  now : Int
  window : Option Window
  symbols : List String
  isOpen : Int → Bool
  maxRequests : Nat
  days : Int
  /-- `stop` is set before a request. -/
  stop : Nat → Bool
  /-- The allowance has room for a request. -/
  quota : Nat → Bool
  answer : Nat → Except Failure (List (Bar K))
  /-- A window is of whole minutes. -/
  whole : ∀ w ∈ window, 60 ∣ w.start
  /-- `Field(ge=1)`. -/
  days_pos : 1 ≤ days

structure State (K : Type) where
  now : Int
  store : Store K
  records : List SpanRecord
  memory : Memory
  asked : List Asked

/-- `RecoveryStore.settled`. -/
def settledSpans (records : List SpanRecord) (symbol : String) (window : Window) : List (Int × Int) :=
  (records.filter fun r =>
    r.symbol = symbol ∧ r.status ≠ .failed ∧ window.start ≤ r.last ∧ r.start ≤ window.last ∧
      r.last * 1000000 + settle ≤ r.fetchedAt).map fun r => (r.start, r.last)

/-- `RecoveryStore.asked_since`. -/
def askedSince (records : List SpanRecord) (symbol : String) (window : Window) (since : Int) :
    List (Int × Int) :=
  (records.filter fun r =>
    r.symbol = symbol ∧ window.start ≤ r.last ∧ r.start ≤ window.last ∧ since < r.fetchedAt).map
      fun r => (r.start, r.last)

/-- One row of `record_spans`: `ON CONFLICT (run_id, symbol, span_start) DO NOTHING`. -/
def recordSpan (records : List SpanRecord) (r : SpanRecord) : List SpanRecord :=
  if ∃ q ∈ records, q.runId = r.runId ∧ q.symbol = r.symbol ∧ q.start = r.start then records
  else records ++ [r]

/-- The result of a span, from the minutes received. -/
def statusOf (got minutes : Nat) : Status :=
  if got = minutes then .recovered else if got = 0 then .silent else .partially

section Run

variable [Zero K] (instruments : List String) (run : Run K)

/-- A span of a request as it is recorded. -/
def result (request : Request) (answer : Except Failure (List (Bar K))) (a : Span) : SpanRecord where
  runId := run.id
  symbol := a.symbol
  start := a.start
  last := a.last
  status :=
    match answer with
    | .error _ => .failed
    | .ok bars =>
      let got := received request.symbol (request.spans.flatMap Span.eachMinute) bars
      statusOf (a.eachMinute.countP fun m => got.contains m) a.eachMinute.length
  fetchedAt := run.now

/-- `_fetch`: one provider request, written through; `none` where the insertion raises. -/
def fetch (s : State K) (request : Request) (answer : Except Failure (List (Bar K))) :
    Option (State K) :=
  let records := (request.spans.map (result run request answer)).foldl recordSpan s.records
  match answer with
  | .error _ => some { s with records, asked := s.asked ++ [⟨run.now, request, false⟩] }
  | .ok bars =>
    let got := received request.symbol (request.spans.flatMap Span.eachMinute) bars
    (insertBars instruments run.id s.store got.values).map fun store =>
      { s with store, records, asked := s.asked ++ [⟨run.now, request, true⟩] }

/-- `_request_all`, from request `i` on; `none` where an exception ends the run. -/
def requestAll : Nat → List Request → List String → State K → Option (State K)
  | _, [], _, s => some s
  | i, request :: rest, refused, s =>
    if run.stop i then some s
    else if request.symbol ∈ refused then requestAll (i + 1) rest refused s
    else if run.quota i = false then some s
    else
      (fetch instruments run s request (run.answer i)).bind fun s =>
        match run.answer i with
        | .error .auth =>
          some { s with memory := { s.memory with blockedUntil := some (run.now + authBackoff) } }
        | .error (.rateLimit retryAfter) =>
          let wait := max (retryAfter.getD 0) rateLimitBackoff
          some { s with memory := { s.memory with blockedUntil := some (run.now + wait) } }
        | .error .entitlement =>
          let blocked := s.memory.symbolBlockedUntil.set request.symbol (run.now + authBackoff)
          requestAll (i + 1) rest (request.symbol :: refused)
            { s with memory := { s.memory with symbolBlockedUntil := blocked } }
        | .error .other => requestAll (i + 1) rest refused s
        | .ok _ => requestAll (i + 1) rest refused s

/-- The minutes of a symbol that a run may ask for: `_missing`. -/
def askableMinutes (s : State K) (window : Window) (symbol : String) : List Int :=
  missingMinutes (openMinutes run.isOpen window) (present s.store.table symbol window)
    (settledSpans s.records symbol window ++ askedSince s.records symbol window (run.now - settle))

/-- They as spans. -/
def askableSpans (s : State K) (window : Window) : List Span :=
  run.symbols.flatMap fun symbol =>
    missingSpans symbol (openMinutes run.isOpen window) (present s.store.table symbol window)
      (settledSpans s.records symbol window ++ askedSince s.records symbol window (run.now - settle))

/-- The requests a run plans. The cutting loop ends in these rounds. -/
def planned (s : State K) (window : Window) : Option (List Request) :=
  let spans := askableSpans run s window
  (planRequests spans run.days (roundsFor spans)).map fun requests =>
    requests.filter fun r => s.memory.symbolBlockedUntil.get? r.symbol |>.all (· ≤ run.now)

/-- `run_once` with `apply`; `none` where an exception ends it. -/
def runOnce (s : State K) : Option (State K) :=
  if s.memory.blockedUntil.any (run.now < ·) then some s
  else
    match run.window with
    | none => some s
    | some window =>
      (planned run s window).bind fun requests =>
        requestAll instruments run 0 (requests.take run.maxRequests) [] s

end Run

inductive Action (K : Type)
  /-- Others write, change and delete rows of `bars_1m`. -/
  | world (store : Store K)
  /-- Another process, or the same after a restart. -/
  | process (memory : Memory)
  /-- A run that completes. -/
  | run (run : Run K)

/-- Run times do not decrease, and a run id is not used again. -/
def step [Zero K] (instruments : List String) (s : State K) : Action K → Option (State K)
  | .world store => some { s with store }
  | .process memory => some { s with memory }
  | .run run =>
    if s.now ≤ run.now ∧ ∀ r ∈ s.records, r.runId ≠ run.id then
      runOnce instruments run { s with now := run.now }
    else none

def init (store : Store K) (memory : Memory) (now : Int) : State K := ⟨now, store, [], memory, []⟩

/-- The runs from a state with no records. -/
def system [Zero K] (instruments : List String) (store : Store K) (memory : Memory) (now : Int) :
    Lts (State K) (Action K) :=
  .ofFn (init store memory now) (step instruments)

/-- Two requests for one minute are an hour apart, and a settled minute is not asked for again. -/
def NeverTooSoon (s : State K) : Prop :=
  s.asked.Pairwise fun a b => ∀ k, a.Covers k → b.Covers k →
    a.now + settle ≤ b.now ∧
      ∀ span ∈ a.request.spans, k.2 ∈ span.eachMinute → a.answered = true →
        a.now < span.last * 1000000 + settle

/-- A symbol that a run lists twice has no gap over more UTC days than a request takes. -/
def GapsFit (s : State K) : Action K → Prop
  | .run run => ∀ window ∈ run.window, ∀ symbol, 2 ≤ run.symbols.count symbol →
      ∀ a b, 60 ∣ a → 60 ∣ b → a ≤ b →
        (∀ m, a ≤ m → m ≤ b → 60 ∣ m → m ∈ askableMinutes run s window symbol) →
          b / 86400 - a / 86400 < run.days
  | _ => True

/-! ## Recording -/

/-- **What is recorded**: all of it, where nothing else has its key. -/
theorem mem_foldl_recordSpan {records new : List SpanRecord}
    (hfree : ∀ q ∈ records, ∀ r ∈ new, q.runId = r.runId → q.symbol = r.symbol → q.start = r.start →
      q = r)
    (hsame : ∀ q ∈ new, ∀ r ∈ new, q.symbol = r.symbol → q.start = r.start → q = r) (q : SpanRecord) :
    q ∈ new.foldl recordSpan records ↔ q ∈ records ∨ q ∈ new := by
  induction new generalizing records with
  | nil => simp
  | cons r new ih =>
    have hmem : ∀ p, p ∈ recordSpan records r ↔ p ∈ records ∨ p = r := by
      intro p
      unfold recordSpan
      split
      · next h =>
        obtain ⟨q, hq, hid, hsymbol, hstart⟩ := h
        have heq := hfree q hq r (List.mem_cons_self ..) hid hsymbol hstart
        refine ⟨Or.inl, ?_⟩
        rintro (hp | rfl)
        · exact hp
        · exact heq ▸ hq
      · rw [List.mem_append, List.mem_singleton]
    have hnew : ∀ p ∈ new, p ∈ r :: new := fun p hp => List.mem_cons_of_mem _ hp
    rw [List.foldl_cons, ih, hmem, List.mem_cons, or_assoc]
    · intro q hq p hp hid hsymbol hstart
      rcases (hmem q).mp hq with hq | rfl
      · exact hfree q hq p (hnew p hp) hid hsymbol hstart
      · exact hsame q (List.mem_cons_self ..) p (hnew p hp) hsymbol hstart
    · exact fun q hq p hp => hsame q (hnew q hq) p (hnew p hp)

/-- The spans of a request are on record, with the time of its run. -/
def Recorded (records : List SpanRecord) (a : Asked) : Prop :=
  ∀ span ∈ a.request.spans, ∃ r ∈ records, r.symbol = a.request.symbol ∧ r.start = span.start ∧
    r.last = span.last ∧ r.fetchedAt = a.now ∧ (a.answered = true → r.status ≠ .failed)

theorem Recorded.mono {records records' : List SpanRecord} {a : Asked} (h : Recorded records a)
    (hsub : ∀ r ∈ records, r ∈ records') : Recorded records' a := by
  intro span hspan
  obtain ⟨r, hr, hrec⟩ := h span hspan
  exact ⟨r, hsub r hr, hrec⟩

theorem statusOf_ne_failed (got minutes : Nat) : statusOf got minutes ≠ .failed := by
  unfold statusOf
  split
  · simp
  · split <;> simp

/-- The loop between two requests: those that are left have no records of this run. -/
structure Ready (run : Run K) (s : State K) (requests : List Request) : Prop where
  apart : requests.Pairwise fun r r' => r.symbol = r'.symbol →
    ∀ a ∈ r.spans, ∀ b ∈ r'.spans, a.last < b.start
  own : ∀ r ∈ requests, ∀ a ∈ r.spans, a.symbol = r.symbol ∧ a.start ≤ a.last
  distinct : ∀ r ∈ requests, ∀ a ∈ r.spans, ∀ b ∈ r.spans, a.start = b.start → a = b
  free : ∀ q ∈ s.records, q.runId = run.id → ∀ r ∈ requests, ∀ a ∈ r.spans, q.symbol = a.symbol →
    q.start ≠ a.start
  recorded : ∀ a ∈ s.asked, Recorded s.records a

theorem Ready.tail {run : Run K} {s : State K} {r : Request} {rest : List Request}
    (h : Ready run s (r :: rest)) : Ready run s rest where
  apart := (List.pairwise_cons.mp h.apart).2
  own := fun r' hr' => h.own r' (List.mem_cons_of_mem _ hr')
  distinct := fun r' hr' => h.distinct r' (List.mem_cons_of_mem _ hr')
  free := fun q hq hid r' hr' => h.free q hq hid r' (List.mem_cons_of_mem _ hr')
  recorded := h.recorded

section Request

variable [Zero K] {instruments : List String} {run : Run K} {s t : State K}

/-- **One request**: its spans are recorded. -/
theorem fetch_spec {request : Request} {rest : List Request} (h : Ready run s (request :: rest))
    {answer : Except Failure (List (Bar K))} (hf : fetch instruments run s request answer = some t) :
    Ready run t rest ∧
      ∃ answered, t.asked = s.asked ++ [⟨run.now, request, answered⟩] := by
  have hrequest := List.mem_cons_self (a := request) (l := rest)
  obtain ⟨records, hrecords⟩ : ∃ records, records =
    (request.spans.map (result run request answer)).foldl recordSpan s.records := ⟨_, rfl⟩
  -- no span overwrites the record of another
  have hmem : ∀ q, q ∈ records ↔ q ∈ s.records ∨ q ∈ request.spans.map (result run request answer) := by
    intro q
    rw [hrecords]
    refine mem_foldl_recordSpan (fun p hp r hr hid hsymbol hstart => ?_) (fun p hp r hr _ hstart => ?_) q
    · obtain ⟨a, ha, rfl⟩ := List.mem_map.mp hr
      exact absurd hstart (h.free p hp hid request hrequest a ha hsymbol)
    · obtain ⟨a, ha, rfl⟩ := List.mem_map.mp hp
      obtain ⟨b, hb, rfl⟩ := List.mem_map.mp hr
      rw [h.distinct request hrequest a ha b hb hstart]
  have hfields : t.records = records ∧
      ∃ answered, t.asked = s.asked ++ [⟨run.now, request, answered⟩] ∧
        (answered = true → ∃ bars, answer = .ok bars) := by
    unfold fetch at hf
    dsimp only at hf
    rw [← hrecords] at hf
    cases answer with
    | error e =>
      cases hf
      exact ⟨rfl, false, rfl, by simp⟩
    | ok bars =>
      obtain ⟨store, -, rfl⟩ := Option.map_eq_some_iff.mp hf
      exact ⟨rfl, true, rfl, fun _ => ⟨bars, rfl⟩⟩
  obtain ⟨htrec, answered, htasked, hanswered⟩ := hfields
  have htail := h.tail
  refine ⟨⟨htail.apart, htail.own, htail.distinct, ?_, ?_⟩, answered, htasked⟩
  · intro q hq hid r hr a ha hsymbol
    rw [htrec, hmem] at hq
    rcases hq with hq | hq
    · exact htail.free q hq hid r hr a ha hsymbol
    · -- recorded just now, and later requests are after it
      obtain ⟨b, hb, rfl⟩ := List.mem_map.mp hq
      obtain ⟨hbsym, hble⟩ := h.own request hrequest b hb
      have hasym := (htail.own r hr a ha).1
      have hlt := (List.pairwise_cons.mp h.apart).1 r hr
        (hbsym.symm.trans (hsymbol.trans hasym)) b hb a ha
      show b.start ≠ a.start
      omega
  · intro a ha
    rw [htasked] at ha
    rcases List.mem_append.mp ha with ha | ha
    · exact (h.recorded a ha).mono fun r hr => htrec ▸ (hmem r).mpr (.inl hr)
    · rw [List.mem_singleton.mp ha]
      intro span hspan
      refine ⟨result run request answer span,
        htrec ▸ (hmem _).mpr (.inr (List.mem_map_of_mem hspan)),
        (h.own request hrequest span hspan).1, rfl, rfl, rfl, fun hans => ?_⟩
      obtain ⟨bars, rfl⟩ := hanswered hans
      exact statusOf_ne_failed _ _

/-- **What a run asks for**: some of the requests, in order, and their spans are recorded. -/
theorem requestAll_spec {i : Nat} {requests : List Request} {refused : List String}
    (h : Ready run s requests) (hr : requestAll instruments run i requests refused s = some t) :
    ∃ made, t.asked = s.asked ++ made ∧ (made.map Asked.request).Sublist requests ∧
      (∀ a ∈ made, a.now = run.now) ∧ ∀ a ∈ t.asked, Recorded t.records a := by
  induction requests generalizing i refused s with
  | nil =>
    cases hr
    exact ⟨[], by simp, by simp, by simp, h.recorded⟩
  | cons request rest ih =>
    have hnone : ∃ made, s.asked = s.asked ++ made ∧ (made.map Asked.request).Sublist (request :: rest) ∧
        (∀ a ∈ made, a.now = run.now) ∧ ∀ a ∈ s.asked, Recorded s.records a :=
      ⟨[], by simp, by simp, by simp, h.recorded⟩
    rw [requestAll] at hr
    split at hr
    · cases hr
      exact hnone
    · split at hr
      · obtain ⟨made, hasked, hsub, hrest⟩ := ih h.tail hr
        exact ⟨made, hasked, hsub.cons _, hrest⟩
      · split at hr
        · cases hr
          exact hnone
        · obtain ⟨u, hu, hr⟩ := Option.bind_eq_some_iff.mp hr
          obtain ⟨hready, answered, hasked⟩ := fetch_spec h hu
          -- the run ends here, or goes on with the rest
          have hend : ∀ v : State K, v.asked = u.asked → v.records = u.records →
              ∃ made, v.asked = s.asked ++ made ∧ (made.map Asked.request).Sublist (request :: rest) ∧
                (∀ a ∈ made, a.now = run.now) ∧ ∀ a ∈ v.asked, Recorded v.records a := by
            intro v hva hvr
            refine ⟨[⟨run.now, request, answered⟩], hva.trans hasked, by simp, by simp, ?_⟩
            rw [hva, hvr]
            exact hready.recorded
          have hgo : ∀ (v : State K) (refused : List String), v.asked = u.asked → v.records = u.records →
              requestAll instruments run (i + 1) rest refused v = some t →
              ∃ made, t.asked = s.asked ++ made ∧ (made.map Asked.request).Sublist (request :: rest) ∧
                (∀ a ∈ made, a.now = run.now) ∧ ∀ a ∈ t.asked, Recorded t.records a := by
            intro v refused hva hvr hv
            have hv' : Ready run v rest :=
              ⟨hready.apart, hready.own, hready.distinct, by rw [hvr]; exact hready.free,
                by rw [hva, hvr]; exact hready.recorded⟩
            obtain ⟨made, hmade, hsub, hnow, hrec⟩ := ih hv' hv
            refine ⟨⟨run.now, request, answered⟩ :: made, ?_, hsub.cons_cons _,
              List.forall_mem_cons.mpr ⟨rfl, hnow⟩, hrec⟩
            rw [hmade, hva, hasked, List.append_assoc, List.singleton_append]
          split at hr
          · cases hr
            exact hend _ rfl rfl
          · cases hr
            exact hend _ rfl rfl
          · dsimp only at hr
            exact hgo _ _ (by rfl) (by rfl) hr
          · exact hgo u _ rfl rfl hr
          · exact hgo u _ rfl rfl hr

end Request

/-! ## The plan of a run -/

theorem pairwise_openMinutes (isOpen : Int → Bool) (window : Window) :
    (openMinutes isOpen window).Pairwise (· < ·) := by
  refine List.Pairwise.filter _ (List.pairwise_map.mpr (List.pairwise_lt_range.imp fun h => ?_))
  omega

theorem dvd_of_mem_openMinutes {isOpen : Int → Bool} {window : Window} (h : 60 ∣ window.start) {m : Int}
    (hm : m ∈ openMinutes isOpen window) : 60 ∣ m := by
  obtain ⟨hm, -⟩ := List.mem_filter.mp hm
  obtain ⟨i, -, rfl⟩ := List.mem_map.mp hm
  omega

section Plan

variable {run : Run K} {s : State K} {window : Window}

/-- The askable spans of one symbol. -/
theorem askable_separated (hwindow : 60 ∣ window.start) (symbol : String) :
    Separated symbol (missingSpans symbol (openMinutes run.isOpen window)
      (present s.store.table symbol window)
      (settledSpans s.records symbol window ++
        askedSince s.records symbol window (run.now - settle))) :=
  (missingSpans_spec (pairwise_openMinutes _ _) fun _ hm => dvd_of_mem_openMinutes hwindow hm).1

theorem mem_askableSpans (hwindow : 60 ∣ window.start) {a : Span} :
    a ∈ askableSpans run s window ↔ a.symbol ∈ run.symbols ∧
      a ∈ missingSpans a.symbol (openMinutes run.isOpen window) (present s.store.table a.symbol window)
        (settledSpans s.records a.symbol window ++
          askedSince s.records a.symbol window (run.now - settle)) := by
  unfold askableSpans
  rw [List.mem_flatMap]
  constructor
  · rintro ⟨symbol, hsymbol, ha⟩
    have hsym := (askable_separated hwindow symbol).symbol a ha
    rw [hsym]
    exact ⟨hsymbol, ha⟩
  · exact fun h => ⟨a.symbol, h.1, h.2⟩

/-- A minute of an askable span is askable. -/
theorem mem_askableMinutes (hwindow : 60 ∣ window.start) {a : Span}
    (ha : a ∈ askableSpans run s window) {m : Int} (hm : m ∈ a.eachMinute) :
    m ∈ askableMinutes run s window a.symbol :=
  (maximal_of_mem (pairwise_openMinutes _ _) (fun _ hn => dvd_of_mem_openMinutes hwindow hn)
    ((mem_askableSpans hwindow).mp ha).2).covers m hm

/-- The spans of a symbol that is listed once are listed once. -/
theorem nodup_filter_askableSpans (hwindow : 60 ∣ window.start) {symbol : String}
    (hone : run.symbols.count symbol < 2) :
    ((askableSpans run s window).filter (·.symbol = symbol)).Nodup := by
  unfold askableSpans
  rw [List.filter_flatMap]
  refine List.nodup_flatMap.mpr ⟨fun sym _ => ?_, ?_⟩
  · refine List.Nodup.filter _ ?_
    refine (askable_separated hwindow sym).apart.imp_of_mem fun {a b} ha _ hlt heq => ?_
    subst heq
    have hle := ((askable_separated hwindow sym).whole a ha).le
    omega
  · refine List.pairwise_iff_forall_sublist.mpr fun {sym sym'} hsub a ha hb => ?_
    obtain ⟨ha, hasym⟩ := List.mem_filter.mp ha
    obtain ⟨hb, -⟩ := List.mem_filter.mp hb
    have hsym := (askable_separated hwindow sym).symbol a ha
    have hsym' := (askable_separated hwindow sym').symbol a hb
    have hsymbol : a.symbol = symbol := of_decide_eq_true hasym
    rw [← hsym, ← hsym', hsymbol] at hsub
    have htwo := hsub.count_le symbol
    rw [List.count_cons_self, List.count_cons_self] at htwo
    omega

/-- **The requests of a run** are apart, and for askable minutes. -/
theorem planned_spec (hwindow : 60 ∣ window.start)
    (hfits : ∀ symbol, 2 ≤ run.symbols.count symbol → ∀ a b, 60 ∣ a → 60 ∣ b → a ≤ b →
      (∀ m, a ≤ m → m ≤ b → 60 ∣ m → m ∈ askableMinutes run s window symbol) →
        b / 86400 - a / 86400 < run.days)
    {requests : List Request} (h : planned run s window = some requests)
    (hfresh : ∀ q ∈ s.records, q.runId ≠ run.id) (hrecorded : ∀ a ∈ s.asked, Recorded s.records a) :
    Ready run s requests ∧ ∀ r ∈ requests, ∀ a ∈ r.spans, ∀ m ∈ a.eachMinute,
      m ∈ askableMinutes run s window r.symbol := by
  have hwhole : ∀ a ∈ askableSpans run s window, a.Whole := fun a ha =>
    (askable_separated hwindow a.symbol).whole a ((mem_askableSpans hwindow).mp ha).2
  -- a symbol that is listed twice has each span twice, and none of them is cut
  have hlisted : ∀ symbol, Listed run.days (spansOf (askableSpans run s window) symbol) := by
    intro symbol
    refine listed_spansOf hwhole (fun a ha b hb hne => ?_) ?_
    · obtain ⟨hain, hasym⟩ := mem_spansOf.mp ha
      obtain ⟨hbin, hbsym⟩ := mem_spansOf.mp hb
      have ha := ((mem_askableSpans hwindow).mp hain).2
      have hb := ((mem_askableSpans hwindow).mp hbin).2
      rw [hasym] at ha
      rw [hbsym] at hb
      refine ((askable_separated hwindow symbol).or_of_ne ha hb hne).imp ?_ ?_ <;> omega
    · rcases Nat.lt_or_ge (run.symbols.count symbol) 2 with hone | htwo
      · exact .inl (nodup_filter_askableSpans hwindow hone)
      · refine .inr fun a ha => ?_
        obtain ⟨hain, hasym⟩ := mem_spansOf.mp ha
        have haw := hwhole a hain
        refine hfits symbol htwo a.start a.last haw.start haw.last haw.le fun m hlow hhigh h60 => ?_
        rw [← hasym]
        exact mem_askableMinutes hwindow hain (haw.mem_iff.mpr ⟨hlow, hhigh, h60⟩)
  obtain ⟨plan, hplan, hall⟩ := exists_planRequests run.days_pos hwhole hlisted le_rfl
  unfold planned at h
  dsimp only at h
  rw [hplan, Option.map_some] at h
  have hsub : requests.Sublist plan := by
    rw [← Option.some.inj h]
    exact List.filter_sublist
  have hof : ∀ r ∈ requests, r ∈ plan.filter (·.symbol = r.symbol) :=
    fun r hr => List.mem_filter.mpr ⟨hsub.subset hr, by simp⟩
  refine ⟨⟨?_, fun r hr a ha => ?_, fun r hr a ha b hb heq => ?_, fun q hq hid => absurd hid (hfresh q hq),
    hrecorded⟩, fun r hr a ha m hm => ?_⟩
  · -- requests of one symbol are apart in the plan
    refine List.Pairwise.sublist hsub ?_
    refine List.pairwise_iff_forall_sublist.mpr fun {r r'} hpair hsymbol => ?_
    have hfilter : [r, r'].Sublist (plan.filter (·.symbol = r.symbol)) := by
      have := hpair.filter (·.symbol = r.symbol)
      simpa [hsymbol] using this
    exact List.pairwise_iff_forall_sublist.mp (hall r.symbol).apart hfilter
  · obtain ⟨hw, hsym⟩ := (hall r.symbol).whole r (hof r hr) a ha
    exact ⟨hsym, hw.le⟩
  · -- in one request, spans with one start are one span
    have hown := (List.pairwise_flatMap.mp (hall r.symbol).asc).1 r (hof r hr)
    have hsymm : Std.Symm fun a b : Span => a.last < b.start ∨ b.last < a.start ∨ a = b := by
      refine ⟨fun a b h => ?_⟩
      rcases h with h | h | rfl
      · exact .inr (.inl h)
      · exact .inl h
      · exact .inr (.inr rfl)
    have hpair : r.spans.Pairwise fun a b => a.last < b.start ∨ b.last < a.start ∨ a = b :=
      hown.imp fun h => h.imp_right .inr
    by_contra hne
    have hale := ((hall r.symbol).whole r (hof r hr) a ha).1.le
    have hble := ((hall r.symbol).whole r (hof r hr) b hb).1.le
    rcases hpair.forall ha hb hne with hlt | hlt | heq'
    · omega
    · omega
    · exact hne heq'
  · have hin : m ∈ (spansOf (askableSpans run s window) r.symbol).flatMap Span.eachMinute := by
      rw [← (hall r.symbol).minutes]
      exact List.mem_flatMap.mpr ⟨a, List.mem_flatMap.mpr ⟨r, hof r hr, ha⟩, hm⟩
    obtain ⟨b, hb, hbm⟩ := List.mem_flatMap.mp hin
    obtain ⟨hb, hsym⟩ := mem_spansOf.mp hb
    rw [← hsym]
    exact mem_askableMinutes hwindow hb hbm

end Plan

/-! ## Whole runs -/

section Runs

variable [Zero K] {instruments : List String} {s t : State K}

/-- What every run keeps. -/
structure Inv (s : State K) : Prop where
  recorded : ∀ a ∈ s.asked, Recorded s.records a
  apart : NeverTooSoon s

omit [Zero K] in
/-- **A minute that may be asked for** was not asked for within the hour, and is not settled. -/
theorem not_recent {run : Run K} {window : Window} {a : Asked} (ha : Recorded s.records a) {k : BarKey}
    (hk : a.Covers k) (haskable : k.2 ∈ askableMinutes run s window k.1) :
    a.now + settle ≤ run.now ∧ ∀ span ∈ a.request.spans, k.2 ∈ span.eachMinute → a.answered = true →
      a.now < span.last * 1000000 + settle := by
  obtain ⟨hexpected, hmissing⟩ := List.mem_filter.mp haskable
  obtain ⟨hstart, hlast, -⟩ := mem_openMinutes hexpected
  have hnot := (of_decide_eq_true hmissing).2
  -- the record of a span with the minute is found by any window with the minute
  have hfound : ∀ span ∈ a.request.spans, k.2 ∈ span.eachMinute → ∃ r ∈ s.records,
      r.symbol = k.1 ∧ r.start ≤ k.2 ∧ k.2 ≤ r.last ∧ r.last = span.last ∧ r.fetchedAt = a.now ∧
        (a.answered = true → r.status ≠ .failed) := by
    intro span hspan hm
    obtain ⟨r, hr, hsymbol, hrstart, hrlast, hfetched, hstatus⟩ := ha span hspan
    obtain ⟨hlow, hhigh, -⟩ := Span.mem_eachMinute.mp hm
    exact ⟨r, hr, hsymbol.trans hk.1, by omega, by omega, hrlast, hfetched, hstatus⟩
  refine ⟨?_, fun span hspan hm hans => ?_⟩
  · obtain ⟨-, span, hspan, hm⟩ := hk
    obtain ⟨r, hr, hsymbol, hlow, hhigh, -, hfetched, -⟩ := hfound span hspan hm
    by_contra hsoon
    refine hnot ⟨(r.start, r.last), List.mem_append_right _ ?_, hlow, hhigh⟩
    refine List.mem_map.mpr ⟨r, List.mem_filter.mpr ⟨hr, decide_eq_true ?_⟩, rfl⟩
    refine ⟨hsymbol, ?_, ?_, ?_⟩ <;> omega
  · obtain ⟨r, hr, hsymbol, hlow, hhigh, hspanlast, hfetched, hstatus⟩ := hfound span hspan hm
    by_contra hlate
    refine hnot ⟨(r.start, r.last), List.mem_append_left _ ?_, hlow, hhigh⟩
    refine List.mem_map.mpr ⟨r, List.mem_filter.mpr ⟨hr, decide_eq_true ?_⟩, rfl⟩
    refine ⟨hsymbol, hstatus hans, ?_, ?_, ?_⟩ <;> omega

/-- **One run.** -/
theorem Inv.runOnce (hi : Inv s) {run : Run K} (hfresh : ∀ r ∈ s.records, r.runId ≠ run.id)
    (hfits : GapsFit s (.run run)) (h : runOnce instruments run s = some t) : Inv t := by
  unfold Asking.runOnce at h
  split at h
  · cases h
    exact hi
  · split at h
    · cases h
      exact hi
    · next window hw =>
      obtain ⟨requests, hplanned, hr⟩ := Option.bind_eq_some_iff.mp h
      have hwindow := run.whole window hw
      obtain ⟨hready, hminutes⟩ := planned_spec hwindow (hfits window hw) hplanned hfresh hi.recorded
      have htake : (requests.take run.maxRequests).Sublist requests := List.take_sublist ..
      have hready' : Ready run s (requests.take run.maxRequests) :=
        ⟨hready.apart.sublist htake, fun r hr => hready.own r (htake.subset hr),
          fun r hr => hready.distinct r (htake.subset hr),
          fun q hq hid r hr => hready.free q hq hid r (htake.subset hr), hready.recorded⟩
      obtain ⟨made, hasked, hsub, hnow, hrecorded⟩ := requestAll_spec hready' hr
      have hmade : ∀ b ∈ made, b.request ∈ requests := fun b hb =>
        htake.subset (hsub.subset (List.mem_map_of_mem hb))
      refine ⟨hrecorded, ?_⟩
      unfold NeverTooSoon
      rw [hasked]
      refine List.pairwise_append.mpr ⟨hi.apart, ?_, fun a ha b hb k hak hbk => ?_⟩
      · -- within a run no two requests are for one minute
        have hapart := hready'.apart.sublist hsub
        rw [List.pairwise_map] at hapart
        refine hapart.imp fun {a b} hab k hak hbk => ?_
        obtain ⟨hasym, span, hspan, hm⟩ := hak
        obtain ⟨hbsym, span', hspan', hm'⟩ := hbk
        have hlt := hab (hasym.trans hbsym.symm) span hspan span' hspan'
        have hhigh := (Span.mem_eachMinute.mp hm).2.1
        have hlow := (Span.mem_eachMinute.mp hm').1
        omega
      · obtain ⟨hbsym, span, hspan, hm⟩ := id hbk
        have haskable := hminutes b.request (hmade b hb) span hspan k.2 hm
        rw [hbsym] at haskable
        rw [hnow b hb]
        exact not_recent (hi.recorded a ha) hak haskable

theorem Inv.step (hi : Inv s) {a : Action K} (hfits : GapsFit s a)
    (h : Asking.step instruments s a = some t) : Inv t := by
  cases a with
  | world store =>
    cases h
    exact ⟨hi.recorded, hi.apart⟩
  | process memory =>
    cases h
    exact ⟨hi.recorded, hi.apart⟩
  | run run =>
    rw [Asking.step] at h
    split at h
    · next hrun =>
      have hnow : Inv { s with now := run.now } := ⟨hi.recorded, hi.apart⟩
      exact hnow.runOnce hrun.2 hfits h
    · cases h

/--
**Recovery never asks again too soon**, where no run lists a symbol twice that has a gap over more UTC
days than one request takes.

In every sequence of runs, whatever their windows, symbols and budgets, whatever the provider answers
and whatever others do to `bars_1m` in between.
-/
theorem asked_apart {store : Store K} {memory : Memory} {now : Int}
    (h : ((system instruments store memory now).guard GapsFit).Reachable s) : NeverTooSoon s := by
  refine (h.invariant (I := Inv) (fun s hs => ?_) fun s a t hi ht => hi.step ht.2 ht.1).apart
  rw [show s = init store memory now from hs]
  exact ⟨by simp [init], .nil⟩

omit [Zero K] in
theorem gapsFit_of_nodup {s : State K} {run : Run K} (h : run.symbols.Nodup) : GapsFit s (.run run) := by
  intro window _ symbol htwo
  have hone := List.nodup_iff_count_le_one.mp h symbol
  omega

end Runs

/-- A run over the minutes `start` to `last` to which the provider answers that it has no bars. -/
def silentRun (id : Nat) (now : Int) (symbols : List String) (start last : Int) (h : 60 ∣ start) :
    Run Int where
  id := id
  now := now * 1000000
  window := some ⟨start, last⟩
  symbols := symbols
  isOpen _ := true
  maxRequests := 20
  days := 1
  stop _ := false
  quota _ := true
  answer _ := .ok []
  whole := by
    rintro w hw
    cases hw
    exact h
  days_pos := le_rfl

/-- The second run passes over what the first asked for, the third over what the second did, and the
last finds all of it settled. -/
def fourRuns : List (Action Int) :=
  [.run (silentRun 1 3000 ["EURUSD"] 0 60 (by decide)),
    .run (silentRun 2 4000 ["EURUSD"] 0 120 (by decide)),
    .run (silentRun 3 7000 ["EURUSD"] 0 120 (by decide)),
    .run (silentRun 4 20000 ["EURUSD"] 0 120 (by decide))]

def sampleInit : State Int := init ⟨.empty, .empty⟩ ⟨none, .empty⟩ 0

theorem asked_apart_fourRuns : ∃ s : State Int,
    Lts.exec (step ["EURUSD"]) sampleInit fourRuns = some s ∧
      s.asked.map (fun a => (a.now / 1000000, a.request.spans)) =
        [(3000, [⟨"EURUSD", 0, 60⟩]), (4000, [⟨"EURUSD", 120, 120⟩]), (7000, [⟨"EURUSD", 0, 60⟩])] ∧
      NeverTooSoon s := by
  have hrun : Lts.exec (step ["EURUSD"]) sampleInit fourRuns = some _ :=
    (Option.some_get (show (Lts.exec (step ["EURUSD"]) sampleInit fourRuns).isSome by
      decide +kernel)).symm
  have honce : ∀ a ∈ fourRuns, ∀ u : State Int, GapsFit u a := by
    intro a ha u
    simp only [fourRuns, List.mem_cons, List.not_mem_nil, or_false] at ha
    rcases ha with rfl | rfl | rfl | rfl <;> exact gapsFit_of_nodup (List.nodup_singleton _)
  exact ⟨_, hrun, by decide +kernel, asked_apart (Lts.reachable_guard_exec (.init rfl) honce hrun)⟩

/-- Two minutes beside midnight, and a list that has their symbol twice. -/
def symbolTwice : List (Action Int) :=
  [.run (silentRun 1 100000 ["EURUSD", "EURUSD"] 86340 86400 (by decide))]

/-- The first minute is asked for in both requests of the run. -/
theorem asked_twice_of_symbol_twice : ∃ s : State Int,
    (system ["EURUSD"] ⟨.empty, .empty⟩ ⟨none, .empty⟩ 0).Reachable s ∧
      s.asked.map (fun a => (a.now, a.request.symbol, a.request.spans)) =
        [(100000000000, "EURUSD", [⟨"EURUSD", 86340, 86340⟩]),
          (100000000000, "EURUSD",
            [⟨"EURUSD", 86400, 86400⟩, ⟨"EURUSD", 86340, 86340⟩, ⟨"EURUSD", 86400, 86400⟩])] ∧
      ¬ NeverTooSoon s := by
  have hrun : Lts.exec (step ["EURUSD"]) sampleInit symbolTwice = some _ :=
    (Option.some_get (show (Lts.exec (step ["EURUSD"]) sampleInit symbolTwice).isSome by
      decide +kernel)).symm
  have hasked : (Option.get _ (show (Lts.exec (step ["EURUSD"]) sampleInit symbolTwice).isSome by
      decide +kernel)).asked.map (fun a => (a.now, a.request.symbol, a.request.spans)) =
        [(100000000000, "EURUSD", [⟨"EURUSD", 86340, 86340⟩]),
          (100000000000, "EURUSD",
            [⟨"EURUSD", 86400, 86400⟩, ⟨"EURUSD", 86340, 86340⟩, ⟨"EURUSD", 86400, 86400⟩])] := by
    decide +kernel
  refine ⟨_, Lts.reachable_of_exec hrun, hasked, fun h => ?_⟩
  obtain ⟨a, rest, heq, ha, hrest⟩ := List.map_eq_cons_iff.mp hasked
  obtain ⟨b, rest', rfl, hb, -⟩ := List.map_eq_cons_iff.mp hrest
  simp only [Prod.mk.injEq] at ha hb
  obtain ⟨hanow, hasym, haspans⟩ := ha
  obtain ⟨hbnow, hbsym, hbspans⟩ := hb
  unfold NeverTooSoon at h
  rw [heq] at h
  have hboth := (List.pairwise_cons.mp h).1 b (List.mem_cons_self ..) ("EURUSD", 86340)
    ⟨hasym, ⟨"EURUSD", 86340, 86340⟩, by rw [haspans]; decide, by decide⟩
    ⟨hbsym, ⟨"EURUSD", 86340, 86340⟩, by rw [hbspans]; decide, by decide⟩
  rw [hanow, hbnow] at hboth
  exact absurd hboth.1 (by decide)

end FxTracker.Ingestor.Asking
