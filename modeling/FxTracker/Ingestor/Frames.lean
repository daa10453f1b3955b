import FxTracker.Core.Json
import FxTracker.Core.Wire
import FxTracker.Lib.Double
import Mathlib.Data.List.Infix

/-!
# Frames of the Tiingo socket

`TiingoProvider._parse` of `fx_ingestor/providers/tiingo.py`, and `Tick.validate` of `fx_core/models.py`.
Prices are doubles. What Python does with texts is a parameter.

* `Tick.validate_eq_ok` — what a tick that passes `validate` is
* `readQuote_cases` — how reading a quote ends
* `total_iff` — which frames are dropped, parsed or refused as documented
-/

namespace FxTracker.Ingestor.Tiingo

/-- How `json.loads` fails. -/
inductive LoadError
  /-- `JSONDecodeError` or `UnicodeDecodeError`. -/
  | decode
  /-- A plain `ValueError`: an integer of more than 4300 digits. -/
  | value
  deriving DecidableEq

/-- What `_parse` uses of Python, over frames that are texts or bytes; `none` is `ValueError`. -/
structure Python (Raw : Type) where
  loads : Raw → Except LoadError (Json Double)
  str : Json Double → String
  upper : String → String
  lower : String → String
  float : String → Option Double
  fromisoformat : String → Option IsoTime

/-! ## Ticks -/

structure Tick where
  symbol : String
  bid : Double
  ask : Double
  tsEvent : IsoTime
  tsIngest : Int
  seq : Int := 0

/-- `MAX_SPREAD_FRACTION`. -/
def maxSpreadFraction : Double := .round (5 / 100)

namespace Tick

def mid (tick : Tick) : Double := (tick.bid.add tick.ask).half

def spread (tick : Tick) : Double := tick.ask.sub tick.bid

/-- `validate`. -/
def validate (tick : Tick) : Except PyError Unit :=
  if tick.symbol = "" then .error .value
  else if ¬ (tick.bid.isFinite ∧ tick.ask.isFinite) then .error .value
  else if tick.bid.le (.finite 0) ∨ tick.ask.le (.finite 0) then .error .value
  else if tick.ask.lt tick.bid then .error .value
  else if (maxSpreadFraction.mul tick.mid).lt tick.spread then .error .value
  else if tick.tsEvent.offset = none then .error .value
  else .ok ()

end Tick

/-! ## Frames -/

/-- The fields of a quote's array that are read: positions 1, 2, 4, 5 and 7. -/
structure Quote where
  symbol : Json Double
  time : Json Double
  bid : Json Double
  mid : Json Double
  ask : Json Double

/-- The check of `data`: a list of 8 or more that begins with `_QUOTE`. -/
def quoteOf (data : Option (Json Double)) : Option Quote :=
  match data with
  | some (.list (.str "Q" :: symbol :: time :: _ :: bid :: mid :: _ :: ask :: _)) =>
    some ⟨symbol, time, bid, mid, ask⟩
  | _ => none

variable {Raw : Type} (py : Python Raw)

/-- `float(value)`. -/
def floatOf (value : Json Double) : Except PyError Double :=
  match value with
  | .bool b => .ok (.finite (if b then 1 else 0))
  | .int i =>
    match Double.ofInt i with
    | some x => .ok x
    | none => .error .overflow
  | .float x => .ok x
  | .str text =>
    match py.float text with
    | some x => .ok x
    | none => .error .value
  | _ => .error .type

/-- `ts_event`. A time without an offset is taken to be UTC. -/
def timeOf (value : Json Double) : Option IsoTime :=
  (py.fromisoformat ((py.str value).replace "Z" "+00:00")).map fun time =>
    { time with offset := some (time.offset.getD 0) }

/-- The tick of a quote. -/
def tickOf (now : Int) (quote : Quote) (tsEvent : IsoTime) (bid ask : Double) : Tick :=
  { symbol := py.upper (py.str quote.symbol), bid, ask, tsEvent, tsIngest := now }

/-- The double nearest to 1e-5. -/
def relTol : Double := .round (1 / 100000)

/-- The `try` that reads a quote. -/
def readQuote (now : Int) (quote : Quote) : Except PyError Tick :=
  match timeOf py quote.time with
  | none => .error .value
  | some tsEvent => do
    let bid ← floatOf py quote.bid
    let ask ← floatOf py quote.ask
    let tick := tickOf py now quote tsEvent bid ask
    tick.validate
    let mid ← floatOf py quote.mid
    if Double.isClose relTol tick.mid mid then return tick else throw .value

/-- What `_parse` raises. -/
inductive Raised
  | providerAuth (message : String)
  | provider (message : String)
  | python (error : PyError)

/-- What `_parse` returns or raises, and how many frames it counts as dropped. -/
structure Parsed where
  result : Except Raised (Option Tick)
  dropped : Nat

/-- An `"E"` frame. -/
def refuse (detail : String) : Raised :=
  if "auth".toList <:+: (py.lower detail).toList ∨ "token".toList <:+: (py.lower detail).toList then
    .providerAuth ("tiingo rejected credentials: " ++ detail)
  else .provider ("tiingo error frame: " ++ detail)

theorem refuse_cases (detail : String) :
    (∃ message, refuse py detail = .providerAuth message) ∨ ∃ message, refuse py detail = .provider message := by
  unfold refuse
  split
  · exact .inl ⟨_, rfl⟩
  · exact .inr ⟨_, rfl⟩

/-- The end of `_parse`: of what reading a quote raises, `TypeError` and `ValueError` are caught. -/
def settle : Except PyError Tick → Parsed
  | .ok tick => ⟨.ok (some tick), 0⟩
  | .error .type => ⟨.ok none, 1⟩
  | .error .value => ⟨.ok none, 1⟩
  -- `OverflowError` is neither
  | .error e => ⟨.error (.python e), 0⟩

/-- `_parse`. -/
def parse (now : Int) (raw : Raw) : Parsed :=
  match py.loads raw with
  | .error .decode => ⟨.ok none, 1⟩
  -- neither of the two that are caught
  | .error .value => ⟨.error (.python .value), 0⟩
  | .ok (.dict fields) =>
    match Json.get? fields "messageType" with
    | some (.str "E") =>
      ⟨.error (refuse py (py.str ((Json.get? fields "response").getD (.dict fields)))), 0⟩
    | some (.str "A") =>
      match quoteOf (Json.get? fields "data") with
      | some quote => settle (readQuote py now quote)
      | none => ⟨.ok none, 1⟩
    | _ => ⟨.ok none, 0⟩
  | .ok _ => ⟨.ok none, 1⟩

/-! ## What a tick that passes is -/

namespace Tick

/-- The prices are positive numbers, not crossed. -/
def Priced (tick : Tick) : Prop :=
  ∃ bid ask : ℚ, tick.bid = .finite bid ∧ tick.ask = .finite ask ∧ 0 < bid ∧ bid ≤ ask

theorem isNan_mid {tick : Tick} (h : tick.Priced) : tick.mid.isNan = false := by
  obtain ⟨bid, ask, hbid, hask, -⟩ := h
  unfold mid
  rw [hbid, hask]
  exact Double.isNan_half (Double.isNan_round _)

theorem isNan_spread {tick : Tick} (h : tick.Priced) : tick.spread.isNan = false := by
  obtain ⟨bid, ask, hbid, hask, -⟩ := h
  unfold spread
  rw [hbid, hask]
  exact Double.isNan_round _

theorem isNan_maxSpread {tick : Tick} (h : tick.Priced) :
    (maxSpreadFraction.mul tick.mid).isNan = false := by
  have hfraction : maxSpreadFraction = .finite (3602879701896397 / 72057594037927936) := by decide +kernel
  rw [hfraction]
  exact Double.isNan_mul (by norm_num) (isNan_mid h)

/-- `validate` raises nothing but `ValueError`. -/
theorem validate_cases (tick : Tick) : tick.validate = .ok () ∨ tick.validate = .error .value := by
  unfold validate
  repeat' split
  all_goals first | exact .inl rfl | exact .inr rfl

/-- **What a tick that passes `validate` is.** -/
theorem validate_eq_ok {tick : Tick} (h : tick.validate = .ok ()) :
    tick.Priced ∧ tick.spread.le (maxSpreadFraction.mul tick.mid) = true ∧
      tick.tsEvent.offset.isSome = true := by
  unfold validate at h
  split at h
  · cases h
  split at h
  · cases h
  rename_i hfinite
  split at h
  · cases h
  rename_i hpositive
  split at h
  · cases h
  rename_i hcrossed
  split at h
  · cases h
  rename_i hspread
  split at h
  · cases h
  rename_i hoffset
  rw [not_not] at hfinite
  obtain ⟨bid, hbid⟩ := Double.exists_of_isFinite hfinite.1
  obtain ⟨ask, hask⟩ := Double.exists_of_isFinite hfinite.2
  have hpriced : tick.Priced := by
    refine ⟨bid, ask, hbid, hask, ?_, ?_⟩
    · rw [hbid] at hpositive
      exact Double.pos_of_not_le (Bool.eq_false_of_not_eq_true fun hle => hpositive (.inl hle))
    · rw [hbid, hask] at hcrossed
      simpa [Double.lt] using hcrossed
  have hlt : (maxSpreadFraction.mul tick.mid).lt tick.spread = false := Bool.eq_false_of_not_eq_true hspread
  exact ⟨hpriced, Double.le_of_not_lt (isNan_spread hpriced) (isNan_maxSpread hpriced) hlt,
    Option.isSome_iff_ne_none.mpr hoffset⟩

end Tick

/-! ## What reading a quote raises -/

/-- A whole number that no double holds. -/
def TooLarge (value : Json Double) : Prop := ∃ i : Int, value = .int i ∧ Double.limit ≤ |(i : ℚ)|

/-- A number that is read is too large, and nothing before it is refused. -/
inductive Overflows (now : Int) (quote : Quote) : Prop
  | bid {tsEvent : IsoTime} (htime : timeOf py quote.time = some tsEvent) (hbid : TooLarge quote.bid)
  | ask {tsEvent : IsoTime} {bid : Double} (htime : timeOf py quote.time = some tsEvent)
    (hbid : floatOf py quote.bid = .ok bid) (hask : TooLarge quote.ask)
  | mid {tsEvent : IsoTime} {bid ask : Double} (htime : timeOf py quote.time = some tsEvent)
    (hbid : floatOf py quote.bid = .ok bid) (hask : floatOf py quote.ask = .ok ask)
    (hvalid : (tickOf py now quote tsEvent bid ask).validate = .ok ()) (hmid : TooLarge quote.mid)

variable {py}

theorem floatOf_of_tooLarge {value : Json Double} (h : TooLarge value) :
    floatOf py value = .error .overflow := by
  obtain ⟨i, rfl, hi⟩ := h
  have hnone : Double.ofInt i = none := if_pos hi
  unfold floatOf
  simp only [hnone]

theorem floatOf_error {value : Json Double} {e : PyError} (h : floatOf py value = .error e) :
    e = .type ∨ e = .value ∨ e = .overflow ∧ TooLarge value := by
  unfold floatOf at h
  split at h
  · cases h
  · rename_i i
    unfold Double.ofInt at h
    by_cases hi : Double.limit ≤ |(i : ℚ)|
    · rw [if_pos hi] at h
      cases h
      exact .inr (.inr ⟨rfl, i, rfl, hi⟩)
    · rw [if_neg hi] at h
      cases h
  · cases h
  · split at h
    · cases h
    · cases h
      exact .inr (.inl rfl)
  · cases h
    exact .inl rfl

variable {now : Int} {quote : Quote} {tick : Tick}

/-- A bid, an ask and a mid that were read, and passed every check. -/
structure Accepted (py : Python Raw) (now : Int) (quote : Quote) (tick : Tick) (own : Double) : Prop where
  valid : tick.validate = .ok ()
  own_eq : floatOf py quote.mid = .ok own
  close : Double.isClose relTol tick.mid own = true
  time : timeOf py quote.time = some tick.tsEvent
  bid : floatOf py quote.bid = .ok tick.bid
  ask : floatOf py quote.ask = .ok tick.ask
  eq : tick = tickOf py now quote tick.tsEvent tick.bid tick.ask

/-- **How reading a quote ends.** -/
theorem readQuote_cases (py : Python Raw) (now : Int) (quote : Quote) :
    (∃ tick own, readQuote py now quote = .ok tick ∧ Accepted py now quote tick own) ∨
    ∃ e, readQuote py now quote = .error e ∧
      (e = .type ∨ e = .value ∨ e = .overflow ∧ Overflows py now quote) := by
  unfold readQuote
  -- in the order of the source: what is read next is read only where this was
  cases htime : timeOf py quote.time with
  | none => exact .inr ⟨.value, rfl, .inr (.inl rfl)⟩
  | some tsEvent =>
  cases hbid : floatOf py quote.bid with
  | error e =>
    refine .inr ⟨e, rfl, ?_⟩
    exact (floatOf_error hbid).imp_right (.imp_right fun h => ⟨h.1, .bid htime h.2⟩)
  | ok bid =>
  cases hask : floatOf py quote.ask with
  | error e =>
    refine .inr ⟨e, rfl, ?_⟩
    exact (floatOf_error hask).imp_right (.imp_right fun h => ⟨h.1, .ask htime hbid h.2⟩)
  | ok ask =>
  rcases (tickOf py now quote tsEvent bid ask).validate_cases with hvalid | hinvalid
  · cases hown : floatOf py quote.mid with
    | error e =>
      refine .inr ⟨e, ?_, ?_⟩
      · simp [bind, Except.bind, hvalid]
      · exact (floatOf_error hown).imp_right (.imp_right fun h => ⟨h.1, .mid htime hbid hask hvalid h.2⟩)
    | ok own =>
      by_cases hclose : Double.isClose relTol (tickOf py now quote tsEvent bid ask).mid own = true
      · refine .inl ⟨tickOf py now quote tsEvent bid ask, own, ?_, ?_⟩
        · simp [bind, Except.bind, hvalid, hclose, pure, Except.pure]
        · exact ⟨hvalid, hown, hclose, htime, hbid, hask, rfl⟩
      · refine .inr ⟨.value, ?_, .inr (.inl rfl)⟩
        simp [bind, Except.bind, hvalid, hclose, throw, throwThe, MonadExceptOf.throw]
  · refine .inr ⟨.value, ?_, .inr (.inl rfl)⟩
    simp [bind, Except.bind, hinvalid]

theorem readQuote_of_overflows (h : Overflows py now quote) : readQuote py now quote = .error .overflow := by
  cases h with
  | bid htime hbid =>
    simp [readQuote, bind, Except.bind, htime, floatOf_of_tooLarge hbid]
  | ask htime hbid hask =>
    simp [readQuote, bind, Except.bind, htime, hbid, floatOf_of_tooLarge hask]
  | mid htime hbid hask hvalid hmid =>
    simp [readQuote, bind, Except.bind, htime, hbid, hask, hvalid, floatOf_of_tooLarge hmid]

/-! ## What a frame gives -/

/-- A tick that may be used: its prices, its spread, its time, and a mid close to the frame's own. -/
structure Sound (py : Python Raw) (quote : Quote) (tick : Tick) : Prop where
  priced : tick.Priced
  spread : tick.spread.le (maxSpreadFraction.mul tick.mid) = true
  aware : tick.tsEvent.offset.isSome = true
  mid : ∃ mid own : ℚ, tick.mid = .finite mid ∧ floatOf py quote.mid = .ok (.finite own) ∧
    Double.isClose relTol (.finite mid) (.finite own) = true

/-- A quote that passes every check, where the mean of its prices and its own mid are infinite. -/
def InfiniteMid (py : Python Raw) (now : Int) (quote : Quote) : Prop :=
  ∃ tsEvent bid ask s, timeOf py quote.time = some tsEvent ∧ floatOf py quote.bid = .ok bid ∧
    floatOf py quote.ask = .ok ask ∧ (tickOf py now quote tsEvent bid ask).validate = .ok () ∧
    (bid.add ask).half = .inf s ∧ floatOf py quote.mid = .ok (.inf s)

theorem readQuote_of_infiniteMid (h : InfiniteMid py now quote) : ∃ tick, readQuote py now quote = .ok tick := by
  obtain ⟨tsEvent, bid, ask, s, htime, hbid, hask, hvalid, hinf, hown⟩ := h
  have hmid : (tickOf py now quote tsEvent bid ask).mid = .inf s := hinf
  have hclose : Double.isClose relTol (.inf s) (.inf s) = true := Double.isClose_inf.mpr rfl
  refine ⟨tickOf py now quote tsEvent bid ask, ?_⟩
  simp [readQuote, bind, Except.bind, pure, Except.pure, htime, hbid, hask, hvalid, hown, hmid, hclose]

theorem Accepted.sound_iff {own : Double} (h : Accepted py now quote tick own) :
    Sound py quote tick ↔ ¬ InfiniteMid py now quote := by
  have hmean : tick.mid = (tick.bid.add tick.ask).half := rfl
  constructor
  · rintro hsound ⟨tsEvent, bid, ask, s, -, hbid, hask, -, hinf, -⟩
    obtain ⟨mid, _, hmid, -⟩ := hsound.mid
    have heqbid : tick.bid = bid := Except.ok.inj (h.bid.symm.trans hbid)
    have heqask : tick.ask = ask := Except.ok.inj (h.ask.symm.trans hask)
    rw [hmean, heqbid, heqask, hinf] at hmid
    cases hmid
  · intro hnot
    obtain ⟨hpriced, hspread, haware⟩ := Tick.validate_eq_ok h.valid
    refine ⟨hpriced, hspread, haware, ?_⟩
    have hclose := h.close
    cases hmid : tick.mid with
    | finite mid =>
      rw [hmid] at hclose
      obtain ⟨r, rfl⟩ := Double.exists_of_isClose hclose
      exact ⟨mid, r, rfl, h.own_eq, hclose⟩
    | inf s =>
      rw [hmid, Double.isClose_inf] at hclose
      refine absurd ⟨tick.tsEvent, tick.bid, tick.ask, s, h.time, h.bid, h.ask, ?_, hmean ▸ hmid, ?_⟩ hnot
      · rw [← h.eq]
        exact h.valid
      · rw [← hclose]
        exact h.own_eq
    | nan =>
      have hnan := Tick.isNan_mid hpriced
      rw [hmid] at hnan
      cases hnan

/-- The quote of an `"A"` frame. -/
def quoteIn (py : Python Raw) (raw : Raw) : Option Quote :=
  match py.loads raw with
  | .ok (.dict fields) =>
    match Json.get? fields "messageType" with
    | some (.str "A") => quoteOf (Json.get? fields "data")
    | _ => none
  | _ => none

/-- An `"E"` frame. -/
def IsError (py : Python Raw) (raw : Raw) : Prop :=
  ∃ fields, py.loads raw = .ok (.dict fields) ∧ Json.get? fields "messageType" = some (.str "E")

/-- The frame is dropped, or gives a sound tick, or is an `"E"` frame and refused as one. -/
def Total (py : Python Raw) (now : Int) (raw : Raw) : Prop :=
  match (parse py now raw).result with
  | .ok none => True
  | .ok (some tick) => ∃ quote, quoteIn py raw = some quote ∧ Sound py quote tick
  | .error (.python _) => False
  | .error _ => IsError py raw

/-- **Which function a frame goes to.** -/
theorem parse_cases (py : Python Raw) (now : Int) (raw : Raw) :
    (py.loads raw = .error .value ∧ parse py now raw = ⟨.error (.python .value), 0⟩) ∨
    (py.loads raw ≠ .error .value ∧ quoteIn py raw = none ∧
      ((parse py now raw).result = .ok none ∨
        IsError py raw ∧ ∃ detail, (parse py now raw).result = .error (refuse py detail))) ∨
    ∃ quote, py.loads raw ≠ .error .value ∧ quoteIn py raw = some quote ∧
      parse py now raw = settle (readQuote py now quote) := by
  unfold parse quoteIn IsError
  cases hraw : py.loads raw with
  | error e =>
    cases e with
    | decode => exact .inr (.inl ⟨nofun, rfl, .inl rfl⟩)
    | value => exact .inl ⟨rfl, rfl⟩
  | ok msg =>
    cases msg with
    | dict fields =>
      dsimp only
      split
      · rename_i htype
        rw [htype]
        exact .inr (.inl ⟨nofun, rfl, .inr ⟨⟨fields, rfl, htype⟩, _, rfl⟩⟩)
      · rename_i htype
        rw [htype]
        cases hquote : quoteOf (Json.get? fields "data") with
        | some quote => exact .inr (.inr ⟨quote, nofun, rfl, rfl⟩)
        | none => exact .inr (.inl ⟨nofun, rfl, .inl rfl⟩)
      · rename_i hdata
        split
        · rename_i htype
          exact absurd htype hdata
        · exact .inr (.inl ⟨nofun, rfl, .inl rfl⟩)
    | _ => exact .inr (.inl ⟨nofun, rfl, .inl rfl⟩)

/-- Where a frame does what is documented of it. -/
structure Fits (py : Python Raw) (now : Int) (raw : Raw) : Prop where
  /-- No whole number has more digits than `int` reads. -/
  loads : py.loads raw ≠ .error .value
  overflows : ∀ quote, quoteIn py raw = some quote → ¬ Overflows py now quote
  infiniteMid : ∀ quote, quoteIn py raw = some quote → ¬ InfiniteMid py now quote

/-- **What is read of a quote is as documented**, where no number is too large and no mid infinite. -/
theorem total_of_quote {raw : Raw} (hquote : quoteIn py raw = some quote)
    (hparse : parse py now raw = settle (readQuote py now quote)) :
    Total py now raw ↔ ¬ Overflows py now quote ∧ ¬ InfiniteMid py now quote := by
  unfold Total
  rw [hparse, hquote]
  rcases readQuote_cases py now quote with ⟨tick, own, hread, haccepted⟩ | ⟨e, hread, he⟩
  · -- the quote was read to its end
    have hnever : ¬ Overflows py now quote := by
      intro hover
      rw [readQuote_of_overflows hover] at hread
      cases hread
    rw [hread, ← haccepted.sound_iff]
    constructor
    · rintro ⟨_, heq, hsound⟩
      cases heq
      exact ⟨hnever, hsound⟩
    · rintro ⟨-, hsound⟩
      exact ⟨quote, rfl, hsound⟩
  · -- an infinite mid passes every check
    have hnever : ¬ InfiniteMid py now quote := by
      intro hinf
      obtain ⟨tick, hok⟩ := readQuote_of_infiniteMid hinf
      rw [hread] at hok
      cases hok
    by_cases hover : Overflows py now quote
    · rw [readQuote_of_overflows hover]
      exact iff_of_false id fun h => h.1 hover
    · rw [hread]
      rcases he with rfl | rfl | ⟨-, habsurd⟩
      · exact iff_of_true trivial ⟨hover, hnever⟩
      · exact iff_of_true trivial ⟨hover, hnever⟩
      · exact absurd habsurd hover

/--
**When parsing a frame is total.**

A number that is too large raises `OverflowError`, or, with more digits than `int` reads, a `ValueError`
where it is not caught. An infinite mid is close to an infinite mid.
-/
theorem total_iff (py : Python Raw) (now : Int) (raw : Raw) : Total py now raw ↔ Fits py now raw := by
  rcases parse_cases py now raw with
    ⟨hloads, hparse⟩ | ⟨hloads, hnone, hresult⟩ | ⟨quote, hloads, hquote, hparse⟩
  · refine iff_of_false ?_ fun h => h.loads hloads
    unfold Total
    rw [hparse]
    exact id
  · have hnever : ∀ quote, quoteIn py raw ≠ some quote := by
      intro quote
      rw [hnone]
      exact (Option.some_ne_none quote).symm
    refine iff_of_true ?_ ⟨hloads, fun quote h => absurd h (hnever quote), fun quote h => absurd h (hnever quote)⟩
    unfold Total
    rcases hresult with hok | ⟨herror, detail, hrefuse⟩
    · rw [hok]
      trivial
    · rw [hrefuse]
      rcases refuse_cases py detail with ⟨message, hraised⟩ | ⟨message, hraised⟩
      · rw [hraised]
        exact herror
      · rw [hraised]
        exact herror
  · rw [total_of_quote hquote hparse]
    constructor
    · rintro ⟨hover, hinf⟩
      have hsame : ∀ other, quoteIn py raw = some other → other = quote := by
        intro other hother
        exact Option.some.inj (hother.symm.trans hquote)
      refine ⟨hloads, fun other hother => ?_, fun other hother => ?_⟩
      · rw [hsame other hother]
        exact hover
      · rw [hsame other hother]
        exact hinf
    · intro h
      exact ⟨h.overflows quote hquote, h.infiniteMid quote hquote⟩

/-- A whole number of 401 digits. -/
def huge : Int := 10 ^ 200 * 10 ^ 200

theorem tooLarge_huge : TooLarge (.int huge) := ⟨huge, rfl, by decide +kernel⟩

/-- A reader of one frame: a quote of EUR/USD with a bid that is too large. -/
def hugeBid : Python Unit where
  loads _ := .ok (.dict [("service", .str "fx"), ("messageType", .str "A"),
    ("data", .list [.str "Q", .str "eurusd", .str "2026-08-22T09:00:00Z", .int 1000000, .int huge,
      .float (.round (11 / 10)), .int 1000000, .float (.round (11 / 10))])])
  str
    | .str text => text
    | _ => ""
  upper _ := "EURUSD"
  lower text := text
  float _ := none
  fromisoformat _ := some ⟨1787389200000000, some 0⟩

/-- An `OverflowError` ends the parse. -/
theorem not_total_hugeBid : ¬ Total hugeBid 1787389200000000 () := by
  have htime : timeOf hugeBid (.str "2026-08-22T09:00:00Z") = some ⟨1787389200000000, some 0⟩ := rfl
  intro h
  have hquote := (total_of_quote rfl rfl).mp h
  exact hquote.1 (.bid htime tooLarge_huge)

end FxTracker.Ingestor.Tiingo
