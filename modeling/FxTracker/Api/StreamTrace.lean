import FxTracker.Api.Snapshot

/-!
# What a trace says

The MULTIs of a symbol, the messages of a channel when they are published, dispatched and offered,
the quotes the client received. All of them are read off the trace entry by entry.

* `of_mem_publishedOn`, `publishedOn_tick` — what is on a channel
* `keysAfter_quote`, `keysAfter_history`, `keysAfter_regime` — what is in the keys
-/

namespace FxTracker.Api

variable {T : Payloads}

namespace Event

def executed? : Event T → Option (Multi T)
  | .executed m => some m
  | _ => none

def dispatched? : Event T → Option (Published (Frame T))
  | .dispatched message _ => some message
  | _ => none

def offered? : Event T → Option (Published (Frame T))
  | .dispatched message true => some message
  | _ => none

def reply? : Event T → Option (Command × Value T)
  | .read command value => some (command, value)
  | _ => none

end Event

/-- The quotes of a symbol among the replies. -/
def quotesOf (σ : String) (values : List (Command × Value T)) : List (Option T.quote) :=
  values.filterMap fun
    | (.quote symbol, .quote quote) => if symbol = σ then some quote else none
    | _ => none

/-- The quotes of a symbol among the frames. -/
def ticksOf (σ : String) (frames : List (Frame T)) : List (Option T.quote) :=
  frames.filterMap fun
    | .tick symbol quote => if symbol = σ then some (some quote) else none
    | _ => none

/-- The quotes of a symbol an event brings to the client. -/
def Event.tells (σ : String) : Event T → List (Option T.quote)
  | .snapshot _ values => quotesOf σ values
  | .frame f => ticksOf σ [f]
  | _ => []

section Trace

variable (σ : String) (c : Channel) (trace : List (Event T))

/-- The MULTIs of a symbol. -/
def executed : List (Multi T) := (trace.filterMap Event.executed?).filter fun m => m.symbol = σ

/-- The minutes sealed of a symbol. -/
def sealedOf : List (SealedMinute T) := (executed σ trace).filterMap Multi.sealed

/-- The newest quote published of a symbol. -/
def newestQuote : Option T.quote := (executed σ trace).getLast?.map Multi.quote

def publishedOn : List (Published (Frame T)) :=
  ((trace.filterMap Event.executed?).flatMap Multi.publishes).filter fun message =>
    message.channel = c

def dispatchedOn : List (Published (Frame T)) :=
  (trace.filterMap Event.dispatched?).filter fun message => message.channel = c

def offeredOn : List (Published (Frame T)) :=
  (trace.filterMap Event.offered?).filter fun message => message.channel = c

def replies : List (Command × Value T) := trace.filterMap Event.reply?

/-- The quotes of a symbol the client received. -/
def told : List (Option T.quote) := trace.flatMap (Event.tells σ)

/-- The symbol was added to the session. -/
def AddedIn : Prop := ∃ symbols bars, .added symbols bars ∈ trace ∧ σ ∈ symbols

/-- A snapshot of the symbol was sent. -/
def ShownIn : Prop := ∃ symbols values, .snapshot symbols values ∈ trace ∧ σ ∈ symbols

end Trace

/-! ## One entry more -/

variable {σ : String} {c : Channel} {trace pre post : List (Event T)} {e : Event T}

@[simp] theorem executed_append :
    executed σ (pre ++ post) = executed σ pre ++ executed σ post := by simp [executed]

@[simp] theorem publishedOn_append :
    publishedOn c (pre ++ post) = publishedOn c pre ++ publishedOn c post := by simp [publishedOn]

@[simp] theorem dispatchedOn_append :
    dispatchedOn c (pre ++ post) = dispatchedOn c pre ++ dispatchedOn c post := by
  simp [dispatchedOn]

@[simp] theorem offeredOn_append :
    offeredOn c (pre ++ post) = offeredOn c pre ++ offeredOn c post := by simp [offeredOn]

@[simp] theorem told_append : told σ (pre ++ post) = told σ pre ++ told σ post := by simp [told]

@[simp] theorem ticksOf_append {frames rest : List (Frame T)} :
    ticksOf σ (frames ++ rest) = ticksOf σ frames ++ ticksOf σ rest := by simp [ticksOf]

@[simp] theorem replies_append : replies (pre ++ post) = replies pre ++ replies post := by
  simp [replies]

/-- An entry that is no MULTI publishes nothing. -/
theorem executed_of_ne (h : e.executed? = none) : executed σ [e] = [] := by
  simp [executed, h]

theorem publishedOn_of_ne (h : e.executed? = none) : publishedOn c [e] = [] := by
  simp [publishedOn, h]

theorem dispatchedOn_of_ne (h : e.dispatched? = none) : dispatchedOn c [e] = [] := by
  simp [dispatchedOn, h]

/-- What is in flight stays so where nothing is published or dispatched. -/
theorem inflight_of_ne {l : List (Published (Frame T))}
    (h : publishedOn c trace = dispatchedOn c trace ++ l) (hexec : e.executed? = none)
    (hdisp : e.dispatched? = none) :
    publishedOn c (trace ++ [e]) = dispatchedOn c (trace ++ [e]) ++ l := by
  rw [publishedOn_append, publishedOn_of_ne hexec, dispatchedOn_append, dispatchedOn_of_ne hdisp,
    List.append_nil, List.append_nil, h]

theorem AddedIn.mono (h : AddedIn σ pre) (hsub : ∀ e ∈ pre, e ∈ trace) : AddedIn σ trace := by
  obtain ⟨symbols, bars, hmem, hσ⟩ := h
  exact ⟨symbols, bars, hsub _ hmem, hσ⟩

theorem ShownIn.concat (h : ShownIn σ trace) : ShownIn σ (trace ++ [e]) := by
  obtain ⟨symbols, values, hmem, hσ⟩ := h
  exact ⟨symbols, values, List.mem_append_left _ hmem, hσ⟩

theorem addedIn_concat :
    AddedIn σ (trace ++ [e]) ↔
      AddedIn σ trace ∨ ∃ symbols bars, e = .added symbols bars ∧ σ ∈ symbols := by
  simp only [AddedIn, List.mem_append, List.mem_singleton, or_and_right, exists_or, eq_comm]

/-- A message of a channel comes with its frame's symbol and routing key. -/
def Frame.key : Frame T → RoutingKey
  | .tick symbol _ => .tick symbol
  | .vol symbol _ _ => .vol symbol
  | .alert symbol seq _ => .alert symbol seq

theorem of_mem_publishes {m : Multi T} {message : Published (Frame T)} (h : message ∈ m.publishes) :
    message.frame.key = message.key ∧ message.symbol? = some message.frame.symbol := by
  unfold Multi.publishes at h
  rcases hs : m.sealed with _ | e
  · rw [hs] at h
    obtain rfl := List.mem_singleton.mp h
    exact ⟨rfl, rfl⟩
  · rw [hs] at h
    simp only [List.mem_cons, Option.mem_toList, Option.map_eq_some_iff] at h
    rcases h with rfl | rfl | ⟨a, -, rfl⟩ <;> exact ⟨rfl, rfl⟩

theorem of_mem_publishedOn {message : Published (Frame T)} (h : message ∈ publishedOn c trace) :
    message.channel = c ∧ message.frame.key = message.key ∧
      message.symbol? = some message.frame.symbol := by
  obtain ⟨hmem, hc⟩ := List.mem_filter.mp h
  obtain ⟨m, -, hm⟩ := List.mem_flatMap.mp hmem
  exact ⟨of_decide_eq_true hc, of_mem_publishes hm⟩

/-- A MULTI publishes one message on the tick channel of its symbol, and none on another's. -/
theorem publishes_filter_tick (m : Multi T) :
    (m.publishes.filter fun message => message.channel = .tick σ)
      = if m.symbol = σ then [.tick m.symbol (.tick m.symbol m.quote)] else [] := by
  have hrest : ∀ l : List (Published (Frame T)), (∀ message ∈ l, message.channel ≠ .tick σ) →
      l.filter (fun message => message.channel = .tick σ) = [] := by
    intro l hl
    exact List.filter_eq_nil_iff.mpr fun message hmem => by simpa using hl message hmem
  unfold Multi.publishes
  rw [List.filter_cons, hrest]
  · simp [Published.channel]
  · intro message hmem
    rcases hs : m.sealed with _ | e
    · rw [hs] at hmem
      cases hmem
    · rw [hs] at hmem
      simp only [List.mem_cons, Option.mem_toList, Option.map_eq_some_iff] at hmem
      rcases hmem with rfl | ⟨a, -, rfl⟩ <;> nofun

theorem publishedOn_tick :
    publishedOn (.tick σ) trace
      = (executed σ trace).map fun m => .tick m.symbol (.tick m.symbol m.quote) := by
  unfold publishedOn executed
  induction trace.filterMap Event.executed? with
  | nil => rfl
  | cons m ms ih =>
    rw [List.flatMap_cons, List.filter_append, publishes_filter_tick, ih]
    by_cases h : m.symbol = σ <;> simp [h]

theorem newestQuote_of_ne (h : executed σ [e] = []) :
    newestQuote σ (trace ++ [e]) = newestQuote σ trace := by
  rw [newestQuote, executed_append, h, List.append_nil, newestQuote]

theorem told_of_ne (h : e.tells σ = []) : told σ (trace ++ [e]) = told σ trace := by
  simp [told, h]

theorem addedIn_concat_of_ne (h : ∀ symbols bars, e ≠ .added symbols bars) :
    AddedIn σ (trace ++ [e]) ↔ AddedIn σ trace := by
  rw [addedIn_concat]
  exact or_iff_left fun ⟨symbols, bars, he, _⟩ => h symbols bars he

/-! ## The keys -/

variable [LinearOrder T.bar] [LinearOrder T.point]

/-- The keys of a symbol, as its MULTIs left them. -/
def keysAfter (σ : String) (trace : List (Event T)) : Keys T :=
  (executed σ trace).foldl (fun k m => m.write k) .absent

theorem keysAfter_of_ne (h : e.executed? = none) : keysAfter σ (trace ++ [e]) = keysAfter σ trace := by
  rw [keysAfter, executed_append, executed_of_ne h, List.append_nil, keysAfter]

theorem keysAfter_multi (m : Multi T) :
    keysAfter σ (trace ++ [.executed m])
      = if m.symbol = σ then m.write (keysAfter σ trace) else keysAfter σ trace := by
  by_cases h : m.symbol = σ <;>
    simp [keysAfter, executed, Event.executed?, h]

theorem keysAfter_quote : (keysAfter σ trace).quote = newestQuote σ trace := by
  unfold keysAfter newestQuote
  induction executed σ trace using List.reverseRecOn with
  | nil => rfl
  | append_singleton ms m =>
    rw [List.foldl_concat, List.getLast?_concat, Multi.write]
    split <;> rfl

theorem keysAfter_history :
    (keysAfter σ trace).history
      = ((sealedOf σ trace).map SealedMinute.bar).foldl (hold historyCap) [] := by
  unfold keysAfter sealedOf
  induction executed σ trace using List.reverseRecOn with
  | nil => rfl
  | append_singleton ms m ih =>
    rw [List.foldl_concat, List.filterMap_append, List.map_append, List.foldl_append, ← ih, Multi.write]
    rcases hs : m.sealed with _ | e
    · simp [hs]
    · simp [hs]

theorem keysAfter_regime :
    (keysAfter σ trace).regime = (sealedOf σ trace).getLast?.map SealedMinute.regime := by
  unfold keysAfter sealedOf
  induction executed σ trace using List.reverseRecOn with
  | nil => rfl
  | append_singleton ms m ih =>
    rw [List.foldl_concat, List.filterMap_append, Multi.write]
    rcases hs : m.sealed with _ | e
    · simpa [hs] using ih
    · simp [hs]

end FxTracker.Api
