import FxTracker.Web.OneConnection

/-!
# Another provider's prices are not this one's past

The server can swap the market-data provider under an open socket, or between two. The hook compares the
provider of a `hello` or a `status` with the one the store shows, and clears the market where they differ.
The chart fetches minutes and days over HTTP as well (`apps/web/src/lib/useChartBars.ts`); such an answer
names no provider, and nobody compares it with anything. Beside the page runs what each socket announced
last, and every call since the market was last cleared, with where it came from.

* `Announces` — the condition: a socket that is heard names a provider whenever it announces one, and before
  any data. The server does not promise it: a `hello` carries no name where Redis has no status.
* `one_provider` — all that a page holds of a pair came from a socket that announced the provider it shows, or
  over HTTP
-/

namespace FxTracker.Web

variable {K : Type}

/-- Where a call of the store came from. -/
inductive Origin
  /-- A socket, and the provider it had announced last. -/
  | socket (announced : Option String)
  /-- An answer to the chart. -/
  | http
  /-- A frame of the browser. -/
  | browser

structure Feeds (K : Type) where
  stream : Stream K := {}
  announced : Nat → Option String := fun _ => none
  since : List (Origin × StoreCall K) := []

/-- What the chart fetched, and when: the minutes of a pair with the generation they were asked for, or its
days. -/
inductive Fetched (K : Type)
  | minutes (s : String) (bars : List (Candle K)) (gen : Nat)
  | days (s : String) (bars : List (Candle K)) (fetched : Int)

/-- `useMinuteHistory` and `useDailyHistory`: the calls of the store. -/
def Fetched.calls : Fetched K → List (StoreCall K)
  | .minutes s bars gen => [.mergeMinutes s bars .history, .historyLoaded s gen]
  | .days s bars fetched => [.setDaily s bars fetched]

/-- The provider a frame announces. -/
def ServerFrame.provider : ServerFrame K → Option (Option String)
  | .hello feed | .status feed => some feed.provider
  | _ => none

namespace Feeds

inductive Event (K : Type)
  | page (e : Stream.Event K)
  /-- An answer to the chart, at any time. -/
  | fetched (answer : Fetched K)

/-- A call noted with where it came from. -/
def note (origin : Origin) (since : List (Origin × StoreCall K)) : StoreCall K → List (Origin × StoreCall K)
  | .clearMarket => []
  | c => since ++ [(origin, c)]

/-- Whether a message is applied. -/
def heard (f : Feeds K) (k : Nat) : Bool := (f.stream.sockets k).any fun sock => f.stream.isLive sock.owner

variable [DecidableEq K] [LT K] [DecidableLT K]

def step (f : Feeds K) : Event K → Option (Feeds K)
  | .page e => (f.stream.step e).map fun stream =>
    match e with
    | .message k frame now =>
      if f.heard k then
        let announced := Function.update f.announced k (frame.provider.getD (f.announced k))
        ⟨stream, announced, (frame.calls f.stream.store now).foldl (note (.socket (announced k))) f.since⟩
      else { f with stream := stream }
    | .paint => { f with stream := stream, since := f.since ++ [(.browser, .frame)] }
    | _ => { f with stream := stream }
  | .fetched answer => some { f with
      stream := { f.stream with store := answer.calls.foldl (fun store c => store.advance ([], c)) f.stream.store }
      since := answer.calls.foldl (note .http) f.since }

/-- A socket that is heard announces a provider by name, and before any data. -/
def Announces (f : Feeds K) : Event K → Prop
  | .page (.message k (.hello feed) _) | .page (.message k (.status feed) _) =>
    f.heard k = true → feed.provider ≠ none
  | .page (.message k (.snapshot _) _) | .page (.message k (.tick _) _) | .page (.message k (.vol _) _)
  | .page (.message k (.alert _) _) => f.heard k = true → f.announced k ≠ none
  | _ => True

/-- A call from a socket is of the provider shown, one over HTTP puts minutes or days, and the browser runs
frames. -/
def Admits (shown : Option String) : Origin → StoreCall K → Prop
  | .socket announced, _ => announced ≠ none ∧ announced = shown
  | .http, c => ∃ answer : Fetched K, c ∈ answer.calls
  | .browser, c => c = .frame

end Feeds

/-- Pages whose sockets do. -/
def feedsLts (K : Type) [DecidableEq K] [LT K] [DecidableLT K] : Lts (Feeds K) (Feeds.Event K) :=
  (Lts.ofFn {} Feeds.step).guard Feeds.Announces

namespace Feeds

variable {f g : Feeds K}

/-! ## Cells and calls -/

theorem cell_setConn (store : MarketStore K) (state : ConnState) (attempt : Nat) (a : String) :
    (store.setConn state attempt).1.cell a = store.cell a := by
  rw [MarketStore.setConn, MarketStore.cell_emit, MarketStore.cell_touch]
  rfl

theorem feed_setConn (store : MarketStore K) (state : ConnState) (attempt : Nat) :
    (store.setConn state attempt).1.feed = store.feed := by
  unfold MarketStore.setConn MarketStore.touch
  split <;> rfl

variable [DecidableEq K] [LT K] [DecidableLT K]

/-- What the noted calls make of a pair. -/
def made (since : List (Origin × StoreCall K)) (a : String) : Cell K :=
  (since.map Prod.snd).foldl (Cell.call a) {}

theorem made_note (origin : Origin) (since : List (Origin × StoreCall K)) (c : StoreCall K)
    (a : String) : made (note origin since c) a = (made since a).call a c := by
  cases c with
  | clearMarket => exact (Cell.call_of_none (c := .clearMarket) rfl).symm
  | _ => simp [made, note]

theorem keyed_made {store : MarketStore K} {since : List (Origin × StoreCall K)}
    (h : ∀ a, store.cell a = made since a) : ∀ a q, store.buf.get? a = some q → q.symbol = a := by
  have hwaiting : ∀ (calls : List (StoreCall K)) (a : String) (cell : Cell K),
      (∀ q, cell.waiting = some q → q.symbol = a) →
        ∀ q, (calls.foldl (Cell.call a) cell).waiting = some q → q.symbol = a := by
    intro calls a
    induction calls with
    | nil => exact fun _ h => h
    | cons c calls ih => exact fun cell h => ih _ (Cell.waiting_call h c)
  intro a q hq
  have hcell : (store.cell a).waiting = some q := hq
  rw [h a] at hcell
  exact hwaiting _ a {} (fun _ hnone => by cases hnone) q hcell

/-- Calls applied and calls noted. -/
theorem cells_calls (origin : Origin) (calls : List (StoreCall K)) {store : MarketStore K}
    {since : List (Origin × StoreCall K)} (hsettled : MarketStore.Settled store)
    (h : ∀ a, store.cell a = made since a) :
    ∀ a, (calls.foldl (fun store c => store.advance ([], c)) store).cell a
      = made (calls.foldl (note origin) since) a := by
  induction calls generalizing store since with
  | nil => exact h
  | cons c calls ih =>
    refine ih (MarketStore.settled_advance hsettled ([], c)) ?_
    intro a
    rw [made_note, ← h a]
    exact (MarketStore.advance_spec hsettled (keyed_made h) ([], c)).2 a

/-! ## Sockets -/

omit [DecidableEq K] [LT K] [DecidableLT K] in
/-- What an event other than a message or a frame of the browser leaves: the store but for its connection, and
the sockets that are heard. -/
structure Quiet (s t : Stream K) : Prop where
  store : t.store = s.store ∨ ∃ state attempt, t.store = (s.store.setConn state attempt).1
  made : s.made ≤ t.made
  heard : ∀ k sock, t.sockets k = some sock → t.isLive sock.owner = true → k < s.made →
    ∃ sock', s.sockets k = some sock' ∧ s.isLive sock'.owner = true

omit [DecidableEq K] [LT K] [DecidableLT K] in
/-- A step of one client: its own sockets, and what it says. -/
theorem Quiet.of_client {s u : Stream K} (i : Nat) (state : ConnState) (attempt : Nat) (hstore : u.store = s.store)
    (hmade : s.made ≤ u.made) (hlive : ∀ j, u.isLive j = s.isLive j)
    (howner : ∀ k sock, u.sockets k = some sock → k < s.made → ∃ sock', s.sockets k = some sock' ∧
      sock'.owner = sock.owner) : Quiet s (u.onStateChange i state attempt) where
  store := by
    unfold Stream.onStateChange
    split
    · exact .inr ⟨state, attempt, by rw [hstore]⟩
    · exact .inl hstore
  made := by rw [Stream.made_onStateChange]; exact hmade
  heard k sock hsock hheard hlt := by
    rw [Stream.sockets_onStateChange] at hsock
    rw [Stream.isLive_onStateChange, hlive] at hheard
    obtain ⟨sock', hsock', hsame⟩ := howner k sock hsock hlt
    exact ⟨sock', hsock', hsame ▸ hheard⟩

omit [DecidableEq K] [LT K] [DecidableLT K] in
/-- A socket that is made is no old one. -/
theorem Quiet.of_connect {s u : Stream K} (i : Nat) (hstore : u.store = s.store) (hmade : u.made = s.made)
    (hheard : ∀ k sock, u.sockets k = some sock → u.isLive sock.owner = true → k < s.made →
      ∃ sock', s.sockets k = some sock' ∧ s.isLive sock'.owner = true) : Quiet s (u.connect i) where
  store := by
    unfold Stream.connect Stream.onStateChange
    dsimp only
    split
    · exact .inr ⟨_, _, by rw [← hstore]; rfl⟩
    · exact .inl hstore
  made := by
    have hwiring := Stream.wiring_connect u i
    simp only [Stream.wiring, Prod.mk.injEq] at hwiring
    omega
  heard k sock hsock hlive hlt := by
    have hwiring := Stream.wiring_connect u i
    simp only [Stream.wiring, Prod.mk.injEq] at hwiring
    obtain ⟨-, hcount, hsockets, -, hstill⟩ := hwiring
    rw [hsockets, Function.update_of_ne (by omega)] at hsock
    rw [Stream.isLive, hstill, hcount] at hlive
    exact hheard k sock hsock hlive hlt

omit [DecidableEq K] [LT K] [DecidableLT K] in
theorem made_cleanup (s : Stream K) : s.cleanup.made = s.made := by
  unfold Stream.cleanup Stream.close
  dsimp only
  split <;> rfl

omit [DecidableEq K] [LT K] [DecidableLT K] in
/-- A socket that is gone or stays its client's. -/
theorem Quiet.of_socket {s : Stream K} {k : Nat} {new : Option Socket} (i : Nat) (c : Client) (state : ConnState)
    (attempt : Nat) (hnew : ∀ sock ∈ new, ∃ sock', s.sockets k = some sock' ∧ sock'.owner = sock.owner) :
    Quiet s (((s.setSocket k new).setClient i c).onStateChange i state attempt) := by
  refine Quiet.of_client i state attempt rfl le_rfl (fun _ => rfl) ?_
  intro j sock hsock _
  by_cases hj : j = k
  · subst hj
    have hupdate : Function.update s.sockets j new j = some sock := hsock
    rw [Function.update_self] at hupdate
    exact hnew sock hupdate
  · have hupdate : Function.update s.sockets k new j = some sock := hsock
    rw [Function.update_of_ne hj] at hupdate
    exact ⟨sock, hupdate, rfl⟩

omit [DecidableEq K] [LT K] [DecidableLT K] in
/-- A client that is made has no socket yet. -/
theorem Quiet.of_mount {s u : Stream K} (hu : Stream.Wired u) (hstore : u.store = s.store) (hmade : u.made = s.made) :
    Quiet s u.mount := by
  refine Quiet.of_connect _ hstore hmade ?_
  intro k sock hsock hlive _
  have howner := (hu.owner k sock hsock).1
  have hnewest : sock.owner + 1 = u.count + 1 := (Stream.isLive_iff.mp hlive).2
  omega

theorem quiet_step {s t : Stream K} (hw : Stream.Wired s) {e : Stream.Event K} (hstep : s.step e = some t)
    (hmessage : ∀ k frame now, e ≠ .message k frame now) (hpaint : e ≠ .paint) : Quiet s t := by
  cases Stream.takes_of_step hstep with
  | opened hsock => exact Quiet.of_socket _ _ _ _ fun sock hnew => ⟨_, hsock, by cases hnew; rfl⟩
  | failed hsock =>
    refine ⟨.inl rfl, le_rfl, ?_⟩
    simp only [Stream.setSocket, Stream.isLive, Function.update_apply]
    grind
  | closed hsock =>
    unfold Stream.onclose
    dsimp only
    split
    · exact Quiet.of_socket _ _ _ _ fun sock hnew => by cases hnew
    · exact Quiet.of_socket _ _ _ _ fun sock hnew => by cases hnew
  | heard => exact absurd rfl (hmessage _ _ _)
  | unheard => exact absurd rfl (hmessage _ _ _)
  | @timeout i => exact Quiet.of_connect i rfl rfl fun k sock hsock hlive _ => ⟨sock, hsock, hlive⟩
  | mount => exact Quiet.of_mount hw rfl rfl
  | remount hlive => exact Quiet.of_mount (hw.cleanup hlive) (Stream.store_cleanup s) (made_cleanup s)
  | unmount =>
    refine ⟨.inl (Stream.store_cleanup s), (made_cleanup s).ge, ?_⟩
    intro k sock _ hlive
    rw [Stream.isLive, Stream.live_cleanup] at hlive
    cases hlive
  | paint => exact absurd rfl hpaint

structure Sound (f : Feeds K) : Prop where
  stream : Stream.Sound f.stream
  cells : ∀ a, f.stream.store.cell a = made f.since a
  /-- A socket that was not made has announced nothing. -/
  fresh : ∀ k, f.stream.made ≤ k → f.announced k = none
  /-- The socket that is heard announced the provider shown, if it announced one. -/
  heard : ∀ k, f.heard k = true → f.announced k = none ∨ f.announced k = f.stream.store.feed.provider
  since : ∀ e ∈ f.since, Admits f.stream.store.feed.provider e.1 e.2

/-- A frame that announces a provider. -/
theorem feed_announce (store : MarketStore K) (feed : FeedStatus) (now : String)
    {frame : ServerFrame K} (hframe : frame = .hello feed ∨ frame = .status feed) :
    (Stream.receive store frame now).feed = feed := by
  have hset : ∀ store : MarketStore K, (store.advance ([], .setFeed feed)).feed = feed := by
    intro store
    show (({ store with feed := feed } : MarketStore K).touch .feed).feed = feed
    unfold MarketStore.touch
    split <;> rfl
  rcases hframe with rfl | rfl
  all_goals
    unfold Stream.receive ServerFrame.calls
    dsimp only
    split <;> exact hset _

/-- Calls that announce nothing. -/
theorem feed_calls {calls : List (StoreCall K)} {store : MarketStore K} (h : MarketStore.Settled store)
    (hcalls : ∀ c ∈ calls, ∀ feed, c ≠ .setFeed feed) :
    (calls.foldl (fun store c => store.advance ([], c)) store).feed = store.feed := by
  induction calls generalizing store with
  | nil => rfl
  | cons c calls ih =>
    have hrest := ih (MarketStore.settled_advance h ([], c)) fun c' hc' => hcalls c' (List.mem_cons_of_mem _ hc')
    exact hrest.trans ((MarketStore.status_advance h c).2 (hcalls c (List.mem_cons_self ..)))

/-- A frame that announces none. -/
theorem feed_data {store : MarketStore K} (h : MarketStore.Settled store) (now : String)
    {frame : ServerFrame K} (hframe : frame.provider = none) :
    (Stream.receive store frame now).feed = store.feed := by
  have hcalls : ∀ c ∈ frame.calls store now, ∀ feed, c ≠ .setFeed feed := by
    intro c hc feed heq
    subst heq
    cases frame with
    | hello feed => cases hframe
    | status feed => cases hframe
    | snapshot data => simp [ServerFrame.calls, SymbolSnapshot.calls] at hc
    | tick frame =>
      simp only [ServerFrame.calls, TickFrame.calls] at hc
      cases hbar : frame.bar <;> simp [hbar] at hc
    | vol frame => simp [ServerFrame.calls, VolFrame.calls] at hc
    | alert t => simp [ServerFrame.calls] at hc
    | pong => simp [ServerFrame.calls] at hc
    | error => simp [ServerFrame.calls] at hc
  exact feed_calls h hcalls

omit [DecidableEq K] [LT K] [DecidableLT K] in
theorem mem_notes {origin : Origin} {calls : List (StoreCall K)}
    {since : List (Origin × StoreCall K)} {e : Origin × StoreCall K}
    (h : e ∈ calls.foldl (note origin) since) : e ∈ since ∨ e.1 = origin ∧ e.2 ∈ calls := by
  induction calls generalizing since with
  | nil => exact .inl h
  | cons c calls ih =>
    rcases ih h with hmem | ⟨horigin, hin⟩
    · cases c with
      | clearMarket => cases hmem
      | _ =>
        rcases List.mem_append.mp hmem with hmem | hmem
        · exact .inl hmem
        · rw [List.mem_singleton.mp hmem]
          exact .inr ⟨rfl, List.mem_cons_self ..⟩
    · exact .inr ⟨horigin, List.mem_cons_of_mem _ hin⟩

/-- After an announcement only calls of the provider it names are left. -/
theorem since_announce (h : Sound f) {feed : FeedStatus} (hnamed : feed.provider ≠ none) {now : String}
    {frame : ServerFrame K} (hframe : frame = .hello feed ∨ frame = .status feed)
    {e : Origin × StoreCall K}
    (he : e ∈ (frame.calls f.stream.store now).foldl (note (.socket feed.provider)) f.since) :
    Admits feed.provider e.1 e.2 := by
  have hcalls : frame.calls f.stream.store now
      = if switchedProvider f.stream.store feed.provider then [.clearMarket, .setFeed feed] else [.setFeed feed] := by
    rcases hframe with rfl | rfl <;> rfl
  rw [hcalls] at he
  split at he
  · obtain rfl : e = (.socket feed.provider, .setFeed feed) := by simpa [note] using he
    exact ⟨hnamed, rfl⟩
  · next hsame =>
    have hmem : e ∈ f.since ∨ e = (.socket feed.provider, .setFeed feed) := by simpa [note] using he
    rcases hmem with hold | rfl
    · have hadmits := h.since e hold
      obtain ⟨origin, c⟩ := e
      cases origin with
      | http => exact hadmits
      | browser => exact hadmits
      | socket announced =>
        -- the market was not cleared, so the provider is still the one shown
        obtain ⟨hsome, hprovider⟩ : announced ≠ none ∧ announced = f.stream.store.feed.provider := hadmits
        subst hprovider
        refine ⟨hsome, ?_⟩
        by_contra hdiffer
        exact hsame (by simp [switchedProvider, hsome, hnamed, hdiffer])
    · exact ⟨hnamed, rfl⟩

omit [DecidableEq K] [LT K] [DecidableLT K] in
theorem heard_iff {k : Nat} : f.heard k = true ↔
    ∃ sock, f.stream.sockets k = some sock ∧ f.stream.isLive sock.owner = true := by
  unfold heard
  cases f.stream.sockets k <;> simp

omit [DecidableEq K] [LT K] [DecidableLT K] in
/-- One socket is heard. -/
theorem eq_of_heard (hw : Stream.Wired f.stream) {k k' : Nat} (h : f.heard k = true) (h' : f.heard k' = true) :
    k = k' := by
  obtain ⟨sock, hsock, hlive⟩ := heard_iff.mp h
  obtain ⟨sock', hsock', hlive'⟩ := heard_iff.mp h'
  have hsame : sock.owner = sock'.owner := by
    have hnewest := (Stream.isLive_iff.mp hlive).2
    have hnewest' := (Stream.isLive_iff.mp hlive').2
    omega
  have hws := (hw.owner k sock hsock).2
  rw [hsame, (hw.owner k' sock' hsock').2, Option.some.injEq] at hws
  exact hws.symm

theorem Sound.quiet (h : Sound f) {stream : Stream K} (hq : Quiet f.stream stream)
    (hstream : Stream.Sound stream) : Sound { f with stream := stream } := by
  have hstore : (∀ a, stream.store.cell a = f.stream.store.cell a) ∧
      stream.store.feed = f.stream.store.feed := by
    rcases hq.store with hsame | ⟨state, attempt, hset⟩
    · rw [hsame]
      exact ⟨fun _ => rfl, rfl⟩
    · rw [hset]
      exact ⟨cell_setConn _ _ _, feed_setConn _ _ _⟩
  refine ⟨hstream, ?_, ?_, ?_, ?_⟩
  · intro a
    rw [hstore.1]
    exact h.cells a
  · intro k hk
    exact h.fresh k (hq.made.trans hk)
  · intro k hheard
    rw [hstore.2]
    obtain ⟨sock, hsock, hlive⟩ := heard_iff.mp hheard
    rcases Nat.lt_or_ge k f.stream.made with hold | hnew
    · exact h.heard k (heard_iff.mpr (hq.heard k sock hsock hlive hold))
    · exact .inl (h.fresh k hnew)
  · intro e he
    rw [hstore.2]
    exact h.since e he

/-- A frame of the browser is nobody's. -/
theorem Sound.paint (h : Sound f)
    (hstream : Stream.Sound { f.stream with store := f.stream.store.advance ([], .frame) }) :
    Sound { f with
      stream := { f.stream with store := f.stream.store.advance ([], .frame) }
      since := f.since ++ [(.browser, .frame)] } := by
  have hfeed : (f.stream.store.advance ([], .frame)).feed = f.stream.store.feed :=
    (MarketStore.status_advance h.stream.settled .frame).2 fun _ heq => by cases heq
  refine ⟨hstream, ?_, h.fresh, ?_, ?_⟩
  · intro a
    have hcell := (MarketStore.advance_spec h.stream.settled (keyed_made h.cells) ([], .frame)).2 a
    show (f.stream.store.advance ([], .frame)).cell a = made (note .browser f.since .frame) a
    rw [hcell, made_note, h.cells a]
  · intro k hheard
    rw [hfeed]
    exact h.heard k hheard
  · intro e he
    rw [hfeed]
    rcases List.mem_append.mp he with he | he
    · exact h.since e he
    · rw [List.mem_singleton.mp he]
      rfl

omit [DecidableEq K] [LT K] [DecidableLT K] in
theorem calls_fetched {answer : Fetched K} {c : StoreCall K} (hc : c ∈ answer.calls) :
    (∀ feed, c ≠ .setFeed feed) ∧ ∀ state attempt, c ≠ .setConn state attempt := by
  refine ⟨fun feed heq => ?_, fun state attempt heq => ?_⟩
  all_goals
    subst heq
    cases answer <;> simp [Fetched.calls] at hc

/-- An answer to the chart is nobody's either. -/
theorem Sound.fetched (h : Sound f) (answer : Fetched K) :
    Sound { f with
      stream := { f.stream with store := answer.calls.foldl (fun store c => store.advance ([], c)) f.stream.store }
      since := answer.calls.foldl (note .http) f.since } := by
  have hfeed : (answer.calls.foldl (fun store c => store.advance ([], c)) f.stream.store).feed
      = f.stream.store.feed :=
    feed_calls h.stream.settled fun c hc => (calls_fetched hc).1
  obtain ⟨hsettled, hconn⟩ := MarketStore.conn_calls answer.calls h.stream.settled fun c hc =>
    (calls_fetched hc).2
  refine ⟨⟨hsettled, h.stream.wired.congr rfl, ?_⟩, cells_calls _ _ h.stream.settled h.cells, h.fresh, ?_, ?_⟩
  · dsimp only
    rw [hconn]
    exact h.stream.reports.congr rfl
  · intro k hheard
    dsimp only
    rw [hfeed]
    exact h.heard k hheard
  · intro e he
    dsimp only at he ⊢
    rw [hfeed]
    rcases mem_notes he with hold | ⟨horigin, hin⟩
    · exact h.since e hold
    · rw [horigin]
      exact ⟨answer, hin⟩

omit [DecidableEq K] [LT K] [DecidableLT K] in
theorem announces_of_provider {frame : ServerFrame K} {provider : Option String}
    (h : frame.provider = some provider) :
    ∃ feed, (frame = .hello feed ∨ frame = .status feed) ∧ feed.provider = provider := by
  cases frame with
  | hello feed => exact ⟨feed, .inl rfl, Option.some.inj h⟩
  | status feed => exact ⟨feed, .inr rfl, Option.some.inj h⟩
  | _ => cases h

/-- The calls of a frame come under the provider shown after it. -/
theorem since_message (h : Sound f) {k : Nat} {frame : ServerFrame K} {now : String} (hheard : f.heard k = true)
    (hannounces : Announces f (.page (.message k frame now))) {e : Origin × StoreCall K}
    (he : e ∈ (frame.calls f.stream.store now).foldl (note (.socket (frame.provider.getD (f.announced k))))
      f.since) : Admits (Stream.receive f.stream.store frame now).feed.provider e.1 e.2 := by
  cases hprovider : frame.provider with
  | some provider =>
    obtain ⟨feed, hframe, rfl⟩ := announces_of_provider hprovider
    have hnamed : feed.provider ≠ none := by
      rcases hframe with rfl | rfl <;> exact hannounces hheard
    rw [feed_announce f.stream.store feed now hframe]
    rw [hprovider] at he
    exact since_announce h hnamed hframe he
  | none =>
    rw [feed_data h.stream.settled now hprovider]
    rw [hprovider] at he
    rcases mem_notes he with hold | ⟨horigin, hin⟩
    · exact h.since e hold
    · have hsome : f.announced k ≠ none := by
        cases frame with
        | hello feed => cases hprovider
        | status feed => cases hprovider
        | pong => cases hin
        | error => cases hin
        | _ => exact hannounces hheard
      rw [horigin]
      exact ⟨hsome, (h.heard k hheard).resolve_left hsome⟩

/-- A frame that is applied. -/
theorem Sound.message (h : Sound f) {k : Nat} {frame : ServerFrame K} {now : String} (hheard : f.heard k = true)
    (hannounces : Announces f (.page (.message k frame now)))
    (hstream : Stream.Sound { f.stream with store := Stream.receive f.stream.store frame now }) :
    Sound ⟨{ f.stream with store := Stream.receive f.stream.store frame now },
      Function.update f.announced k (frame.provider.getD (f.announced k)),
      (frame.calls f.stream.store now).foldl (note (.socket (frame.provider.getD (f.announced k)))) f.since⟩ where
  stream := hstream
  cells := cells_calls _ (frame.calls f.stream.store now) h.stream.settled h.cells
  fresh k' hk' := by
    obtain ⟨sock, hsock, -⟩ := heard_iff.mp hheard
    have hne : k' ≠ k := by
      rintro rfl
      rw [h.stream.wired.ahead _ hk'] at hsock
      cases hsock
    show Function.update f.announced k _ k' = none
    rw [Function.update_of_ne hne]
    exact h.fresh k' hk'
  heard k' hheard' := by
    obtain rfl : k' = k := eq_of_heard h.stream.wired hheard' hheard
    show Function.update f.announced k' _ k' = none ∨ Function.update f.announced k' _ k'
      = (Stream.receive f.stream.store frame now).feed.provider
    rw [Function.update_self]
    cases hprovider : frame.provider with
    | none =>
      rw [feed_data h.stream.settled now hprovider]
      exact h.heard k' hheard
    | some provider =>
      obtain ⟨feed, hframe, rfl⟩ := announces_of_provider hprovider
      rw [feed_announce f.stream.store feed now hframe]
      exact .inr rfl
  since e he := since_message h hheard hannounces he

/-- **One event.** -/
theorem Sound.step (h : Sound f) {e : Event K} (hstep : f.step e = some g) (hannounces : Announces f e) :
    Sound g := by
  cases e with
  | fetched answer =>
    cases hstep
    exact h.fetched answer
  | page e =>
    obtain ⟨stream, hs, hg⟩ := Option.map_eq_some_iff.mp hstep
    have hstream := h.stream.step hs
    cases e with
    | message k frame now =>
      cases Stream.takes_of_step hs with
      | @heard _ _ _ sock hsock hlive =>
        have hheard : f.heard k = true := by rw [Feeds.heard, hsock, Option.any_some, hlive]
        simp only [hheard, if_true, Function.update_self] at hg
        cases hg
        exact h.message hheard hannounces hstream
      | @unheard _ _ _ sock hsock hgone =>
        have hnot : f.heard k = false := by rw [Feeds.heard, hsock, Option.any_some, hgone]
        simp only [hnot, Bool.false_eq_true, if_false] at hg
        cases hg
        exact h
    | paint =>
      cases hs
      cases hg
      exact h.paint hstream
    | _ =>
      cases hg
      refine h.quiet (quiet_step h.stream.wired hs ?_ ?_) hstream
      · intro k frame now heq
        cases heq
      · intro heq
        cases heq

theorem sound_of_feeds (h : (feedsLts K).Reachable f) : Sound f := by
  refine h.invariant (I := Sound) ?_ ?_
  · rintro _ rfl
    exact ⟨⟨MarketStore.settled_init, Stream.wired_init, Stream.reports_of_dead rfl⟩, fun _ => rfl, fun _ _ => rfl,
      fun _ _ => .inl rfl, fun _ he => by cases he⟩
  · intro f e g hf hstep
    exact hf.step hstep.1 hstep.2

end Feeds

/--
**Another provider's prices are not this one's past.**

However sockets and clients come and go, wherever the server swaps the provider, and whenever the chart's requests
are answered: as long as a socket that is heard names a provider in each `hello` and `status`, and before any
data, what the page holds of a pair is what the calls since the market was last cleared make of it; and each of
these came on a socket that had announced the provider the page now shows, or is an answer of minutes or days
over HTTP, or a frame of the browser.
-/
theorem one_provider [DecidableEq K] [LT K] [DecidableLT K] {f : Feeds K} (h : (feedsLts K).Reachable f) :
    (∀ a, f.stream.store.cell a = (f.since.map Prod.snd).foldl (Cell.call a) {}) ∧
      ∀ e ∈ f.since, Feeds.Admits f.stream.store.feed.provider e.1 e.2 :=
  ⟨(Feeds.sound_of_feeds h).cells, (Feeds.sound_of_feeds h).since⟩

/-- A price under one provider, days over HTTP, and then a price under another. -/
def sampleSwap : List (Feeds.Event Int) :=
  [.page .effect, .page (.opened 0),
    .page (.message 0 (.hello { state := .healthy, provider := some "tiingo" }) ""),
    .page (.message 0 (.tick ⟨"EURUSD", 1, 3, 2, "12:00:00Z", 0, none⟩) ""),
    .page (.message 0 (.status { state := .healthy, provider := some "oanda" }) ""),
    .fetched (.days "GBPUSD" [] 500),
    .page (.message 0 (.tick ⟨"GBPUSD", 4, 6, 5, "12:00:01Z", 1000, none⟩) "")]

theorem one_provider_sampleSwap :
    ∃ f, Lts.exec Feeds.step {} sampleSwap = some f ∧ f.since.length = 4 ∧
      f.stream.store.feed.provider = some "oanda" ∧
      f.stream.store.cell "GBPUSD" = (f.since.map Prod.snd).foldl (Cell.call "GBPUSD") {} := by
  obtain ⟨f, hf⟩ : ∃ f, Lts.exec Feeds.step {} sampleSwap = some f := ⟨_, rfl⟩
  have hparts : (Lts.exec Feeds.step {} sampleSwap).map
      (fun f => (f.since.length, f.stream.store.feed.provider)) = some (4, some "oanda") := rfl
  rw [hf, Option.map_some, Option.some.injEq, Prod.mk.injEq] at hparts
  have hmeets : Lts.Meets Feeds.step Feeds.Announces {} sampleSwap := by
    refine ⟨trivial, ?_⟩
    rintro _ ⟨⟩
    refine ⟨trivial, ?_⟩
    rintro _ ⟨⟩
    refine ⟨fun _ => by decide, ?_⟩
    rintro _ ⟨⟩
    refine ⟨fun _ => by decide, ?_⟩
    rintro _ ⟨⟩
    refine ⟨fun _ => by decide, ?_⟩
    rintro _ ⟨⟩
    refine ⟨trivial, ?_⟩
    rintro _ ⟨⟩
    exact ⟨fun _ => by decide, fun _ _ => trivial⟩
  have hreach : (feedsLts Int).Reachable f := Lts.reachable_of_meets (.init rfl) hmeets hf
  exact ⟨f, hf, hparts.1, hparts.2, (one_provider hreach).1 "GBPUSD"⟩

end FxTracker.Web
