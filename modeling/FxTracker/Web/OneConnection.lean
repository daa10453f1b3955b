import FxTracker.Web.StreamClient

/-!
# One connection, and what the page says of it

However often the effect runs, its clients are closed and opened, and whatever order the events of their
sockets come in: only the newest client has a connection or a wait, it has exactly one of the two, and the
page says what its connection is.

* `Wired` — how clients, sockets and waits hang together, kept by every event
* `Wired.touch`, `Reports.touch` — an event is about one client, and nothing is said of one that is gone
* `one_connection` — at most one connection, never none of both, and nothing from a client that is gone
-/

namespace FxTracker.Web

variable {K : Type}

namespace MarketStore

variable [DecidableEq K] [LT K] [DecidableLT K] {s : MarketStore K}

/-- Only `setConn` writes the connection, and only `setFeed` the feed. -/
theorem status_advance (h : Settled s) (c : StoreCall K) :
    ((∀ state attempt, c ≠ .setConn state attempt) → (s.advance ([], c)).conn = s.conn) ∧
      ((∀ feed, c ≠ .setFeed feed) → (s.advance ([], c)).feed = s.feed) := by
  by_cases hclear : c = .clearMarket
  · subst hclear
    exact ⟨fun _ => rfl, fun _ => rfl⟩
  -- whoever subscribes, the call is the same, and a subscriber of either would have been woken
  have hsame : s.call [] c = s.call [.conn, .feed] c := by
    cases c with
    | clearMarket => exact absurd rfl hclear
    | _ => rfl
  unfold advance
  cases hcall : s.call [] c with
  | none => exact ⟨fun _ => rfl, fun _ => rfl⟩
  | some r =>
    have hkept := kept_call h (hsame ▸ hcall : s.call [.conn, .feed] c = some r)
    have hview : ∀ topic ∈ [Topic.conn, .feed], topic ∉ c.concerns s [.conn, .feed] →
        r.1.view topic = s.view topic :=
      fun topic hmem hconcern => hkept.same topic hmem fun hwoken => hconcern (hkept.only topic hwoken)
    refine ⟨?_, ?_⟩
    · intro hconn
      have hconcern : Topic.conn ∉ c.concerns s [.conn, .feed] := by
        cases c with
        | clearMarket => exact absurd rfl hclear
        | setConn state attempt => exact absurd rfl (hconn state attempt)
        | _ => simp [StoreCall.concerns]
      exact Reading.conn.inj (hview .conn (by simp) hconcern)
    · intro hfeed
      have hconcern : Topic.feed ∉ c.concerns s [.conn, .feed] := by
        cases c with
        | clearMarket => exact absurd rfl hclear
        | setFeed feed => exact absurd rfl (hfeed feed)
        | _ => simp [StoreCall.concerns]
      exact Reading.feed.inj (hview .feed (by simp) hconcern)

theorem settled_advance (h : Settled s) (e : List Topic × StoreCall K) : Settled (s.advance e) := by
  unfold advance
  cases hcall : s.call e.1 e.2 with
  | none => exact h
  | some r => exact (kept_call h hcall).settled

/-- No frame writes the connection. -/
theorem conn_calls (calls : List (StoreCall K)) (h : Settled s)
    (hcalls : ∀ c ∈ calls, ∀ state attempt, c ≠ .setConn state attempt) :
    Settled (calls.foldl (fun store c => store.advance ([], c)) s) ∧
      (calls.foldl (fun store c => store.advance ([], c)) s).conn = s.conn := by
  induction calls generalizing s with
  | nil => exact ⟨h, rfl⟩
  | cons c calls ih =>
    obtain ⟨hsettled, hconn⟩ := ih (settled_advance h ([], c)) fun c' hc' => hcalls c' (List.mem_cons_of_mem _ hc')
    exact ⟨hsettled, hconn.trans ((status_advance h c).1 (hcalls c (List.mem_cons_self ..)))⟩

end MarketStore

theorem ServerFrame.calls_ne_setConn {store : MarketStore K} {now : String} {frame : ServerFrame K} :
    ∀ c ∈ frame.calls store now, ∀ state attempt, c ≠ .setConn state attempt := by
  intro c hc state attempt heq
  subst heq
  cases frame with
  | hello feed | status feed =>
    simp only [ServerFrame.calls] at hc
    split at hc <;> simp at hc
  | snapshot data =>
    simp [ServerFrame.calls, SymbolSnapshot.calls] at hc
  | tick frame =>
    simp only [ServerFrame.calls, TickFrame.calls] at hc
    cases hbar : frame.bar <;> simp [hbar] at hc
  | vol frame => simp [ServerFrame.calls, VolFrame.calls] at hc
  | alert t => simp [ServerFrame.calls] at hc
  | pong | error => simp [ServerFrame.calls] at hc

namespace Stream

/-! ## How they hang together -/

variable {s t : Stream K}

/-- Clients, sockets and waits. -/
structure Wired (s : Stream K) : Prop where
  ahead : ∀ k, s.made ≤ k → s.sockets k = none
  owner : ∀ k sock, s.sockets k = some sock → sock.owner < s.count ∧ (s.clients sock.owner).ws = some k
  ws : ∀ i k, (s.clients i).ws = some k → (s.sockets k).map Socket.owner = some i
  live : s.live = true → 0 < s.count
  /-- A client that is gone was closed: it waits for nothing, and its socket is on its way out. -/
  past : ∀ i, i < s.count → s.isLive i = false → (s.clients i).closedByUs = true ∧
    (s.clients i).reconnectTimer = false ∧
    ∀ k sock, (s.clients i).ws = some k → s.sockets k = some sock → sock.state = .closing
  future : ∀ i, s.count ≤ i → s.clients i = {}
  /-- The newest has a socket or waits for one, and not both. -/
  current : ∀ i, s.isLive i = true → (s.clients i).closedByUs = false ∧
    ((s.clients i).reconnectTimer = true ↔ (s.clients i).ws = none)

/-- What of a page the wiring is about. -/
def wiring (s : Stream K) : (Nat → Client) × Nat × (Nat → Option Socket) × Nat × Bool :=
  (s.clients, s.count, s.sockets, s.made, s.live)

theorem Wired.congr (h : Wired s) (hsame : t.wiring = s.wiring) : Wired t := by
  simp only [wiring, Prod.mk.injEq] at hsame
  obtain ⟨hclients, hcount, hsockets, hmade, hlive⟩ := hsame
  constructor <;> simp only [isLive, hclients, hcount, hsockets, hmade, hlive]
  · exact h.ahead
  · exact h.owner
  · exact h.ws
  · exact h.live
  · exact h.past
  · exact h.future
  · exact h.current

@[simp] theorem wiring_onStateChange (s : Stream K) (i : Nat) (state : ConnState) (attempt : Nat) :
    (s.onStateChange i state attempt).wiring = s.wiring := by
  unfold onStateChange; split <;> rfl

@[simp] theorem sockets_onStateChange (s : Stream K) (i : Nat) (state : ConnState) (attempt : Nat) :
    (s.onStateChange i state attempt).sockets = s.sockets := by
  unfold onStateChange; split <;> rfl

@[simp] theorem made_onStateChange (s : Stream K) (i : Nat) (state : ConnState) (attempt : Nat) :
    (s.onStateChange i state attempt).made = s.made := by
  unfold onStateChange; split <;> rfl

@[simp] theorem isLive_onStateChange (s : Stream K) (i : Nat) (state : ConnState) (attempt j : Nat) :
    (s.onStateChange i state attempt).isLive j = s.isLive j := by
  unfold onStateChange; split <;> rfl

theorem wired_init : Wired ({} : Stream K) := by
  constructor <;> simp [isLive]

theorem isLive_iff {i : Nat} : s.isLive i = true ↔ s.live = true ∧ i + 1 = s.count := by
  simp [isLive]

/-! ## One client at a time -/

/-- How one client hangs together with its socket. -/
structure ClientWired (s : Stream K) (i : Nat) : Prop where
  owner : ∀ k sock, s.sockets k = some sock → sock.owner = i → (s.clients i).ws = some k
  ws : ∀ k, (s.clients i).ws = some k → ∃ sock, s.sockets k = some sock ∧ sock.owner = i
  past : s.isLive i = false → (s.clients i).closedByUs = true ∧ (s.clients i).reconnectTimer = false ∧
    ∀ k sock, (s.clients i).ws = some k → s.sockets k = some sock → sock.state = .closing
  current : s.isLive i = true → (s.clients i).closedByUs = false ∧
    ((s.clients i).reconnectTimer = true ↔ (s.clients i).ws = none)

/-- A client with a socket. -/
theorem ClientWired.of_socket {i k : Nat} {c : Client} {sock : Socket} (hc : s.clients i = c)
    (hws : c.ws = some k) (hsock : s.sockets k = some sock) (howner : sock.owner = i)
    (honly : ∀ k' sock', k' ≠ k → s.sockets k' = some sock' → sock'.owner ≠ i)
    (hpast : s.isLive i = false → c.closedByUs = true ∧ c.reconnectTimer = false ∧ sock.state = .closing)
    (hcurrent : s.isLive i = true → c.closedByUs = false ∧ c.reconnectTimer = false) : ClientWired s i := by
  subst hc
  refine ⟨fun k' sock' hsock' howner' => ?_, fun k' hws' => ?_, fun hgone => ?_, fun hlive => ?_⟩
  · by_contra hne
    refine honly k' sock' ?_ hsock' howner'
    rintro rfl
    exact hne hws
  · rw [hws, Option.some_inj] at hws'
    exact ⟨sock, hws' ▸ hsock, howner⟩
  · obtain ⟨hclosed, htimer, hclosing⟩ := hpast hgone
    refine ⟨hclosed, htimer, fun k' sock' hws' hsock' => ?_⟩
    rw [hws, Option.some_inj] at hws'
    rw [← hws', hsock, Option.some_inj] at hsock'
    exact hsock' ▸ hclosing
  · obtain ⟨hclosed, htimer⟩ := hcurrent hlive
    simp [hclosed, htimer, hws]

/-- A client without one. -/
theorem ClientWired.of_none {i : Nat} {c : Client} (hc : s.clients i = c) (hws : c.ws = none)
    (hnone : ∀ k sock, s.sockets k = some sock → sock.owner ≠ i)
    (hpast : s.isLive i = false → c.closedByUs = true ∧ c.reconnectTimer = false)
    (hcurrent : s.isLive i = true → c.closedByUs = false ∧ c.reconnectTimer = true) : ClientWired s i := by
  subst hc
  refine ⟨fun k sock hsock howner => absurd howner (hnone k sock hsock), fun k hk => ?_, fun hgone => ?_,
    fun hlive => ?_⟩
  · rw [hws] at hk
    cases hk
  · obtain ⟨hclosed, htimer⟩ := hpast hgone
    refine ⟨hclosed, htimer, fun k _ hk => ?_⟩
    rw [hws] at hk
    cases hk
  · obtain ⟨hclosed, htimer⟩ := hcurrent hlive
    simp [hclosed, htimer, hws]

/-- Of a client and of what it has, nothing else changes. -/
structure Touches (i : Nat) (s t : Stream K) : Prop where
  inside : i < t.count
  count : ∀ j, j ≠ i → (j < t.count ↔ j < s.count)
  live : ∀ j, j ≠ i → t.isLive j = s.isLive j
  clients : ∀ j, j ≠ i → t.clients j = s.clients j
  sockets : ∀ k sock, sock.owner ≠ i → (t.sockets k = some sock ↔ s.sockets k = some sock)

/-- A socket of a client. -/
theorem update_socket_iff {sockets : Nat → Option Socket} {i k : Nat} {new : Option Socket}
    (hold : ∀ sock, sockets k = some sock → sock.owner = i) (hnew : ∀ sock, new = some sock → sock.owner = i)
    (k' : Nat) (sock : Socket) (howner : sock.owner ≠ i) :
    Function.update sockets k new k' = some sock ↔ sockets k' = some sock := by
  by_cases hk : k' = k
  · subst hk
    rw [Function.update_self]
    exact ⟨fun h => absurd (hnew sock h) howner, fun h => absurd (hold sock h) howner⟩
  · rw [Function.update_of_ne hk]

/-- **The frame of an event.** It is about one client, and leaves the others as they hang together. -/
theorem Wired.touch (h : Wired s) {i : Nat} (ht : Touches i s t) (hahead : ∀ k, t.made ≤ k → t.sockets k = none)
    (hi : ClientWired t i) : Wired t where
  ahead := hahead
  owner k sock hsock := by
    by_cases howner : sock.owner = i
    · exact ⟨howner ▸ ht.inside, howner ▸ hi.owner k sock hsock howner⟩
    · obtain ⟨hlt, hws⟩ := h.owner k sock ((ht.sockets k sock howner).mp hsock)
      exact ⟨(ht.count _ howner).mpr hlt, by rw [ht.clients _ howner]; exact hws⟩
  ws j k hws := by
    by_cases hj : j = i
    · subst hj
      obtain ⟨sock, hsock, howner⟩ := hi.ws k hws
      rw [hsock, Option.map_some, howner]
    · rw [ht.clients j hj] at hws
      obtain ⟨sock, hsock, howner⟩ := Option.map_eq_some_iff.mp (h.ws j k hws)
      rw [(ht.sockets k sock (howner ▸ hj)).mpr hsock, Option.map_some, howner]
  live _ := Nat.zero_lt_of_lt ht.inside
  past j hj hgone := by
    by_cases hji : j = i
    · subst hji
      exact hi.past hgone
    · rw [ht.live j hji] at hgone
      rw [ht.clients j hji]
      obtain ⟨hclosed, htimer, hclosing⟩ := h.past j ((ht.count j hji).mp hj) hgone
      refine ⟨hclosed, htimer, fun k sock hws hsock => ?_⟩
      obtain ⟨sock', hsock', howner⟩ := Option.map_eq_some_iff.mp (h.ws j k hws)
      rw [(ht.sockets k sock' (howner ▸ hji)).mpr hsock', Option.some_inj] at hsock
      exact hsock ▸ hclosing k sock' hws hsock'
  future j hj := by
    have hji : j ≠ i := fun heq => absurd ht.inside (by omega)
    rw [ht.clients j hji]
    exact h.future j (not_lt.mp fun hlt => absurd ((ht.count j hji).mpr hlt) (by omega))
  current j hlive := by
    by_cases hji : j = i
    · subst hji
      exact hi.current hlive
    · rw [ht.live j hji] at hlive
      rw [ht.clients j hji]
      exact h.current j hlive

section

variable {i k : Nat} {sock : Socket}

theorem Wired.lt_made (h : Wired s) (hsock : s.sockets k = some sock) : k < s.made := by
  by_contra hge
  rw [h.ahead k (not_lt.mp hge)] at hsock
  cases hsock

/-- A client has one socket. -/
theorem Wired.owner_ne (h : Wired s) (hws : (s.clients i).ws = some k) {k' : Nat} {sock' : Socket} (hk : k' ≠ k)
    (hsock' : s.sockets k' = some sock') : sock'.owner ≠ i := by
  rintro rfl
  have hown := (h.owner k' sock' hsock').2
  rw [hws, Option.some_inj] at hown
  exact hk hown.symm

theorem Wired.ahead_update (h : Wired s) (hk : k < s.made) (new : Option Socket) (k' : Nat) (hk' : s.made ≤ k') :
    Function.update s.sockets k new k' = none := by
  rw [Function.update_of_ne (by omega)]
  exact h.ahead k' hk'

/-- The events of a socket. -/
theorem touches_socket (h : Wired s) (hsock : s.sockets k = some sock) (c : Client) (new : Option Socket)
    (hnew : ∀ sock', new = some sock' → sock'.owner = sock.owner) :
    Touches sock.owner s ((s.setClient sock.owner c).setSocket k new) where
  inside := (h.owner k sock hsock).1
  count _ _ := Iff.rfl
  live _ _ := rfl
  clients _ hj := Function.update_of_ne hj ..
  sockets := update_socket_iff (fun sock' h' => by cases hsock.symm.trans h'; rfl) hnew

/-- A socket that goes on. -/
theorem Wired.setSocket (h : Wired s) (hsock : s.sockets k = some sock) {c : Client} (state : ReadyState)
    (hws : c.ws = (s.clients sock.owner).ws) (hclosed : c.closedByUs = (s.clients sock.owner).closedByUs)
    (htimer : c.reconnectTimer = (s.clients sock.owner).reconnectTimer)
    (hstate : sock.state = .closing → state = .closing) :
    Wired ((s.setClient sock.owner c).setSocket k (some ⟨sock.owner, state⟩)) := by
  obtain ⟨hi, hown⟩ := h.owner k sock hsock
  refine h.touch (touches_socket h hsock c _ fun _ h' => by cases h'; rfl) (h.ahead_update (h.lt_made hsock) _) ?_
  refine .of_socket (Function.update_self ..) (hws.trans hown) (Function.update_self ..) rfl ?_ ?_ ?_
  · intro k' sock' hk hsock'
    exact h.owner_ne hown hk ((Function.update_of_ne hk ..).symm.trans hsock')
  · intro hgone
    obtain ⟨hclosed', htimer', hclosing⟩ := h.past _ hi hgone
    exact ⟨hclosed.trans hclosed', htimer.trans htimer', hstate (hclosing k sock hown hsock)⟩
  · intro hlive
    obtain ⟨hclosed', htimer'⟩ := h.current _ hlive
    rw [hown, iff_false_right (Option.some_ne_none k), Bool.not_eq_true] at htimer'
    exact ⟨hclosed.trans hclosed', htimer.trans htimer'⟩

theorem Wired.opened (h : Wired s) (hsock : s.sockets k = some ⟨i, .connecting⟩) : Wired (s.onopen k i) := by
  refine Wired.congr (h.setSocket hsock (c := { s.clients i with attempt := 0 }) .open rfl rfl rfl ?_)
    (by simp [onopen]; rfl)
  intro heq
  cases heq

theorem Wired.failed (h : Wired s) (hsock : s.sockets k = some sock) :
    Wired (s.setSocket k (some { sock with state := .closing })) := by
  refine Wired.congr (h.setSocket hsock (c := s.clients sock.owner) .closing rfl rfl rfl fun _ => rfl) ?_
  simp [wiring, setClient, Stream.setSocket]

/-- A socket that is closed. -/
theorem Wired.dropSocket (h : Wired s) (hsock : s.sockets k = some sock) {c : Client} (hws : c.ws = none)
    (hclosed : c.closedByUs = (s.clients sock.owner).closedByUs)
    (htimer : c.reconnectTimer = !(s.clients sock.owner).closedByUs) :
    Wired ((s.setClient sock.owner c).setSocket k none) := by
  obtain ⟨hi, hown⟩ := h.owner k sock hsock
  refine h.touch (touches_socket h hsock c _ fun _ h' => by cases h') (h.ahead_update (h.lt_made hsock) _) ?_
  refine .of_none (Function.update_self ..) hws ?_ ?_ ?_
  · intro k' sock' hsock'
    by_cases hk : k' = k
    · subst hk
      cases (Function.update_self ..).symm.trans hsock'
    · exact h.owner_ne hown hk ((Function.update_of_ne hk ..).symm.trans hsock')
  · intro hgone
    have hclosed' := (h.past _ hi hgone).1
    rw [hclosed, htimer, hclosed']
    exact ⟨rfl, rfl⟩
  · intro hlive
    have hclosed' := (h.current _ hlive).1
    rw [hclosed, htimer, hclosed']
    exact ⟨rfl, rfl⟩

theorem Wired.closed (h : Wired s) (hsock : s.sockets k = some sock) : Wired (s.onclose k sock.owner) := by
  unfold onclose
  dsimp only
  split
  · next hours =>
    have hours : (s.clients sock.owner).closedByUs = true := hours
    refine Wired.congr (h.dropSocket hsock (c := { s.clients sock.owner with ws := none }) rfl rfl ?_)
      (by rw [wiring_onStateChange]; rfl)
    have hgone : s.isLive sock.owner = false := by
      by_contra hlive
      rw [(h.current _ (by simpa using hlive)).1] at hours
      cases hours
    rw [hours]
    exact (h.past _ (h.owner k sock hsock).1 hgone).2.1
  · next hours =>
    have hours : (s.clients sock.owner).closedByUs = false := Bool.not_eq_true _ ▸ hours
    refine Wired.congr (h.dropSocket hsock (c := { s.clients sock.owner with
      ws := none, attempt := (s.clients sock.owner).attempt + 1, reconnectTimer := true }) rfl rfl ?_)
      (by rw [wiring_onStateChange]; rfl)
    rw [hours]
    rfl

theorem wiring_connect (s : Stream K) (i : Nat) :
    (s.connect i).wiring = ({ s with
      clients := Function.update s.clients i { s.clients i with ws := some s.made, closedByUs := false }
      sockets := Function.update s.sockets s.made (some ⟨i, .connecting⟩)
      made := s.made + 1 } : Stream K).wiring := by
  unfold connect onStateChange
  dsimp only
  split <;> simp [wiring, setClient, Stream.setSocket]

/-- A new socket, of the client that is live with it. -/
theorem Wired.newSocket (h : Wired s) {c : Client} {count : Nat} {live : Bool} (hws : c.ws = some s.made)
    (hclosed : c.closedByUs = false) (htimer : c.reconnectTimer = false)
    (hnone : ∀ k sock, s.sockets k = some sock → sock.owner ≠ i) (hcount : ∀ j, j ≠ i → (j < count ↔ j < s.count))
    (hlive : live = true ∧ i + 1 = count) (hothers : ∀ j, j ≠ i → s.isLive j = false) :
    Wired { s with
      clients := Function.update s.clients i c
      count := count
      sockets := Function.update s.sockets s.made (some ⟨i, .connecting⟩)
      made := s.made + 1
      live := live } := by
  obtain ⟨rfl, rfl⟩ := hlive
  have hunmade : ∀ k sock, s.sockets k = some sock → k ≠ s.made := fun k sock hsock =>
    Nat.ne_of_lt (h.lt_made hsock)
  refine h.touch (i := i) ⟨Nat.lt_succ_self i, hcount, fun j hj => ?_, fun j hj => Function.update_of_ne hj ..,
    update_socket_iff (fun sock hsock => absurd rfl (hunmade _ sock hsock)) fun _ h' => by cases h'; rfl⟩
    (fun k hk => ?_) ?_
  · rw [hothers j hj]
    simp [isLive, hj]
  · have hk : s.made < k := hk
    exact (Function.update_of_ne (by omega) ..).trans (h.ahead k (by omega))
  · refine .of_socket (Function.update_self ..) hws (Function.update_self ..) rfl ?_ ?_ ?_
    · intro k sock hk hsock
      exact hnone k sock ((Function.update_of_ne hk ..).symm.trans hsock)
    · intro hgone
      simp [isLive] at hgone
    · intro _
      exact ⟨hclosed, htimer⟩

theorem isLive_of_ne (hi : s.isLive i = true) {j : Nat} (hj : j ≠ i) : s.isLive j = false := by
  have hcount := (isLive_iff.mp hi).2
  simp only [isLive, Bool.and_eq_false_iff, decide_eq_false_iff_not]
  omega

/-- Only the newest client waits. -/
theorem Wired.isLive_of_timer (h : Wired s) (htimer : (s.clients i).reconnectTimer = true) : s.isLive i = true := by
  by_contra hgone
  rw [Bool.not_eq_true] at hgone
  by_cases hi : i < s.count
  · rw [(h.past i hi hgone).2.1] at htimer
    cases htimer
  · rw [h.future i (by omega)] at htimer
    cases htimer

/-- The newest client connects again. -/
theorem Wired.timeout (h : Wired s) (htimer : (s.clients i).reconnectTimer = true) :
    Wired ((s.setClient i { s.clients i with reconnectTimer := false }).connect i) := by
  have hlive := h.isLive_of_timer htimer
  have hws := (h.current i hlive).2.mp htimer
  refine Wired.congr (h.newSocket (c := { s.clients i with
    ws := some s.made, closedByUs := false, reconnectTimer := false }) rfl rfl rfl ?_ (fun _ _ => Iff.rfl)
    (isLive_iff.mp hlive) fun j hj => isLive_of_ne hlive hj) ?_
  · rintro k sock hsock rfl
    rw [(h.owner k sock hsock).2] at hws
    cases hws
  · rw [wiring_connect]
    simp [wiring, setClient]

theorem Wired.cleanup (h : Wired s) (hlive : s.live = true) : Wired s.cleanup := by
  have hi : s.isLive (s.count - 1) = true := isLive_iff.mpr ⟨hlive, Nat.sub_add_cancel (h.live hlive)⟩
  have hinside : s.count - 1 < s.count := Nat.sub_lt (h.live hlive) Nat.one_pos
  have hgone : ∀ j, j ≠ s.count - 1 → false = s.isLive j := fun j hj => (isLive_of_ne hi hj).symm
  unfold Stream.cleanup close
  dsimp only
  cases hws : (s.clients (s.count - 1)).ws with
  | some k =>
    obtain ⟨sock, hsock, howner⟩ := Option.map_eq_some_iff.mp (h.ws _ k hws)
    refine h.touch (i := s.count - 1) ⟨hinside, fun _ _ => Iff.rfl, hgone, fun j hj => Function.update_of_ne hj ..,
      update_socket_iff (fun sock' h' => ?_) fun sock' h' => ?_⟩ (h.ahead_update (h.lt_made hsock) _) ?_
    · cases hsock.symm.trans h'
      exact howner
    · obtain ⟨_, hold, rfl⟩ := Option.map_eq_some_iff.mp h'
      cases hsock.symm.trans hold
      exact howner
    · have hclosing : (s.sockets k).map (fun sock => { sock with state := .closing })
          = some ⟨sock.owner, .closing⟩ := by rw [hsock]; rfl
      refine .of_socket (Function.update_self ..) rfl ((Function.update_self ..).trans hclosing) howner ?_ ?_ ?_
      · intro k' sock' hk hsock'
        exact h.owner_ne hws hk ((Function.update_of_ne hk ..).symm.trans hsock')
      · exact fun _ => ⟨rfl, rfl, rfl⟩
      · exact fun hlive' => by cases hlive'
  | none =>
    refine h.touch (i := s.count - 1) ⟨hinside, fun _ _ => Iff.rfl, hgone, fun j hj => Function.update_of_ne hj ..,
      fun _ _ _ => Iff.rfl⟩ h.ahead ?_
    refine .of_none (Function.update_self ..) rfl ?_ ?_ ?_
    · intro k sock hsock howner
      rw [← howner, (h.owner k sock hsock).2] at hws
      cases hws
    · exact fun _ => ⟨rfl, rfl⟩
    · exact fun hlive' => by cases hlive'

theorem live_cleanup (s : Stream K) : s.cleanup.live = false := by
  unfold Stream.cleanup close
  dsimp only
  split <;> rfl

/-- A new client connects, where the one before is closed. -/
theorem Wired.mount (h : Wired s) (hlive : s.live = false) : Wired s.mount := by
  refine Wired.congr (h.newSocket (i := s.count) (c := { ws := some s.made }) rfl rfl rfl
    (fun k sock hsock => Nat.ne_of_lt (h.owner k sock hsock).1) (fun j hj => by omega) ⟨rfl, rfl⟩
    fun j _ => by simp [isLive, hlive]) ?_
  unfold Stream.mount
  rw [wiring_connect]
  simp [wiring, setClient]

end

variable [DecidableEq K] [LT K] [DecidableLT K]

/-- **One event.** -/
theorem Wired.step (h : Wired s) {e : Event K} (hstep : s.step e = some t) : Wired t := by
  cases takes_of_step hstep with
  | opened hsock => exact h.opened hsock
  | failed hsock => exact h.failed hsock
  | closed hsock => exact h.closed hsock
  | heard => exact h.congr rfl
  | unheard => exact h
  | timeout htimer => exact h.timeout htimer
  | mount hdead => exact h.mount hdead
  | remount hlive => exact (h.cleanup hlive).mount (live_cleanup s)
  | unmount hlive => exact h.cleanup hlive
  | paint => exact h.congr rfl

/-! ## What the page says -/

/-- `conn` is what the newest client's connection is. -/
def Reports (s : Stream K) (conn : Conn) : Prop :=
  ∀ i, s.isLive i = true → conn.attempt = (s.clients i).attempt ∧
    ((s.clients i).ws = none → conn.state = .reconnecting) ∧
    ∀ k sock, (s.clients i).ws = some k → s.sockets k = some sock → conn.state ≠ .closed ∧
      (sock.state = .open → conn.state = .open) ∧
      (sock.state = .connecting → conn.state = if (s.clients i).attempt = 0 then .connecting else .reconnecting)

section

omit [DecidableEq K] [LT K] [DecidableLT K]

theorem conn_setConn (store : MarketStore K) (state : ConnState) (attempt : Nat) :
    (store.setConn state attempt).1.conn = ⟨state, attempt⟩ := by
  unfold MarketStore.setConn MarketStore.touch
  split <;> rfl

theorem conn_onStateChange (s : Stream K) (i : Nat) (state : ConnState) (attempt : Nat) :
    (s.onStateChange i state attempt).store.conn = if s.isLive i then ⟨state, attempt⟩ else s.store.conn := by
  unfold onStateChange
  split
  · exact conn_setConn ..
  · rfl

theorem conn_of_live {i : Nat} {state : ConnState} {attempt : Nat} (hlive : s.isLive i = true) :
    (s.onStateChange i state attempt).store.conn = ⟨state, attempt⟩ :=
  (conn_onStateChange ..).trans (if_pos hlive)

theorem conn_of_gone {i : Nat} {state : ConnState} {attempt : Nat} (hgone : s.isLive i = false) :
    (s.onStateChange i state attempt).store.conn = s.store.conn :=
  (conn_onStateChange ..).trans (if_neg (by rw [hgone]; exact Bool.false_ne_true))

variable {conn : Conn}

theorem Reports.congr (h : Reports s conn) (hsame : t.wiring = s.wiring) : Reports t conn := by
  simp only [wiring, Prod.mk.injEq] at hsame
  obtain ⟨hclients, hcount, hsockets, -, hlive⟩ := hsame
  unfold Reports isLive
  rw [hclients, hcount, hsockets, hlive]
  exact h

/-- The newest client has a socket. -/
theorem Reports.of_socket {i k : Nat} {c : Client} {sock : Socket} (hlive : s.isLive i = true)
    (hc : s.clients i = c) (hws : c.ws = some k) (hsock : s.sockets k = some sock)
    (hattempt : conn.attempt = c.attempt) (hopen : sock.state = .open → conn.state = .open)
    (hconnecting : sock.state = .connecting → conn.state = if c.attempt = 0 then .connecting else .reconnecting)
    (hstate : conn.state ≠ .closed) : Reports s conn := by
  subst hc
  intro j hj
  obtain rfl : j = i := by_contra fun hne => by rw [isLive_of_ne hlive hne] at hj; cases hj
  refine ⟨hattempt, fun hnone => ?_, fun k' sock' hws' hsock' => ?_⟩
  · rw [hws] at hnone
    cases hnone
  · cases hws.symm.trans hws'
    cases hsock.symm.trans hsock'
    exact ⟨hstate, hopen, hconnecting⟩

/-- It waits for one. -/
theorem Reports.of_none {i : Nat} {c : Client} (hlive : s.isLive i = true) (hc : s.clients i = c)
    (hws : c.ws = none) (hattempt : conn.attempt = c.attempt) (hstate : conn.state = .reconnecting) :
    Reports s conn := by
  subst hc
  intro j hj
  obtain rfl : j = i := by_contra fun hne => by rw [isLive_of_ne hlive hne] at hj; cases hj
  refine ⟨hattempt, fun _ => hstate, fun k sock hws' => ?_⟩
  rw [hws] at hws'
  cases hws'

/-- **Nothing is said** of a client that is gone. -/
theorem Reports.touch (h : Reports s conn) (hw : Wired s) {i : Nat} (ht : Touches i s t)
    (hgone : t.isLive i = false) : Reports t conn := by
  intro j hj
  have hji : j ≠ i := by
    rintro rfl
    rw [hgone] at hj
    cases hj
  rw [ht.live j hji] at hj
  rw [ht.clients j hji]
  obtain ⟨hattempt, hnone, hsome⟩ := h j hj
  refine ⟨hattempt, hnone, fun k sock hws hsock => ?_⟩
  obtain ⟨sock', hsock', howner⟩ := Option.map_eq_some_iff.mp (hw.ws j k hws)
  cases hsock.symm.trans ((ht.sockets k sock' (howner ▸ hji)).mpr hsock')
  exact hsome k sock hws hsock'

variable {i k : Nat} {sock : Socket}

theorem Reports.opened (h : Reports s s.store.conn) (hw : Wired s) (hsock : s.sockets k = some ⟨i, .connecting⟩) :
    Reports (s.onopen k i) (s.onopen k i).store.conn := by
  have hws : (s.clients i).ws = some k := (hw.owner k _ hsock).2
  have ht := touches_socket hw hsock { s.clients i with attempt := 0 } (some ⟨i, .open⟩)
    fun _ h' => by cases h'; rfl
  refine Reports.congr (s := (s.setClient i { s.clients i with attempt := 0 }).setSocket k (some ⟨i, .open⟩)) ?_
    (by simp [onopen]; rfl)
  cases hlive : s.isLive i with
  | true =>
    have hconn : (s.onopen k i).store.conn = ⟨.open, 0⟩ := conn_of_live hlive
    rw [hconn]
    exact .of_socket hlive (Function.update_self ..) hws (Function.update_self ..) rfl (fun _ => rfl)
      (fun heq => by cases heq) (fun heq => by cases heq)
  | false =>
    have hconn : (s.onopen k i).store.conn = s.store.conn := conn_of_gone hlive
    rw [hconn]
    exact h.touch hw ht hlive

theorem Reports.failed (h : Reports s s.store.conn) (hw : Wired s) (hsock : s.sockets k = some sock) :
    Reports (s.setSocket k (some { sock with state := .closing })) s.store.conn := by
  have hws : (s.clients sock.owner).ws = some k := (hw.owner k _ hsock).2
  have ht := touches_socket hw hsock (s.clients sock.owner) (some ⟨sock.owner, .closing⟩)
    fun _ h' => by cases h'; rfl
  have hsame : (s.setSocket k (some { sock with state := .closing })).wiring
      = ((s.setClient sock.owner (s.clients sock.owner)).setSocket k (some ⟨sock.owner, .closing⟩)).wiring := by
    simp [wiring, setClient, setSocket]
  cases hlive : s.isLive sock.owner with
  | true =>
    obtain ⟨hattempt, -, hsome⟩ := h _ hlive
    exact .of_socket hlive rfl hws (Function.update_self ..) hattempt (fun heq => by cases heq)
      (fun heq => by cases heq) (hsome k sock hws hsock).1
  | false => exact (h.touch hw ht hlive).congr hsame

theorem Reports.closed (h : Reports s s.store.conn) (hw : Wired s) (hsock : s.sockets k = some sock) :
    Reports (s.onclose k sock.owner) (s.onclose k sock.owner).store.conn := by
  cases hlive : s.isLive sock.owner with
  | true =>
    -- its socket is gone, and it waits
    have hours := (hw.current _ hlive).1
    have hclose : s.onclose k sock.owner = ((s.setSocket k none).setClient sock.owner { s.clients sock.owner with
        ws := none, attempt := (s.clients sock.owner).attempt + 1, reconnectTimer := true }).onStateChange
        sock.owner .reconnecting ((s.clients sock.owner).attempt + 1) :=
      if_neg (by rw [Stream.setSocket, hours]; exact Bool.false_ne_true)
    have hconn : (s.onclose k sock.owner).store.conn = ⟨.reconnecting, (s.clients sock.owner).attempt + 1⟩ := by
      rw [hclose]
      exact conn_of_live hlive
    rw [hconn, hclose]
    refine Reports.congr ?_ (wiring_onStateChange ..)
    exact .of_none (i := sock.owner) hlive (Function.update_self ..) rfl rfl rfl
  | false =>
    have hours := (hw.past _ (hw.owner k sock hsock).1 hlive).1
    have hclose : s.onclose k sock.owner = ((s.setSocket k none).setClient sock.owner
        { s.clients sock.owner with ws := none }).onStateChange sock.owner .closed 0 := if_pos hours
    have hconn : (s.onclose k sock.owner).store.conn = s.store.conn := by
      rw [hclose]
      exact conn_of_gone hlive
    rw [hconn, hclose]
    refine Reports.congr ?_ (wiring_onStateChange ..)
    exact h.touch hw (touches_socket hw hsock _ none fun _ h' => by cases h') hlive

theorem conn_connect (s : Stream K) (hlive : s.isLive i = true) :
    (s.connect i).store.conn
      = ⟨if (s.clients i).attempt = 0 then .connecting else .reconnecting, (s.clients i).attempt⟩ := by
  unfold connect
  dsimp only
  show ((s.setClient i { s.clients i with closedByUs := false }).onStateChange i _ _).store.conn = _
  rw [conn_onStateChange]
  exact if_pos hlive

theorem Reports.connect (s : Stream K) (hlive : s.isLive i = true) :
    Reports (s.connect i) (s.connect i).store.conn := by
  rw [conn_connect s hlive]
  refine Reports.congr ?_ (wiring_connect s i)
  refine .of_socket (k := s.made) hlive (Function.update_self ..) rfl (Function.update_self ..) rfl
    (fun heq => by cases heq) (fun _ => rfl) ?_
  dsimp only
  split <;> exact fun heq => by cases heq

theorem reports_of_dead (hdead : s.live = false) : Reports s conn := by
  intro i hlive
  rw [isLive, hdead] at hlive
  cases hlive

end

structure Sound (s : Stream K) : Prop where
  settled : MarketStore.Settled s.store
  wired : Wired s
  reports : Reports s s.store.conn

theorem settled_onStateChange (s : Stream K) (h : MarketStore.Settled s.store) (i : Nat) (state : ConnState)
    (attempt : Nat) : MarketStore.Settled (s.onStateChange i state attempt).store := by
  unfold onStateChange
  split
  · exact (MarketStore.kept_call h (show s.store.call [] (.setConn state attempt) = some _ from rfl)).settled
  · exact h

theorem settled_connect (s : Stream K) (h : MarketStore.Settled s.store) (i : Nat) :
    MarketStore.Settled (s.connect i).store := by
  unfold connect
  exact settled_onStateChange (s.setClient i { s.clients i with closedByUs := false }) h ..

omit [DecidableEq K] [LT K] [DecidableLT K] in
theorem store_cleanup (s : Stream K) : s.cleanup.store = s.store := by
  unfold Stream.cleanup close
  dsimp only
  split <;> rfl

omit [DecidableEq K] [LT K] [DecidableLT K] in
theorem isLive_mount (s : Stream K) :
    ({ s.setClient s.count {} with count := s.count + 1, live := true } : Stream K).isLive s.count = true := by
  simp [isLive]

/-- **One event**, and what is said after it. -/
theorem Sound.step (h : Sound s) {e : Event K} (hstep : s.step e = some t) : Sound t := by
  obtain ⟨hsettled, hwired, hreports⟩ := h
  have hwired' := hwired.step hstep
  cases takes_of_step hstep with
  | opened hsock =>
    refine ⟨?_, hwired', hreports.opened hwired hsock⟩
    refine settled_onStateChange _ ?_ ..
    exact hsettled
  | failed hsock => exact ⟨hsettled, hwired', hreports.failed hwired hsock⟩
  | closed hsock =>
    refine ⟨?_, hwired', hreports.closed hwired hsock⟩
    unfold onclose
    dsimp only
    split
    · refine settled_onStateChange _ ?_ ..
      exact hsettled
    · refine settled_onStateChange _ ?_ ..
      exact hsettled
  | @heard k frame now sock =>
    obtain ⟨hsettled', hconn⟩ := MarketStore.conn_calls (frame.calls s.store now) hsettled
      ServerFrame.calls_ne_setConn
    refine ⟨hsettled', hwired', ?_⟩
    show Reports _ (receive s.store frame now).conn
    rw [show (receive s.store frame now).conn = s.store.conn from hconn]
    exact hreports.congr rfl
  | unheard => exact ⟨hsettled, hwired', hreports⟩
  | @timeout i htimer =>
    have hlive : s.isLive i = true := hwired.isLive_of_timer htimer
    refine ⟨?_, hwired', ?_⟩
    · refine settled_connect _ ?_ i
      exact hsettled
    · exact Reports.connect (s.setClient i { s.clients i with reconnectTimer := false }) hlive
  | mount =>
    refine ⟨?_, hwired', Reports.connect _ (isLive_mount _)⟩
    refine settled_connect _ ?_ _
    exact hsettled
  | remount =>
    refine ⟨?_, hwired', Reports.connect _ (isLive_mount _)⟩
    refine settled_connect _ ?_ _
    show MarketStore.Settled s.cleanup.store
    rw [store_cleanup]
    exact hsettled
  | unmount =>
    refine ⟨?_, hwired', reports_of_dead (live_cleanup s)⟩
    rw [store_cleanup]
    exact hsettled
  | paint =>
    refine ⟨MarketStore.settled_advance hsettled _, hwired', ?_⟩
    have hconn := (MarketStore.status_advance hsettled .frame).1 fun _ _ heq => by cases heq
    show Reports _ (s.store.advance ([], .frame)).conn
    rw [hconn]
    exact hreports.congr rfl

theorem sound_of_stream (h : (streamLts K).Reachable s) : Sound s := by
  refine h.invariant (I := Sound) ?_ ?_
  · rintro _ rfl
    exact ⟨MarketStore.settled_init, wired_init, reports_of_dead rfl⟩
  · intro s e t hs hstep
    exact hs.step hstep

/--
**One connection.**

Whenever the effect runs and in whatever order sockets open, fail, close and deliver: at most one socket is not
on its way out, and it is the newest client's. Only that client waits to reconnect, and it waits exactly while
it has no socket, so it is never without both. What the page says of the connection is what it is.
-/
theorem one_connection (h : (streamLts K).Reachable s) :
    (∀ k k' sock sock', s.sockets k = some sock → s.sockets k' = some sock' →
      sock.state ≠ .closing → sock'.state ≠ .closing → k = k' ∧ s.isLive sock.owner = true) ∧
      (∀ i, (s.clients i).reconnectTimer = true → s.isLive i = true) ∧
      (∀ i, s.isLive i = true →
        ((s.clients i).reconnectTimer = true ↔ ∀ k sock, s.sockets k = some sock → sock.owner ≠ i)) ∧
      Reports s s.store.conn := by
  obtain ⟨-, hwired, hreports⟩ := sound_of_stream h
  have hlive : ∀ k sock, s.sockets k = some sock → sock.state ≠ .closing → s.isLive sock.owner = true := by
    intro k sock hsock hopen
    obtain ⟨hmade, hws⟩ := hwired.owner k sock hsock
    by_contra hgone
    exact hopen ((hwired.past _ hmade (by simpa using hgone)).2.2 k sock hws hsock)
  refine ⟨?_, ?_, ?_, hreports⟩
  · intro k k' sock sock' hsock hsock' hopen hopen'
    have howner := (isLive_iff.mp (hlive k sock hsock hopen)).2
    have howner' := (isLive_iff.mp (hlive k' sock' hsock' hopen')).2
    have hsame : sock.owner = sock'.owner := by omega
    have hws := (hwired.owner k sock hsock).2
    rw [hsame, (hwired.owner k' sock' hsock').2, Option.some.injEq] at hws
    exact ⟨hws.symm, hlive k sock hsock hopen⟩
  · exact fun i htimer => hwired.isLive_of_timer htimer
  · intro i hi
    rw [(hwired.current i hi).2]
    constructor
    · intro hnone k sock hsock heq
      have hws := (hwired.owner k sock hsock).2
      rw [heq, hnone] at hws
      cases hws
    · intro hnone
      by_contra hsome
      obtain ⟨k, hk⟩ := Option.ne_none_iff_exists'.mp hsome
      obtain ⟨sock, hsock, howner⟩ := Option.map_eq_some_iff.mp (hwired.ws i k hk)
      exact hnone k sock hsock howner

/-- A page that asks for a reconnect while its socket is open: the old socket still delivers a price. -/
def sampleReconnect : List (Event Int) :=
  [.effect, .opened 0, .effect, .message 0 (.tick ⟨"EURUSD", 1, 3, 2, "12:00:00Z", 0, none⟩) "", .opened 1,
    .closed 0, .closed 1, .timeout 1]

theorem one_connection_sampleReconnect :
    ∃ s, Lts.exec Stream.step {} sampleReconnect = some s ∧ s.store.buf.size = 0 ∧ s.made = 3 ∧
      s.store.conn = ⟨.reconnecting, 1⟩ ∧ Reports s s.store.conn := by
  obtain ⟨s, hs⟩ : ∃ s, Lts.exec Stream.step {} sampleReconnect = some s := ⟨_, rfl⟩
  have hparts : (Lts.exec Stream.step {} sampleReconnect).map
      (fun s => (s.store.buf.size, s.made, s.store.conn)) = some (0, 3, ⟨.reconnecting, 1⟩) := rfl
  rw [hs, Option.map_some, Option.some.injEq, Prod.mk.injEq, Prod.mk.injEq] at hparts
  have hreach : (streamLts Int).Reachable s := Lts.reachable_exec (.init rfl) hs
  exact ⟨s, hs, hparts.1, hparts.2.1, hparts.2.2, (one_connection hreach).2.2.2⟩

end Stream

end FxTracker.Web
