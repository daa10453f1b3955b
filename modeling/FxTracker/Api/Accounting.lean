import FxTracker.Api.Dispatch

/-!
# Every frame is accounted for

The session against its ledger, after any operations: an offer is sent, conflated, still queued
or removed, and there is no fifth thing. Under one key the frames handed over are a subsequence of
those offered, and a drain brings the key up to date.

The queue stays small because a tick or volatility frame is queued only for a subscribed symbol:
`unsubscribe` takes the queued ones along with the symbol. Alerts have a key each and are outside
the bound.

* `KeyOk` — the invariant of one key: what is queued under it is its newest offer
* `conflation_accounting` — the laws, in every reachable ledger
-/

namespace FxTracker.Api

open ClientSession

variable {P : Type} {strip upper : String → String}

/-! ## What the ledger says -/

/-- The newest frame offered since one was last removed. -/
def newest (l : List (Deed P)) : Option P :=
  l.foldl (fun last deed =>
    match deed with
    | .offered frame => some frame
    | .drained _ => last
    | .removed _ => none) none

namespace Ledger

/-- The frames offered under a key. -/
def offeredUnder (a : Ledger P) (key : RoutingKey) : List P :=
  (ofKey key a.deeds).filterMap Deed.offered?

/-- The frames handed to the socket under a key. -/
def drainedUnder (a : Ledger P) (key : RoutingKey) : List P :=
  (ofKey key a.deeds).filterMap Deed.drained?

def offers (a : Ledger P) : Nat := (a.deeds.filterMap fun d => d.2.offered?).length

def removals (a : Ledger P) : Nat := (a.deeds.filterMap fun d => d.2.removed?).length

end Ledger

def RoutingKey.isAlert : RoutingKey → Bool
  | .alert .. => true
  | _ => false

/-- Published symbols are upper-case. -/
def UpperCase (upper : String → String) : Ledger P → StreamOp P → Prop
  | _, .dispatch _ message => ∀ symbol ∈ message.symbol?, upper symbol = symbol
  | _, _ => True

/-- The ledgers a session comes to, from its registration. -/
def ledgerLts (P : Type) (strip upper : String → String) : Lts (Ledger P) (StreamOp P) :=
  .ofFn .fresh (Ledger.step strip upper)

/-! ## One key -/

/-- One key: what is queued under it, against what became of its frames. -/
structure KeyOk (queued : Option P) (l : List (Deed P)) : Prop where
  sublist : (l.filterMap Deed.drained? ++ queued.toList).Sublist (l.filterMap Deed.offered?)
  /-- What is queued is the newest offer. -/
  queued_newest : ∀ frame, queued = some frame → newest l = some frame
  /-- With nothing queued the newest offer went out last. -/
  drained_newest : queued = none →
    ∀ frame, newest l = some frame → (l.filterMap Deed.drained?).getLast? = some frame

namespace KeyOk

variable {queued : Option P} {l : List (Deed P)}

theorem nil : KeyOk (none : Option P) [] where
  sublist := List.Sublist.refl _
  queued_newest := fun _ h => by cases h
  drained_newest := fun _ _ h => by cases h

@[simp] theorem newest_concat (l : List (Deed P)) (deed : Deed P) :
    newest (l ++ [deed]) = match deed with
      | .offered frame => some frame
      | .drained _ => newest l
      | .removed _ => none := by
  simp [newest]

theorem drained_sublist (h : KeyOk queued l) :
    (l.filterMap Deed.drained?).Sublist (l.filterMap Deed.offered?) :=
  (List.sublist_append_left ..).trans h.sublist

/-- An offer is queued in place of what was. -/
theorem offer (h : KeyOk queued l) (frame : P) : KeyOk (some frame) (l ++ [.offered frame]) where
  sublist := by
    simp only [List.filterMap_append, List.filterMap_cons, List.filterMap_nil, Deed.drained?,
      Deed.offered?, List.append_nil, Option.toList_some]
    exact h.drained_sublist.append (List.Sublist.refl _)
  queued_newest := fun f hf => by rw [newest_concat]; exact hf
  drained_newest := fun hn => by cases hn

/-- A drain hands over what is queued. -/
theorem drain (h : KeyOk queued l) : KeyOk none (l ++ queued.toList.map .drained) := by
  cases queued with
  | none => simpa using h
  | some frame =>
    have hnew : newest (l ++ [.drained frame]) = some frame := by
      rw [newest_concat]; exact h.queued_newest frame rfl
    refine ⟨?_, nofun, fun _ f hf => ?_⟩
    · simpa [List.filterMap_cons, Deed.drained?, Deed.offered?] using h.sublist
    · have hf' : newest (l ++ [.drained frame]) = some f := hf
      rw [hnew] at hf'
      cases hf'
      simp [Deed.drained?]

/-- A removal drops what is queued. -/
theorem remove (h : KeyOk queued l) : KeyOk none (l ++ queued.toList.map .removed) := by
  cases queued with
  | none => simpa using h
  | some frame =>
    refine ⟨?_, nofun, fun _ f hf => ?_⟩
    · simpa [List.filterMap_cons, Deed.drained?, Deed.offered?] using h.drained_sublist
    · have hf' : newest (l ++ [.removed frame]) = some f := hf
      rw [newest_concat] at hf'
      cases hf'

end KeyOk

/-! ## The invariant -/

/-- The session against its ledger. -/
structure Balanced (a : Ledger P) : Prop where
  /-- An offer is sent, conflated, queued or removed. -/
  conserved : a.session.sent + a.session.conflated + a.session.pending.size + a.removals = a.offers
  key : ∀ key, KeyOk (a.session.pending.get? key) (ofKey key a.deeds)
  /-- The tick and volatility keys name subscribed symbols. -/
  named : ∀ symbol, .tick symbol ∈ a.session.pending.keys ∨ .vol symbol ∈ a.session.pending.keys →
    symbol ∈ a.session.symbols
  limited : a.session.symbols.card ≤ maxSymbolsPerClient

theorem balanced_fresh : Balanced (Ledger.fresh : Ledger P) where
  conserved := rfl
  key := fun _ => .nil
  named := fun symbol h => by rcases h with h | h <;> cases h
  limited := Nat.zero_le _

/-- What an offer adds to the counters and the queue together. -/
theorem conserved_dispatch (upper : String → String) (s : ClientSession P) (now : Int) (message : Published P) :
    (s.dispatch upper now message).sent + (s.dispatch upper now message).conflated
        + (s.dispatch upper now message).pending.size
      = s.sent + s.conflated + s.pending.size + (s.deedsOfDispatch upper message).length := by
  unfold dispatch deedsOfDispatch offer
  cases s.hears upper message with
  | false => simp
  | true =>
    cases s.closed with
    | true => simp
    | false =>
      have hsize := Dict.size_set s.pending message.key message.frame
      by_cases hc : s.pending.contains message.key = true
      · rw [if_pos hc] at hsize
        simp [hc, hsize]
        omega
      · rw [if_neg hc] at hsize
        simp [hc, hsize]
        omega

theorem Balanced.dispatch {a : Ledger P} (h : Balanced a) (now : Int) {message : Published P}
    (hup : ∀ symbol ∈ message.symbol?, upper symbol = symbol) :
    Balanced ⟨a.session.dispatch upper now message,
      a.deeds ++ a.session.deedsOfDispatch upper message⟩ where
  conserved := by
    have hcount := conserved_dispatch upper a.session now message
    have hoffered : ((a.session.deedsOfDispatch upper message).filterMap fun d => d.2.offered?).length
        = (a.session.deedsOfDispatch upper message).length := by
      unfold deedsOfDispatch; split <;> rfl
    have hremoved : ((a.session.deedsOfDispatch upper message).filterMap fun d => d.2.removed?)
        = [] := by
      unfold deedsOfDispatch; split <;> rfl
    have hold := h.conserved
    simp only [Ledger.offers, Ledger.removals, List.filterMap_append, List.length_append, hoffered,
      hremoved, List.length_nil] at hold ⊢
    omega
  key := by
    intro key
    simp only [ofKey_append, ofKey_dispatch, pending_dispatch]
    by_cases hop : a.session.closed = false ∧ a.session.hears upper message = true
    · by_cases hk : message.key = key
      · subst hk
        simpa [hop] using (h.key message.key).offer message.frame
      · have hne : key ≠ message.key := fun he => hk he.symm
        simpa [hop, hk, Dict.get?_set_ne _ _ hne] using h.key key
    · have hno : ¬ (a.session.closed = false ∧ a.session.hears upper message = true
          ∧ message.key = key) := fun hc => hop ⟨hc.1, hc.2.1⟩
      rw [if_neg hop, if_neg hno, List.append_nil]
      exact h.key key
  named := by
    intro symbol
    simp only [pending_dispatch, symbols_dispatch]
    split
    · next hop =>
      -- a key new to the queue is that of a message the session hears
      have hnew : message.symbol? = some symbol → symbol ∈ a.session.symbols := fun hs => by
        have hin := (hears_iff hs).mp hop.2
        rwa [hup symbol hs] at hin
      rw [Dict.mem_keys_set, Dict.mem_keys_set]
      rintro ((hk | hk) | (hk | hk))
      · cases message <;> cases hk
        exact hnew rfl
      · exact h.named symbol (Or.inl hk)
      · cases message <;> cases hk
        exact hnew rfl
      · exact h.named symbol (Or.inr hk)
    · exact h.named symbol
  limited := by rw [symbols_dispatch]; exact h.limited

theorem Balanced.drain {a : Ledger P} (h : Balanced a) :
    Balanced ⟨a.session.drain.2, a.deeds ++ a.session.deedsOfDrain⟩ where
  conserved := by
    have hsent : a.session.drain.2.sent = a.session.sent + a.session.pending.size := by
      unfold ClientSession.drain
      split
      · next he => simp [Dict.size, Dict.isEmpty_iff.mp he]
      · simp [Dict.length_values]
    have hconf : a.session.drain.2.conflated = a.session.conflated := by
      unfold ClientSession.drain; split <;> rfl
    have hold := h.conserved
    have hoffered : (a.session.deedsOfDrain.filterMap fun d => d.2.offered?) = [] := by
      simp [deedsOfDrain, Deed.offered?]
    have hremoved : (a.session.deedsOfDrain.filterMap fun d => d.2.removed?) = [] := by
      simp [deedsOfDrain, Deed.removed?]
    simp only [Ledger.offers, Ledger.removals, List.filterMap_append, List.length_append, hoffered,
      hremoved, List.length_nil, pending_drain, hsent, hconf] at hold ⊢
    simp only [Dict.size, Dict.entries_empty, List.length_nil] at hold ⊢
    omega
  key := by
    intro key
    simp only [ofKey_append, ofKey_drain, pending_drain]
    exact (h.key key).drain
  named := by
    intro symbol hs
    simp only [pending_drain] at hs
    rcases hs with hs | hs <;> cases hs
  limited := by rw [symbols_drain]; exact h.limited

theorem Balanced.unsubscribe {a : Ledger P} (h : Balanced a) (symbols : List String) :
    Balanced ⟨a.session.unsubscribe upper symbols,
      a.deeds ++ a.session.deedsOfUnsubscribe upper symbols⟩ where
  conserved := by
    have hsent : (a.session.unsubscribe upper symbols).sent = a.session.sent :=
      (counters_unsubscribe ..).1
    have hconf : (a.session.unsubscribe upper symbols).conflated = a.session.conflated :=
      (counters_unsubscribe ..).2
    have hsplit : (a.session.unsubscribe upper symbols).pending.size
        + (a.session.deedsOfUnsubscribe upper symbols).length = a.session.pending.size := by
      have hlen := List.length_eq_length_filter_add (l := a.session.pending.entries)
        fun e => decide (DroppedBy upper symbols e.1)
      rw [deedsOfUnsubscribe_eq, List.length_map, Dict.size, entries_unsubscribe, Dict.size, hlen,
        Nat.add_comm]
      simp only [decide_not]
    have hoffered :
        ((a.session.deedsOfUnsubscribe upper symbols).filterMap fun d => d.2.offered?) = [] := by
      simp [deedsOfUnsubscribe, Deed.offered?]
    have hremoved :
        ((a.session.deedsOfUnsubscribe upper symbols).filterMap fun d => d.2.removed?).length
          = (a.session.deedsOfUnsubscribe upper symbols).length := by
      simp [deedsOfUnsubscribe, Deed.removed?, List.filterMap_map]
    have hold := h.conserved
    simp only [Ledger.offers, Ledger.removals, List.filterMap_append, List.length_append, hoffered,
      hremoved, List.length_nil, hsent, hconf] at hold ⊢
    omega
  key := by
    intro key
    simp only [ofKey_append, ofKey_unsubscribe, get?_unsubscribe]
    by_cases hd : DroppedBy upper symbols key
    · simpa [hd] using (h.key key).remove
    · simpa [hd] using h.key key
  named := by
    intro symbol
    simp only [mem_keys_unsubscribe, symbols_unsubscribe]
    intro hs
    -- the frames of a symbol that goes are dropped along with it
    have hkeep : ¬ ∃ x ∈ symbols, upper x = symbol := by
      rintro ⟨x, hx, rfl⟩
      rcases hs with hs | hs
      · exact hs.2 ⟨x, hx, Or.inl rfl⟩
      · exact hs.2 ⟨x, hx, Or.inr rfl⟩
    rw [Finset.mem_sdiff, List.mem_toFinset, List.mem_map]
    exact ⟨h.named symbol (hs.imp And.left And.left), hkeep⟩
  limited := by
    rw [symbols_unsubscribe]
    exact (Finset.card_le_card Finset.sdiff_subset).trans h.limited

theorem Balanced.subscribe {a : Ledger P} (h : Balanced a) (hupper : ∀ s, upper (upper s) = upper s)
    {symbols : List String} {s : ClientSession P}
    (hs : a.session.onSubscribe strip upper symbols = some s) : Balanced { a with session := s } := by
  have hle := card_le_of_onSubscribe hs
  obtain rfl := eq_subscribe_of_onSubscribe hs
  -- what is normalised already is upper-case: the set checked is the set subscribed
  have hmap : (normalise strip upper symbols).map upper = normalise strip upper symbols := by
    rw [List.map_congr_left (g := id), List.map_id]
    intro x hx
    obtain ⟨y, -, rfl⟩ := List.mem_map.mp (List.mem_eraseDups.mp hx)
    exact hupper _
  refine ⟨h.conserved, h.key, fun symbol hk => ?_, ?_⟩
  · exact Finset.mem_union_left _ (h.named symbol hk)
  · show (a.session.symbols ∪ _).card ≤ _
    rw [hmap]
    exact hle

/-- **Every operation keeps the books.** -/
theorem balanced_step (hupper : ∀ s, upper (upper s) = upper s) {a b : Ledger P} {op : StreamOp P}
    (h : Balanced a) (hop : UpperCase upper a op) (hs : Ledger.step strip upper a op = some b) :
    Balanced b := by
  cases op with
  | dispatch now message => cases hs; exact h.dispatch now hop
  | drain => cases hs; exact h.drain
  | subscribe symbols =>
    obtain ⟨s, hs', rfl⟩ := Option.map_eq_some_iff.mp hs
    exact h.subscribe hupper hs'
  | unsubscribe symbols =>
    obtain ⟨s, hs', rfl⟩ := Option.map_eq_some_iff.mp hs
    obtain rfl := eq_unsubscribe_of_onUnsubscribe hs'
    exact h.unsubscribe symbols
  | close wake => cases hs; exact ⟨h.conserved, h.key, h.named, h.limited⟩

theorem balanced_of_reachable (hupper : ∀ s, upper (upper s) = upper s) {a : Ledger P}
    (hr : ((ledgerLts P strip upper).guard (UpperCase upper)).Reachable a) : Balanced a :=
  hr.invariant (fun _ h => h ▸ balanced_fresh) fun _ _ _ h hs => balanced_step hupper h hs.2 hs.1

/-! ## The bound -/

/-- Besides alerts: two frames a symbol and the feed status. -/
theorem Balanced.bounded {a : Ledger P} (h : Balanced a) :
    (a.session.pending.keys.filter fun key => !key.isAlert).length
      ≤ 2 * a.session.symbols.card + 1 := by
  have hnd : (a.session.pending.keys.filter fun key => !key.isAlert).Nodup :=
    a.session.pending.nodup.filter _
  have hsub : (a.session.pending.keys.filter fun key => !key.isAlert).toFinset ⊆
      a.session.symbols.image .tick ∪ a.session.symbols.image .vol ∪ {.status} := by
    intro key hk
    obtain ⟨hk, hna⟩ := List.mem_filter.mp (List.mem_toFinset.mp hk)
    simp only [Finset.mem_union, Finset.mem_image, Finset.mem_singleton]
    cases key with
    | tick symbol => exact Or.inl (Or.inl ⟨symbol, h.named symbol (Or.inl hk), rfl⟩)
    | vol symbol => exact Or.inl (Or.inr ⟨symbol, h.named symbol (Or.inr hk), rfl⟩)
    | alert symbol seq => cases hna
    | status => exact Or.inr rfl
  calc _ = _ := (List.toFinset_card_of_nodup hnd).symm
    _ ≤ _ := Finset.card_le_card hsub
    _ ≤ _ := Finset.card_union_le ..
    _ ≤ a.session.symbols.card + a.session.symbols.card + 1 := by
      have hu := Finset.card_union_le (a.session.symbols.image RoutingKey.tick)
        (a.session.symbols.image RoutingKey.vol)
      have ht := Finset.card_image_le (s := a.session.symbols) (f := RoutingKey.tick)
      have hv := Finset.card_image_le (s := a.session.symbols) (f := RoutingKey.vol)
      rw [Finset.card_singleton]
      omega
    _ = _ := by omega

/--
**Conflation accounting.**

In every ledger a session comes to, by accepted requests, dispatched messages, drains and a close
in any order: sent, conflated, queued and removed add up to the offers made while open. The frames
handed over under a key are a subsequence of those offered. The queue holds at most two frames a
subscribed symbol and one more besides alerts, of subscribed symbols only, and at most 25 symbols
are subscribed. And a drain leaves, of each key with an offer since its last removal, the newest
of them as the last one handed over.
-/
theorem conflation_accounting (strip upper : String → String)
    (hupper : ∀ s, upper (upper s) = upper s) (a : Ledger P)
    (hr : ((ledgerLts P strip upper).guard (UpperCase upper)).Reachable a) :
    a.session.sent + a.session.conflated + a.session.pending.size + a.removals = a.offers ∧
    (∀ key, (a.drainedUnder key).Sublist (a.offeredUnder key)) ∧
    (a.session.pending.keys.filter fun key => !key.isAlert).length
      ≤ 2 * a.session.symbols.card + 1 ∧
    (∀ symbol, .tick symbol ∈ a.session.pending.keys ∨ .vol symbol ∈ a.session.pending.keys →
      symbol ∈ a.session.symbols) ∧
    a.session.symbols.card ≤ 25 ∧
    ∀ b, Ledger.step strip upper a .drain = some b → ∀ key frame,
      newest (ofKey key b.deeds) = some frame → (b.drainedUnder key).getLast? = some frame := by
  have h := balanced_of_reachable hupper hr
  refine ⟨h.conserved, fun key => (h.key key).drained_sublist, h.bounded, h.named, h.limited, ?_⟩
  intro b hb key frame hf
  have hb' : Balanced b := balanced_step hupper h (show UpperCase upper a .drain from trivial) hb
  cases hb
  refine (hb'.key key).drained_newest ?_ frame hf
  rw [pending_drain, Dict.get?_empty]

/-- A price and a seal are queued and sent, a price is conflated, another taken out. -/
theorem conflation_accounting_unsubscribed :
    ∃ a : Ledger Nat, Lts.exec (Ledger.step id id) Ledger.fresh
        [.subscribe ["EURUSD"], .dispatch 0 (.tick "EURUSD" 1), .dispatch 0 (.vol "EURUSD" 2), .drain,
          .dispatch 1 (.tick "EURUSD" 3), .dispatch 1 (.tick "EURUSD" 4),
          .unsubscribe ["EURUSD"]] = some a ∧
      a.session.sent = 2 ∧ a.session.conflated = 1 ∧ a.removals = 1 ∧
      a.session.sent + a.session.conflated + a.session.pending.size + a.removals = a.offers := by
  refine ⟨_, rfl, rfl, rfl, rfl, ?_⟩
  refine (conflation_accounting id id (fun _ => rfl) _ ?_).1
  have hmeets : Lts.Meets (Ledger.step id id) (UpperCase id) (Ledger.fresh : Ledger Nat)
      [.subscribe ["EURUSD"], .dispatch 0 (.tick "EURUSD" 1), .dispatch 0 (.vol "EURUSD" 2), .drain,
        .dispatch 1 (.tick "EURUSD" 3), .dispatch 1 (.tick "EURUSD" 4),
        .unsubscribe ["EURUSD"]] := by
    simp [Lts.Meets, UpperCase]
  exact Lts.reachable_of_meets (.init rfl) hmeets rfl

end FxTracker.Api
