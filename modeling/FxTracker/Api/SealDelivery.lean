import FxTracker.Api.Accounting

/-!
# Which seals reach the socket

A volatility frame carries the bar a minute sealed as, and the history has each bar once. The
session keeps one frame a key, so a seal that finds the one before it still queued takes its place,
and the bar of that one never goes out. Alerts have a key each.

* `handed_eq_frames_iff` — under any key the session hands over all it was sent exactly when no
  stretch of the run without a drain holds two frames of the key
* `seals_handed_once_iff` — so for the seals of a symbol; its alerts always go out once
-/

namespace FxTracker.Api

open ClientSession

variable {P : Type} {strip upper : String → String}

/-- The frames dispatched under a key, in order. -/
def framesUnder (key : RoutingKey) (ops : List (StreamOp P)) : List P :=
  ops.filterMap fun op =>
    match op with
    | .dispatch _ message => if message.key = key then some message.frame else none
    | _ => none

/-- The operation leaves the session open and subscribed to the symbol. -/
def Stays (upper : String → String) (symbol : String) : StreamOp P → Prop
  | .unsubscribe symbols => ∀ x ∈ symbols, upper x ≠ upper symbol
  | .close _ => False
  | _ => True

/-- No stretch without a drain holds two frames of the key. -/
def DrainedBetween (key : RoutingKey) (ops : List (StreamOp P)) : Prop :=
  ∀ stretch, stretch <:+: ops → .drain ∉ stretch → (framesUnder key stretch).length ≤ 1

/-! ## What the queue of one key hands over -/

/-- What goes out under a key over a run and a drain after it, when every frame of the key is an
offer made while open and none is removed. -/
def handedFrom (key : RoutingKey) : Option P → List (StreamOp P) → List P
  | queued, [] => queued.toList
  | queued, .drain :: ops => queued.toList ++ handedFrom key none ops
  | queued, .dispatch _ message :: ops =>
    if message.key = key then handedFrom key (some message.frame) ops else handedFrom key queued ops
  | queued, _ :: ops => handedFrom key queued ops

/-- The same stretches read along the run; `held` says whether a frame is queued before it. -/
def SpacedFrom (key : RoutingKey) : Bool → List (StreamOp P) → Prop
  | _, [] => True
  | _, .drain :: ops => SpacedFrom key false ops
  | held, .dispatch _ message :: ops =>
    if message.key = key then held = false ∧ SpacedFrom key true ops else SpacedFrom key held ops
  | held, _ :: ops => SpacedFrom key held ops

theorem handedFrom_sublist (key : RoutingKey) (queued : Option P) (ops : List (StreamOp P)) :
    (handedFrom key queued ops).Sublist (queued.toList ++ framesUnder key ops) := by
  induction ops generalizing queued with
  | nil => simp [handedFrom, framesUnder]
  | cons op ops ih =>
    cases op with
    | dispatch now message =>
      by_cases hk : message.key = key
      · have h := (ih (some message.frame)).trans (List.sublist_append_right queued.toList _)
        simpa [handedFrom, framesUnder, hk] using h
      · simpa [handedFrom, framesUnder, hk] using ih queued
    | drain => exact (List.Sublist.refl _).append (ih none)
    | subscribe | unsubscribe | close => exact ih queued

/-- Nothing is lost exactly where the frames are spaced. -/
theorem length_handedFrom_iff (key : RoutingKey) (queued : Option P) (ops : List (StreamOp P)) :
    (handedFrom key queued ops).length = queued.toList.length + (framesUnder key ops).length ↔
      SpacedFrom key queued.isSome ops := by
  induction ops generalizing queued with
  | nil => simp [handedFrom, framesUnder, SpacedFrom]
  | cons op ops ih =>
    cases op with
    | dispatch now message =>
      by_cases hk : message.key = key
      · have hle := (handedFrom_sublist key (some message.frame) ops).length_le
        have hiff := ih (some message.frame)
        simp only [List.length_append, Option.toList_some, List.length_singleton] at hle hiff
        have hframes : framesUnder key (.dispatch now message :: ops)
            = message.frame :: framesUnder key ops := by simp [framesUnder, hk]
        rw [handedFrom, if_pos hk, SpacedFrom, if_pos hk, hframes, List.length_cons]
        cases queued with
        | none =>
          rw [show (none : Option P).toList.length = 0 from rfl]
          constructor
          · intro h
            exact ⟨rfl, hiff.mp (by omega)⟩
          · intro h
            have := hiff.mpr h.2
            omega
        | some frame =>
          -- the frame queued is conflated: one short
          rw [show (some frame).toList.length = 1 from rfl]
          refine ⟨fun h => absurd h (by omega), fun h => absurd h.1 (by simp)⟩
      · have hframes : framesUnder key (.dispatch now message :: ops) = framesUnder key ops := by
          simp [framesUnder, hk]
        rw [handedFrom, if_neg hk, SpacedFrom, if_neg hk, hframes]
        exact ih queued
    | drain =>
      have hiff := ih none
      rw [show (none : Option P).toList.length = 0 from rfl, Nat.zero_add] at hiff
      rw [handedFrom, SpacedFrom, List.length_append, Nat.add_left_cancel_iff]
      exact hiff
    | subscribe | unsubscribe | close => exact ih queued

/-! ## Stretches -/

/-- Before the first drain come at most `n` frames of the key. -/
def AtMost (key : RoutingKey) (n : Nat) (ops : List (StreamOp P)) : Prop :=
  ∀ stretch, stretch <+: ops → .drain ∉ stretch → (framesUnder key stretch).length ≤ n

theorem drainedBetween_cons (key : RoutingKey) (op : StreamOp P) (ops : List (StreamOp P)) :
    DrainedBetween key (op :: ops) ↔ AtMost key 1 (op :: ops) ∧ DrainedBetween key ops := by
  constructor
  · intro h
    exact ⟨fun stretch hs => h stretch hs.isInfix,
      fun stretch hs => h stretch (hs.trans (List.suffix_cons op ops).isInfix)⟩
  · rintro ⟨hfirst, hrest⟩ stretch hs
    rcases List.infix_cons_iff.mp hs with hs | hs
    · exact hfirst stretch hs
    · exact hrest stretch hs

/-- What a prefix of `op :: ops` is, where the empty one meets the bound anyway. -/
theorem atMost_cons_iff (key : RoutingKey) (n : Nat) (op : StreamOp P) (ops : List (StreamOp P)) :
    AtMost key n (op :: ops) ↔ ∀ stretch, stretch <+: ops → .drain ∉ op :: stretch →
      (framesUnder key (op :: stretch)).length ≤ n := by
  constructor
  · exact fun h stretch hs => h (op :: stretch) (List.cons_prefix_cons.mpr ⟨rfl, hs⟩)
  · intro h stretch hs
    rcases List.prefix_cons_iff.mp hs with rfl | ⟨rest, rfl, hs⟩
    · exact fun _ => Nat.zero_le n
    · exact h rest (List.cons_prefix_cons.mp hs).2

theorem atMost_cons_drain (key : RoutingKey) (n : Nat) (ops : List (StreamOp P)) :
    AtMost key n (.drain :: ops) := by
  rw [atMost_cons_iff]
  exact fun stretch _ hno => absurd (List.mem_cons_self ..) hno

theorem framesUnder_cons_of_key {key : RoutingKey} {message : Published P}
    (h : message.key = key) (now : Int) (ops : List (StreamOp P)) :
    framesUnder key (.dispatch now message :: ops) = message.frame :: framesUnder key ops := by
  simp [framesUnder, h]

theorem framesUnder_cons_of_ne {key : RoutingKey} {message : Published P}
    (h : message.key ≠ key) (now : Int) (ops : List (StreamOp P)) :
    framesUnder key (.dispatch now message :: ops) = framesUnder key ops := by
  simp [framesUnder, h]

/-- A frame of the key uses up one of the frames allowed. -/
theorem atMost_cons_of_key {key : RoutingKey} {message : Published P} (h : message.key = key)
    (n : Nat) (now : Int) (ops : List (StreamOp P)) :
    AtMost key n (.dispatch now message :: ops) ↔ 1 ≤ n ∧ AtMost key (n - 1) ops := by
  simp only [atMost_cons_iff, framesUnder_cons_of_key h, List.length_cons, List.mem_cons,
    reduceCtorEq, false_or]
  constructor
  · intro hn
    have hone := hn [] (List.nil_prefix ..) List.not_mem_nil
    refine ⟨by omega, fun stretch hs hno => ?_⟩
    have := hn stretch hs hno
    omega
  · rintro ⟨hone, hn⟩ stretch hs hno
    have := hn stretch hs hno
    omega

/-- An operation that is neither a drain nor a frame of the key changes nothing. -/
theorem atMost_cons_of_other {key : RoutingKey} {op : StreamOp P} (hne : op ≠ .drain)
    (h : ∀ ops, framesUnder key (op :: ops) = framesUnder key ops) (n : Nat)
    (ops : List (StreamOp P)) : AtMost key n (op :: ops) ↔ AtMost key n ops := by
  have hdrain : ∀ stretch, .drain ∉ op :: stretch ↔ .drain ∉ stretch := fun stretch => by
    rw [List.mem_cons, not_or]
    exact and_iff_right fun he => hne he.symm
  simp only [atMost_cons_iff, h, hdrain]
  rfl

theorem DrainedBetween.atMost {key : RoutingKey} {ops : List (StreamOp P)}
    (h : DrainedBetween key ops) : AtMost key 1 ops := fun stretch hs => h stretch hs.isInfix

/-- How many more frames of a key may come before a drain. -/
def room (held : Bool) : Nat := if held then 0 else 1

/-- **The run read frame by frame against its stretches.** -/
theorem spacedFrom_iff (key : RoutingKey) (held : Bool) (ops : List (StreamOp P)) :
    SpacedFrom key held ops ↔ AtMost key (room held) ops ∧ DrainedBetween key ops := by
  induction ops generalizing held with
  | nil =>
    refine ⟨fun _ => ⟨fun stretch hs _ => ?_, fun stretch hs _ => ?_⟩, fun _ => trivial⟩
    · rw [List.prefix_nil.mp hs]; exact Nat.zero_le _
    · rw [List.infix_nil.mp hs]; exact Nat.zero_le _
  | cons op ops ih =>
    have hother : op ≠ .drain → (∀ ops, framesUnder key (op :: ops) = framesUnder key ops) →
        (AtMost key (room held) (op :: ops) ∧ DrainedBetween key (op :: ops) ↔
          AtMost key (room held) ops ∧ DrainedBetween key ops) := by
      intro hne h
      rw [drainedBetween_cons, atMost_cons_of_other hne h, atMost_cons_of_other hne h]
      exact and_congr_right fun _ => ⟨And.right, fun hd => ⟨hd.atMost, hd⟩⟩
    cases op with
    | dispatch now message =>
      by_cases hk : message.key = key
      · rw [SpacedFrom, if_pos hk, ih, drainedBetween_cons, atMost_cons_of_key hk,
          atMost_cons_of_key hk]
        cases held <;> simp [room]
      · rw [SpacedFrom, if_neg hk, ih, hother (by simp) (framesUnder_cons_of_ne hk now)]
    | drain =>
      rw [SpacedFrom, ih, drainedBetween_cons]
      have hdrain : ∀ n, AtMost key n (.drain :: ops) := fun n => atMost_cons_drain key n ops
      exact ⟨fun h => ⟨hdrain _, hdrain _, h.2⟩, fun h => ⟨h.2.2.atMost, h.2.2⟩⟩
    | subscribe | unsubscribe | close =>
      rw [SpacedFrom, ih, hother (by simp) fun _ => rfl]
      all_goals simp

/-! ## The run -/

/-- The session stays open and subscribed to the symbol. -/
def Attends (upper : String → String) (symbol : String) (s : ClientSession P) : Prop :=
  s.closed = false ∧ upper symbol ∈ s.symbols

/-- A key under which every frame dispatched is of the symbol, and that no `unsubscribe` which
keeps the symbol drops. -/
def KeyOf (symbol : String) : RoutingKey → Prop
  | .tick x | .vol x | .alert x _ => x = symbol
  | .status => False

theorem KeyOf.symbol? {symbol : String} {key : RoutingKey} (h : KeyOf symbol key)
    {message : Published P} (hk : message.key = key) : message.symbol? = some symbol := by
  subst hk
  cases message with
  | tick x frame | vol x frame | alert x seq frame => exact congrArg some h
  | status frame => exact h.elim

theorem not_droppedBy {symbol : String} (hupper : ∀ s, upper (upper s) = upper s)
    {symbols : List String} (hstay : ∀ x ∈ symbols, upper x ≠ upper symbol) {key : RoutingKey}
    (h : KeyOf symbol key) : ¬ DroppedBy upper symbols key := by
  rintro ⟨x, hx, rfl | rfl⟩
  · exact hstay x hx ((hupper x).symm.trans (congrArg upper h))
  · exact hstay x hx ((hupper x).symm.trans (congrArg upper h))

theorem Attends.step {symbol : String} {a b : Ledger P} (ha : Attends upper symbol a.session)
    {op : StreamOp P} (hstay : Stays upper symbol op)
    (hs : Ledger.step strip upper a op = some b) : Attends upper symbol b.session := by
  obtain ⟨hopen, hin⟩ := ha
  cases op with
  | dispatch now message =>
    cases hs
    exact ⟨by rw [closed_dispatch]; exact hopen, by rw [symbols_dispatch]; exact hin⟩
  | drain =>
    cases hs
    exact ⟨by rw [closed_drain]; exact hopen, by rw [symbols_drain]; exact hin⟩
  | subscribe symbols =>
    obtain ⟨s, hs', rfl⟩ := Option.map_eq_some_iff.mp hs
    obtain rfl := eq_subscribe_of_onSubscribe hs'
    exact ⟨hopen, Finset.mem_union_left _ hin⟩
  | unsubscribe symbols =>
    obtain ⟨s, hs', rfl⟩ := Option.map_eq_some_iff.mp hs
    obtain rfl := eq_unsubscribe_of_onUnsubscribe hs'
    refine ⟨by rw [closed_unsubscribe]; exact hopen, ?_⟩
    rw [symbols_unsubscribe, Finset.mem_sdiff, List.mem_toFinset, List.mem_map]
    exact ⟨hin, fun ⟨x, hx, he⟩ => hstay x hx he⟩
  | close wake => exact hstay.elim

/-- What is handed over by one operation and is queued after it, under a key of the symbol. -/
theorem drainedUnder_step (hupper : ∀ s, upper (upper s) = upper s) {symbol : String}
    {key : RoutingKey} (hkey : KeyOf symbol key) {a b : Ledger P}
    (ha : Attends upper symbol a.session) {op : StreamOp P} (hstay : Stays upper symbol op)
    (hs : Ledger.step strip upper a op = some b) (ops : List (StreamOp P)) :
    b.drainedUnder key ++ handedFrom key (b.session.pending.get? key) ops
      = a.drainedUnder key ++ handedFrom key (a.session.pending.get? key) (op :: ops) := by
  cases op with
  | dispatch now message =>
    cases hs
    simp only [Ledger.drainedUnder, ofKey_append, ofKey_dispatch, pending_dispatch, handedFrom]
    by_cases hk : message.key = key
    · have hop : a.session.closed = false ∧ a.session.hears upper message = true :=
        ⟨ha.1, (hears_iff (hkey.symbol? hk)).mpr ha.2⟩
      simp [hop, hk, Deed.drained?]
    · have hne : key ≠ message.key := fun he => hk he.symm
      by_cases hop : a.session.closed = false ∧ a.session.hears upper message = true
      · simp [hop, hk, Dict.get?_set_ne _ _ hne]
      · rw [if_neg hop]
        simp [hk]
  | drain =>
    cases hs
    have hid : ∀ q : Option P, (q.toList.map Deed.drained).filterMap Deed.drained? = q.toList :=
      fun q => by cases q <;> rfl
    simp only [Ledger.drainedUnder, ofKey_append, ofKey_drain, pending_drain, handedFrom,
      List.filterMap_append, hid, Dict.get?_empty, List.append_assoc]
  | subscribe symbols =>
    obtain ⟨s, hs', rfl⟩ := Option.map_eq_some_iff.mp hs
    obtain rfl := eq_subscribe_of_onSubscribe hs'
    rfl
  | unsubscribe symbols =>
    obtain ⟨s, hs', rfl⟩ := Option.map_eq_some_iff.mp hs
    obtain rfl := eq_unsubscribe_of_onUnsubscribe hs'
    have hno := not_droppedBy hupper hstay hkey
    simp only [Ledger.drainedUnder, ofKey_append, ofKey_unsubscribe, get?_unsubscribe, if_neg hno,
      List.append_nil, handedFrom]
  | close wake => exact hstay.elim

/-- **What a run hands over under a key**, from what is queued when it starts. -/
theorem drainedUnder_run (hupper : ∀ s, upper (upper s) = upper s) {symbol : String}
    {key : RoutingKey} (hkey : KeyOf symbol key) {ops : List (StreamOp P)}
    (hstay : ∀ op ∈ ops, Stays upper symbol op) {a b : Ledger P}
    (ha : Attends upper symbol a.session)
    (hrun : Lts.exec (Ledger.step strip upper) a (ops ++ [.drain]) = some b) :
    b.drainedUnder key
      = a.drainedUnder key ++ handedFrom key (a.session.pending.get? key) ops := by
  induction ops generalizing a with
  | nil =>
    have hdrain : Ledger.step strip upper a .drain = some b := by
      simpa [Lts.exec] using hrun
    have hb := drainedUnder_step hupper hkey ha (show Stays upper symbol .drain from trivial) hdrain []
    cases hdrain
    rw [pending_drain, Dict.get?_empty] at hb
    simpa [handedFrom] using hb
  | cons op ops ih =>
    obtain ⟨c, hc, hrun⟩ := Option.bind_eq_some_iff.mp hrun
    have hop := hstay op (List.mem_cons_self ..)
    rw [ih (fun op h => hstay op (List.mem_cons_of_mem _ h)) (ha.step hop hc) hrun]
    exact drainedUnder_step hupper hkey ha hop hc ops

/-- **Under one key nothing is lost** exactly where every two frames have a drain between. -/
theorem handed_eq_frames_iff (hupper : ∀ s, upper (upper s) = upper s) {symbol : String}
    {key : RoutingKey} (hkey : KeyOf symbol key) {ops : List (StreamOp P)}
    (hstay : ∀ op ∈ ops, Stays upper symbol op) {s : ClientSession P} {b : Ledger P}
    (hs : Attends upper symbol s) (hnone : s.pending.get? key = none)
    (hrun : Lts.exec (Ledger.step strip upper) ⟨s, []⟩ (ops ++ [.drain]) = some b) :
    (b.drainedUnder key).Sublist (framesUnder key ops) ∧
      ((b.drainedUnder key).length = (framesUnder key ops).length ↔ DrainedBetween key ops) := by
  have hhanded : b.drainedUnder key = handedFrom key none ops := by
    have h := drainedUnder_run hupper hkey hstay hs hrun
    rw [hnone] at h
    simpa [Ledger.drainedUnder] using h
  have hlen := length_handedFrom_iff key none ops
  rw [show (none : Option P).toList.length = 0 from rfl, Nat.zero_add, spacedFrom_iff] at hlen
  rw [hhanded]
  refine ⟨handedFrom_sublist key none ops, hlen.trans ⟨And.right, fun h => ⟨h.atMost, h⟩⟩⟩

/-! ## Seals and transitions -/

/--
**Every seal goes out once exactly when the client is drained between any two.**

The session is open and subscribed, with no seal of the symbol queued; it stays so over the run,
and the run ends in a drain. Each bar sealed is then in exactly one frame handed to the socket,
and so is each alert whose number is dispatched once, if and only if no stretch of the run without
a drain holds two seals of the symbol.
-/
theorem seals_handed_once_iff {B : Type} (strip upper : String → String)
    (hupper : ∀ s, upper (upper s) = upper s) (bar : P → B) (symbol : String)
    (s : ClientSession P) (hs : Attends upper symbol s)
    (hnone : s.pending.get? (.vol symbol) = none) (ops : List (StreamOp P))
    (hstay : ∀ op ∈ ops, Stays upper symbol op) (b : Ledger P)
    (hrun : Lts.exec (Ledger.step strip upper) ⟨s, []⟩ (ops ++ [.drain]) = some b) :
    (((b.drainedUnder (.vol symbol)).map bar).Perm ((framesUnder (.vol symbol) ops).map bar) ∧
        ∀ seq frame, framesUnder (.alert symbol seq) ops = [frame] →
          s.pending.get? (.alert symbol seq) = none →
          b.drainedUnder (.alert symbol seq) = [frame]) ↔
      DrainedBetween (.vol symbol) ops := by
  have hvol : KeyOf symbol (.vol symbol) := rfl
  obtain ⟨hsub, hiff⟩ := handed_eq_frames_iff hupper hvol hstay hs hnone hrun
  constructor
  · rintro ⟨hperm, -⟩
    refine hiff.mp ?_
    simpa using hperm.length_eq
  · intro hd
    refine ⟨?_, fun seq frame hone hq => ?_⟩
    · rw [hsub.eq_of_length (hiff.mpr hd)]
    · have halert : KeyOf symbol (.alert symbol seq) := rfl
      obtain ⟨hsub, hiff⟩ := handed_eq_frames_iff hupper halert hstay hs hq hrun
      -- dispatched once, it is alone in any stretch
      have halone : DrainedBetween (.alert symbol seq) ops := by
        intro stretch hst _
        have hle := (hst.sublist.filterMap fun op : StreamOp P =>
          match op with
          | .dispatch _ message =>
            if message.key = .alert symbol seq then some message.frame else none
          | _ => none).length_le
        calc _ ≤ (framesUnder (.alert symbol seq) ops).length := hle
          _ = 1 := by rw [hone]; rfl
      rw [hsub.eq_of_length (hiff.mpr halone), hone]

/-- A session that has just subscribed to one pair. -/
def watching : ClientSession Nat := ClientSession.fresh.subscribe id ["EURUSD"]

/-- Two seals, a drain between them, and an alert. -/
theorem seals_handed_once_drained :
    ∃ b, Lts.exec (Ledger.step id id) ⟨watching, []⟩
        ([.dispatch 0 (.vol "EURUSD" 1), .drain, .dispatch 1 (.alert "EURUSD" 7 5),
          .dispatch 1 (.vol "EURUSD" 2)] ++ [.drain]) = some b ∧
      ((b.drainedUnder (.vol "EURUSD")).map id).Perm [1, 2] := by
  have hstay : ∀ op ∈ [.dispatch 0 (.vol "EURUSD" 1), .drain, .dispatch 1 (.alert "EURUSD" 7 5),
      .dispatch 1 (.vol "EURUSD" 2)], Stays id "EURUSD" (op : StreamOp Nat) := by simp [Stays]
  have hs : Attends id "EURUSD" watching := ⟨rfl, by decide⟩
  have hd : DrainedBetween (.vol "EURUSD") [.dispatch 0 (.vol "EURUSD" 1), .drain,
      .dispatch 1 (.alert "EURUSD" 7 5), .dispatch 1 (.vol "EURUSD" (2 : Nat))] :=
    ((spacedFrom_iff _ false _).mp (by simp [SpacedFrom, Published.key])).2
  exact ⟨_, rfl,
    ((seals_handed_once_iff id id (fun _ => rfl) id "EURUSD" watching hs rfl _ hstay _ rfl).mpr hd).1⟩

/-- **A seal that never goes out**: the next one comes before the drain and takes its place. -/
theorem seal_conflated :
    ¬ ∀ (ops : List (StreamOp Nat)) (b : Ledger Nat), (∀ op ∈ ops, Stays id "EURUSD" op) →
      Lts.exec (Ledger.step id id) ⟨watching, []⟩ (ops ++ [.drain]) = some b →
      (framesUnder (.vol "EURUSD") ops).Nodup →
      ∀ bar ∈ framesUnder (.vol "EURUSD") ops, (b.drainedUnder (.vol "EURUSD")).count bar = 1 := by
  intro h
  have hlost := h [.dispatch 0 (.vol "EURUSD" 1), .dispatch 1 (.vol "EURUSD" 2)] _
    (by simp [Stays]) rfl (by decide) 1 (by decide)
  exact absurd hlost (by decide)

end FxTracker.Api
