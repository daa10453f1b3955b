import FxTracker.Api.StreamTrace

/-!
# No gap between the snapshot and what follows it

The messages of a channel are in its trace twice, when they are published and when they are
dispatched, and in between they are in flight: what was published is what was dispatched and what is
in flight, in this order. So what is published after a key was read is dispatched after that, to a
session that has the symbol by then.

Prices go stale in two ways. A frame published before the read may follow the snapshot, and a frame
queued before it may be drained after it. Neither is the last one: where the channel is empty, the
frame queued is of the newest quote, and with none queued the newest quote was read, sent or is in
the writer's batch.

* `inv_step` — what every step keeps
* `no_gap` — in every reachable state
-/

namespace FxTracker.Api

open ClientSession StreamSystem

variable {T : Payloads} {σ : String} {c : Channel} {trace pre post : List (Event T)} {e : Event T}

/-! ## What is still to come -/

variable {s t : StreamSystem T}

/-- What the writer's batch and the reader's replies will bring, after what the client received. -/
def upcoming (σ : String) (s : StreamSystem T) : List (Option T.quote) :=
  told σ s.trace ++ ticksOf σ s.batch ++ (s.reader.elim [] fun r => quotesOf σ r.values)

/-- The newest quote is queued; or nothing is, and it will be read, or is the last to come. -/
def Fresh (σ : String) (s : StreamSystem T) : Prop :=
  (∃ quote, s.session.pending.get? (.tick σ) = some (.tick σ quote) ∧
      newestQuote σ s.trace = some quote) ∨
    s.session.pending.get? (.tick σ) = none ∧
      ((∃ r, s.reader = some r ∧ .quote σ ∈ r.todo) ∨
        (upcoming σ s).getLast? = some (newestQuote σ s.trace))

/-- The replies are those since the symbols were added, to the first commands of the snapshot. -/
def ReadSince (symbols : List String) (bars : Nat) (todo : List Command)
    (values : List (Command × Value T)) (trace : List (Event T)) : Prop :=
  (∃ before since, trace = before ++ .added symbols bars :: since ∧ replies since = values) ∧
    values.map Prod.fst ++ todo = commands symbols bars

theorem ReadSince.concat {symbols : List String} {bars : Nat} {todo : List Command}
    {values : List (Command × Value T)} (h : ReadSince symbols bars todo values trace)
    (he : e.reply? = none) : ReadSince symbols bars todo values (trace ++ [e]) := by
  obtain ⟨⟨before, since, htrace, hreplies⟩, htodo⟩ := h
  refine ⟨⟨before, since ++ [e], by rw [htrace]; simp, ?_⟩, htodo⟩
  rw [replies_append, hreplies, replies, List.filterMap_cons_none he, List.filterMap_nil,
    List.append_nil]

/-- Where nothing is queued, read or published of a symbol, its quote is as fresh as before. -/
theorem Fresh.congr (h : Fresh σ s)
    (hpending : t.session.pending.get? (.tick σ) = s.session.pending.get? (.tick σ))
    (hnewest : newestQuote σ t.trace = newestQuote σ s.trace) (hreader : t.reader = s.reader)
    (hup : upcoming σ t = upcoming σ s) : Fresh σ t := by
  rw [Fresh, hpending, hnewest, hreader, hup]
  exact h

/-! ## The invariant -/

variable [LinearOrder T.bar] [LinearOrder T.point]

/-- What each event owes to the trace before it. -/
def EventOk (upper : String → String) (pre : List (Event T)) : Event T → Prop
  | .executed _ => True
  | .dispatched message offered =>
    ∀ symbol, message.symbol? = some symbol → AddedIn (upper symbol) pre → offered = true
  | .added symbols bars => bars ≤ maxBars ∧ ∀ symbol ∈ symbols, upper symbol = symbol
  | .read command value =>
    AddedIn command.symbol pre ∧ value = command.answer (fun symbol => keysAfter symbol pre) ∧
      ∀ c, dispatchedOn c pre <+: publishedOn c pre
  | .snapshot symbols values => ∃ bars, ReadSince symbols bars [] values pre
  | .frame frame => ShownIn (upper frame.symbol) pre

structure Inv (upper : String → String) (s : StreamSystem T) : Prop where
  store : ∀ σ, s.store σ = keysAfter σ s.trace
  inflight : ∀ c, publishedOn c s.trace = dispatchedOn c s.trace ++ s.channels c
  opened : s.session.closed = false
  subscribed : ∀ σ, σ ∈ s.session.symbols ↔ AddedIn σ s.trace
  queued : ∀ key frame, s.session.pending.get? key = some frame →
    frame.key = key ∧ upper frame.symbol ∈ s.session.symbols
  reading : ∀ r, s.reader = some r → s.lock = .reader
  sending : s.lock ≠ .writer → s.batch = []
  progress : ∀ r, s.reader = some r → ReadSince r.symbols r.bars r.todo r.values s.trace
  shown : ∀ σ ∈ s.session.symbols, ShownIn σ s.trace ∨ ∃ r, s.reader = some r ∧ σ ∈ r.symbols
  drained : ∀ frame ∈ s.batch, ShownIn (upper frame.symbol) s.trace
  fresh : ∀ σ ∈ s.session.symbols, s.channels (.tick σ) = [] → Fresh σ s
  events : Log.Each (EventOk upper) s.trace

theorem inv_init (upper : String → String) : Inv upper (StreamSystem.init : StreamSystem T) where
  store _ := rfl
  inflight _ := rfl
  opened := rfl
  subscribed σ := by simp [StreamSystem.init, ClientSession.fresh, AddedIn]
  queued := by rintro key frame ⟨⟩
  reading := nofun
  sending _ := rfl
  progress := nofun
  shown σ hσ := absurd hσ (Finset.notMem_empty σ)
  drained := nofun
  fresh σ hσ := absurd hσ (Finset.notMem_empty σ)
  events := Log.each_nil

variable {strip upper : String → String}

/-! ## The steps -/

/-- Symbols are added in upper case. -/
theorem upper_of_addedIn (h : Log.Each (EventOk upper) trace) (hadd : AddedIn σ trace) :
    upper σ = σ := by
  obtain ⟨symbols, bars, hmem, hσ⟩ := hadd
  obtain ⟨pre, post, rfl⟩ := List.append_of_mem hmem
  exact (h pre _ post rfl).2 σ hσ

theorem inv_multi {m : Multi T} (hi : Inv upper s) (h : step strip upper s (.multi m) = some t) :
    Inv upper t := by
  obtain rfl := Option.some.inj h
  refine ⟨fun σ => ?_, fun c => ?_, hi.opened, fun σ => ?_, hi.queued, hi.reading, hi.sending,
    fun r hr => (hi.progress r hr).concat rfl, fun σ hσ => (hi.shown σ hσ).imp_left ShownIn.concat,
    fun frame hf => (hi.drained frame hf).concat, fun σ hσ hch => ?_,
    Log.each_concat_iff.mpr ⟨hi.events, trivial⟩⟩
  · show Function.update s.store m.symbol _ σ = _
    rw [keysAfter_multi, ← hi.store]
    by_cases h : m.symbol = σ
    · rw [if_pos h, h, Function.update_self]
    · rw [if_neg h, Function.update_of_ne (Ne.symm h)]
  · show publishedOn c (s.trace ++ [.executed m]) = _
    have hpub : publishedOn c [.executed m] = m.publishes.filter fun message => message.channel = c := by
      simp [publishedOn, Event.executed?]
    rw [publishedOn_append, dispatchedOn_append, dispatchedOn_of_ne rfl, List.append_nil, hpub,
      hi.inflight, List.append_assoc]
  · exact (hi.subscribed σ).trans (addedIn_concat_of_ne (by simp)).symm
  · -- only a MULTI of another symbol leaves the channel empty
    obtain ⟨hempty, hnone⟩ := List.append_eq_nil_iff.mp hch
    have hne : m.symbol ≠ σ := by
      intro he
      rw [publishes_filter_tick, if_pos he] at hnone
      cases hnone
    refine (hi.fresh σ hσ hempty).congr rfl (newestQuote_of_ne ?_) rfl ?_
    · simp [executed, Event.executed?, hne]
    · rw [upcoming, told_of_ne rfl, upcoming]

theorem inv_dispatch {channel : Channel} {now : Int} (hi : Inv upper s)
    (h : step strip upper s (.dispatch channel now) = some t) : Inv upper t := by
  simp only [step] at h
  split at h
  · cases h
  next message rest hch =>
  obtain rfl := Option.some.inj h
  have hin : message ∈ publishedOn channel s.trace := by
    rw [hi.inflight, hch]
    simp
  obtain ⟨hmc, hmk, hms⟩ := of_mem_publishedOn hin
  have hheard : AddedIn (upper message.frame.symbol) s.trace ↔ s.session.hears upper message = true :=
    (hi.subscribed _).symm.trans (hears_iff hms).symm
  refine ⟨fun σ => (hi.store σ).trans (keysAfter_of_ne rfl).symm, fun c => ?_,
    (closed_dispatch ..).trans hi.opened, fun σ => ?_, fun key frame hget => ?_, hi.reading,
    hi.sending, fun r hr => (hi.progress r hr).concat rfl, fun σ hσ => ?_,
    fun frame hf => (hi.drained frame hf).concat, fun σ hσ hempty => ?_,
    Log.each_concat_iff.mpr ⟨hi.events, fun symbol hsym hadd => ?_⟩⟩
  · -- the message leaves its channel
    show publishedOn c (s.trace ++ [.dispatched message _]) = _ ++ Function.update s.channels _ _ c
    rw [publishedOn_append, publishedOn_of_ne rfl, List.append_nil, hi.inflight, dispatchedOn_append]
    by_cases hc : c = channel
    · subst hc
      simp [hch, dispatchedOn, Event.dispatched?, hmc]
    · have hnone : dispatchedOn c [.dispatched message (!s.session.closed && s.session.hears upper message)]
          = [] := by simp [dispatchedOn, Event.dispatched?, hmc, Ne.symm hc]
      rw [hnone, List.append_nil, Function.update_of_ne hc]
  · rw [symbols_dispatch]
    exact (hi.subscribed σ).trans (addedIn_concat_of_ne (by simp)).symm
  · -- what is queued was queued before, or is the message
    rw [pending_dispatch] at hget
    rw [symbols_dispatch]
    split at hget
    · next hopen =>
      rw [Dict.get?_set] at hget
      split at hget
      · next hk =>
        obtain rfl := Option.some.inj hget
        exact ⟨hmk.trans hk.symm, (hears_iff hms).mp hopen.2⟩
      · exact hi.queued key frame hget
    · exact hi.queued key frame hget
  · rw [symbols_dispatch] at hσ
    exact (hi.shown σ hσ).imp_left ShownIn.concat
  · rw [symbols_dispatch] at hσ
    by_cases hc : channel = .tick σ
    · -- the last one in flight is the newest published
      subst hc
      have hupper := upper_of_addedIn hi.events ((hi.subscribed σ).mp hσ)
      have hrest : rest = [] := by
        change Function.update s.channels (.tick σ) rest (.tick σ) = [] at hempty
        rwa [Function.update_self] at hempty
      have hlast := hi.inflight (.tick σ)
      rw [hch, hrest, publishedOn_tick] at hlast
      have hm := congrArg List.getLast? hlast
      rw [List.getLast?_concat, List.getLast?_map, Option.map_eq_some_iff] at hm
      obtain ⟨m, hm, rfl⟩ := hm
      obtain rfl : m.symbol = σ := Channel.tick.inj hmc
      refine Or.inl ⟨m.quote, ?_, ?_⟩
      · show (s.session.dispatch upper now _).pending.get? _ = _
        rw [pending_dispatch, if_pos ⟨hi.opened, (hears_iff hms).mpr (hupper.symm ▸ hσ)⟩]
        exact Dict.get?_set_self ..
      · rw [newestQuote_of_ne (executed_of_ne rfl), newestQuote, hm]
        rfl
    · -- of another channel, it leaves the quote alone
      have hold : s.channels (.tick σ) = [] := by
        change Function.update s.channels channel rest (.tick σ) = [] at hempty
        rwa [Function.update_of_ne (Ne.symm hc)] at hempty
      refine (hi.fresh σ hσ hold).congr ?_ (newestQuote_of_ne (executed_of_ne rfl)) rfl ?_
      · show (s.session.dispatch upper now _).pending.get? _ = _
        rw [pending_dispatch]
        split
        · refine Dict.get?_set_ne _ _ fun hk => hc ?_
          rw [← hmc]
          cases message <;> cases hk
          rfl
        · rfl
      · rw [upcoming, told_of_ne rfl, upcoming]
  · obtain rfl : message.frame.symbol = symbol := Option.some.inj (hms.symm.trans hsym)
    rw [hi.opened, hheard.mp hadd]
    rfl

theorem inv_subscribe {symbols : List String} {bars : Nat} (hupper : ∀ x, upper (upper x) = upper x)
    (hi : Inv upper s) (h : step strip upper s (.subscribe symbols bars) = some t) :
    Inv upper t := by
  simp only [step] at h
  split at h
  swap
  · cases h
  next hfree =>
  obtain ⟨session, hs, rfl⟩ := Option.map_eq_some_iff.mp h
  obtain rfl := eq_subscribe_of_onSubscribe hs
  have hnormal : ∀ x ∈ normalise strip upper symbols, upper x = x := by
    intro x hx
    obtain ⟨y, -, rfl⟩ := mem_normalise.mp hx
    exact hupper _
  generalize normalise strip upper symbols = added at hnormal
  have hmem : ∀ x, x ∈ (s.session.subscribe upper added).symbols ↔ x ∈ s.session.symbols ∨ x ∈ added := by
    intro x
    rw [subscribe, List.map_congr_left hnormal]
    simp
  have hreader : ∀ r, s.reader ≠ some r := by
    intro r hr
    have hlock := hi.reading r hr
    rw [hfree.1] at hlock
    cases hlock
  have hbatch : s.batch = [] := hi.sending (by rw [hfree.1]; nofun)
  refine ⟨fun σ => (hi.store σ).trans (keysAfter_of_ne rfl).symm,
    fun c => inflight_of_ne (hi.inflight c) rfl rfl, hi.opened,
    fun σ => ?_, fun key frame hget => ?_, fun _ _ => rfl, fun _ => hbatch, ?_,
    fun σ hσ => ?_, fun frame hf => (hi.drained frame hf).concat, fun σ hσ hempty => ?_,
    Log.each_concat_iff.mpr ⟨hi.events, hfree.2, hnormal⟩⟩
  · rw [hmem, hi.subscribed, addedIn_concat]
    simp
  · obtain ⟨hkey, hsym⟩ := hi.queued key frame hget
    exact ⟨hkey, (hmem _).mpr (Or.inl hsym)⟩
  · -- the reader has all of its commands before it
    rintro r ⟨⟩
    exact ⟨⟨s.trace, [], rfl, rfl⟩, rfl⟩
  · -- a new symbol is shown by the reader
    rcases (hmem σ).mp hσ with hold | hnew
    · rcases hi.shown σ hold with hshown | ⟨r, hr, -⟩
      · exact Or.inl hshown.concat
      · exact absurd hr (hreader r)
    · exact Or.inr ⟨_, rfl, hnew⟩
  · -- its quote is still to be read
    by_cases hnew : σ ∈ added
    · rcases hget : s.session.pending.get? (.tick σ) with _ | frame
      · refine Or.inr ⟨hget, Or.inl ⟨_, rfl, ?_⟩⟩
        exact List.mem_flatMap.mpr ⟨σ, hnew, List.mem_cons_self ..⟩
      · -- what is queued was heard, so the symbol is no new one
        obtain ⟨hkey, hsym⟩ := hi.queued _ _ hget
        have hold : σ ∈ s.session.symbols := by
          cases frame <;> cases hkey
          exact hnormal σ hnew ▸ hsym
        rcases hi.fresh σ hold hempty with ⟨quote, hq, hn⟩ | ⟨hnone, -⟩
        · exact Or.inl ⟨quote, hq, (newestQuote_of_ne (executed_of_ne rfl)).trans hn⟩
        · rw [hnone] at hget
          cases hget
    · have hold := ((hmem σ).mp hσ).resolve_right hnew
      rcases hi.fresh σ hold hempty with ⟨quote, hq, hn⟩ | ⟨hnone, ⟨r, hr, -⟩ | hlast⟩
      · exact Or.inl ⟨quote, hq, (newestQuote_of_ne (executed_of_ne rfl)).trans hn⟩
      · exact absurd hr (hreader r)
      · refine Or.inr ⟨hnone, Or.inr ?_⟩
        have hnil : s.reader = none := Option.eq_none_iff_forall_ne_some.mpr hreader
        rw [newestQuote_of_ne (executed_of_ne rfl), ← hlast, upcoming, upcoming, told_of_ne rfl, hnil]
        rfl

/-- Replies that quote a symbol bring its newest quote. -/
theorem quotesOf_answer (hi : Inv upper s) (command : Command) :
    quotesOf σ [(command, command.answer s.store)]
      = if command = .quote σ then [newestQuote σ s.trace] else [] := by
  cases command with
  | quote symbol =>
    by_cases h : symbol = σ
    · subst h
      simp [quotesOf, Command.answer, hi.store, keysAfter_quote]
    · simp [quotesOf, Command.answer, h]
  | history | vol | regime | zhist => rfl

theorem inv_read (hi : Inv upper s) (h : step strip upper s .read = some t) : Inv upper t := by
  simp only [step] at h
  split at h
  swap
  · cases h
  next symbols bars command todo values hr =>
  obtain rfl := Option.some.inj h
  obtain ⟨⟨before, since, htrace, hreplies⟩, htodo⟩ := hi.progress _ hr
  have hsymbol : command.symbol ∈ symbols := by
    have hmem : command ∈ commands symbols bars := by
      rw [← htodo]
      simp
    obtain ⟨symbol, hsymbol, hcommand⟩ := List.mem_flatMap.mp hmem
    simp only [List.mem_cons, List.not_mem_nil, or_false] at hcommand
    rcases hcommand with rfl | rfl | rfl | rfl | rfl <;> exact hsymbol
  have hadded : AddedIn command.symbol s.trace := ⟨symbols, bars, by rw [htrace]; simp, hsymbol⟩
  refine ⟨fun σ => (hi.store σ).trans (keysAfter_of_ne rfl).symm,
    fun c => inflight_of_ne (hi.inflight c) rfl rfl, hi.opened,
    fun σ => (hi.subscribed σ).trans (addedIn_concat_of_ne (by simp)).symm, hi.queued,
    fun _ _ => hi.reading _ hr, hi.sending, ?_, fun σ hσ => ?_,
    fun frame hf => (hi.drained frame hf).concat, fun σ hσ hempty => ?_,
    Log.each_concat_iff.mpr ⟨hi.events, hadded, ?_, fun c => ⟨_, (hi.inflight c).symm⟩⟩⟩
  · rintro r ⟨⟩
    refine ⟨⟨before, since ++ [.read command (command.answer s.store)], by rw [htrace]; simp, ?_⟩, ?_⟩
    · rw [replies_append, hreplies]
      rfl
    · rw [← htodo]
      simp
  · rcases hi.shown σ hσ with hshown | ⟨r, hr', hσr⟩
    · exact Or.inl hshown.concat
    · obtain rfl := Option.some.inj (hr.symm.trans hr')
      exact Or.inr ⟨_, rfl, hσr⟩
  · -- a quote that is read is the newest
    rcases hi.fresh σ hσ hempty with ⟨quote, hq, hn⟩ | ⟨hnone, hrest⟩
    · exact Or.inl ⟨quote, hq, (newestQuote_of_ne (executed_of_ne rfl)).trans hn⟩
    refine Or.inr ⟨hnone, ?_⟩
    have hup : upcoming σ { s with
          reader := some ⟨symbols, bars, todo, values ++ [(command, command.answer s.store)]⟩
          trace := s.trace ++ [.read command (command.answer s.store)] }
        = upcoming σ s ++ if command = .quote σ then [newestQuote σ s.trace] else [] := by
      rw [upcoming, upcoming, told_of_ne rfl, hr, ← quotesOf_answer hi]
      simp [quotesOf]
    rw [newestQuote_of_ne (executed_of_ne rfl), hup]
    by_cases hc : command = .quote σ
    · rw [if_pos hc, List.getLast?_concat]
      exact Or.inr rfl
    · rw [if_neg hc, List.append_nil]
      refine hrest.imp_left ?_
      rintro ⟨r, hr', htodo⟩
      obtain rfl := Option.some.inj (hr.symm.trans hr')
      exact ⟨_, rfl, (List.mem_cons.mp htodo).resolve_left (Ne.symm hc)⟩
  · rw [funext hi.store]

theorem inv_sendSnapshot (hi : Inv upper s) (h : step strip upper s .sendSnapshot = some t) :
    Inv upper t := by
  simp only [step] at h
  split at h
  swap
  · cases h
  next symbols bars values hr =>
  obtain rfl := Option.some.inj h
  have hlock := hi.reading _ hr
  have hbatch : s.batch = [] := hi.sending (by rw [hlock]; nofun)
  refine ⟨fun σ => (hi.store σ).trans (keysAfter_of_ne rfl).symm,
    fun c => inflight_of_ne (hi.inflight c) rfl rfl, hi.opened,
    fun σ => (hi.subscribed σ).trans (addedIn_concat_of_ne (by simp)).symm, hi.queued,
    nofun, fun _ => hbatch, nofun, fun σ hσ => Or.inl ?_,
    fun frame hf => (hi.drained frame hf).concat, fun σ hσ hempty => ?_,
    Log.each_concat_iff.mpr ⟨hi.events, bars, hi.progress _ hr⟩⟩
  · rcases hi.shown σ hσ with hshown | ⟨r, hr', hσr⟩
    · exact hshown.concat
    · obtain rfl := Option.some.inj (hr.symm.trans hr')
      exact ⟨symbols, values, by simp, hσr⟩
  · rcases hi.fresh σ hσ hempty with ⟨quote, hq, hn⟩ | ⟨hnone, ⟨r, hr', htodo⟩ | hlast⟩
    · exact Or.inl ⟨quote, hq, (newestQuote_of_ne (executed_of_ne rfl)).trans hn⟩
    · obtain rfl := Option.some.inj (hr.symm.trans hr')
      cases htodo
    · refine Or.inr ⟨hnone, Or.inr ?_⟩
      rw [newestQuote_of_ne (executed_of_ne rfl), ← hlast, upcoming, upcoming, hr, hbatch]
      simp [told, Event.tells, ticksOf]

omit [LinearOrder T.bar] [LinearOrder T.point] in
/-- The ticks of a symbol are under its routing key. -/
theorem ticksOf_filter (frames : List (Frame T)) :
    ticksOf σ (frames.filter fun frame => frame.key = .tick σ) = ticksOf σ frames := by
  induction frames with
  | nil => rfl
  | cons frame frames ih =>
    cases frame with
    | tick symbol quote => by_cases h : symbol = σ <;> simp_all [ticksOf, Frame.key]
    | vol | alert => simpa [ticksOf, Frame.key] using ih

theorem inv_drain (hi : Inv upper s) (h : step strip upper s .drain = some t) : Inv upper t := by
  simp only [step] at h
  split at h
  swap
  · cases h
  next hfree =>
  obtain rfl := Option.some.inj h
  have hreader : ∀ r, s.reader ≠ some r := by
    intro r hr
    have hlock := hi.reading r hr
    rw [hfree] at hlock
    cases hlock
  have hbatch : s.batch = [] := hi.sending (by rw [hfree]; nofun)
  refine ⟨hi.store, hi.inflight, (closed_drain _).trans hi.opened, fun σ => ?_, fun key frame hget => ?_,
    fun r hr => absurd hr (hreader r), fun hne => absurd rfl hne, hi.progress, fun σ hσ => ?_,
    fun frame hf => ?_, fun σ hσ hempty => ?_, hi.events⟩
  · rw [symbols_drain]
    exact hi.subscribed σ
  · rw [pending_drain] at hget
    cases hget
  · rw [symbols_drain] at hσ
    exact hi.shown σ hσ
  · change frame ∈ s.session.drain.1 at hf
    rw [drain_frames] at hf
    obtain ⟨e, he, rfl⟩ := List.mem_map.mp hf
    obtain ⟨-, hsym⟩ := hi.queued _ _ (Dict.mem_entries_iff.mp he)
    exact (hi.shown _ hsym).resolve_right fun ⟨r, hr, _⟩ => hreader r hr
  · rw [symbols_drain] at hσ
    have hticks : ticksOf σ s.session.drain.1
        = ticksOf σ (s.session.pending.get? (.tick σ)).toList := by
      rw [drain_frames, ← ticksOf_filter,
        Dict.filter_values_eq fun key frame hget => (hi.queued key frame hget).1]
    have hnil : s.reader = none := Option.eq_none_iff_forall_ne_some.mpr hreader
    refine Or.inr ⟨by rw [pending_drain]; rfl, Or.inr ?_⟩
    rw [upcoming, hticks, hnil]
    rcases hi.fresh σ hσ hempty with ⟨quote, hq, hn⟩ | ⟨hnone, ⟨r, hr, -⟩ | hlast⟩
    · simp [hq, hn, ticksOf]
    · exact absurd hr (hreader r)
    · rw [upcoming, hbatch, hnil] at hlast
      rw [hnone]
      exact hlast

theorem inv_send (hi : Inv upper s) (h : step strip upper s .send = some t) : Inv upper t := by
  simp only [step] at h
  split at h
  swap
  · cases h
  next frame batch hb =>
  obtain rfl := Option.some.inj h
  have hlock : s.lock = .writer := by
    by_contra hne
    rw [hi.sending hne] at hb
    cases hb
  have hframe := hi.drained frame (by rw [hb]; exact List.mem_cons_self ..)
  refine ⟨fun σ => (hi.store σ).trans (keysAfter_of_ne rfl).symm,
    fun c => inflight_of_ne (hi.inflight c) rfl rfl, hi.opened,
    fun σ => (hi.subscribed σ).trans (addedIn_concat_of_ne (by simp)).symm, hi.queued, hi.reading,
    fun hne => absurd hlock hne, fun r hr => (hi.progress r hr).concat rfl,
    fun σ hσ => (hi.shown σ hσ).imp_left ShownIn.concat, fun f hf => ?_, fun σ hσ hempty => ?_,
    Log.each_concat_iff.mpr ⟨hi.events, hframe⟩⟩
  · exact (hi.drained f (by rw [hb]; exact List.mem_cons_of_mem _ hf)).concat
  · refine (hi.fresh σ hσ hempty).congr rfl (newestQuote_of_ne (executed_of_ne rfl)) rfl ?_
    have htold : told σ [.frame frame] = ticksOf σ [frame] := by simp [told, Event.tells]
    rw [upcoming, upcoming, hb, told_append, htold, List.append_assoc (told σ s.trace),
      ← ticksOf_append]
    rfl

theorem inv_release (hi : Inv upper s) (h : step strip upper s .release = some t) : Inv upper t := by
  simp only [step] at h
  split at h
  swap
  · cases h
  next hlock =>
  obtain rfl := Option.some.inj h
  refine ⟨hi.store, hi.inflight, hi.opened, hi.subscribed, hi.queued, fun r hr => ?_,
    fun _ => hlock.2, hi.progress, hi.shown, hi.drained, fun σ hσ hempty => ?_, hi.events⟩
  · have hreader := hi.reading r hr
    rw [hlock.1] at hreader
    cases hreader
  · exact hi.fresh σ hσ hempty

theorem inv_step (hupper : ∀ x, upper (upper x) = upper x) {a : Action T} (hi : Inv upper s)
    (h : step strip upper s a = some t) : Inv upper t := by
  cases a with
  | multi m => exact inv_multi hi h
  | dispatch channel now => exact inv_dispatch hi h
  | subscribe symbols bars => exact inv_subscribe hupper hi h
  | read => exact inv_read hi h
  | sendSnapshot => exact inv_sendSnapshot hi h
  | drain => exact inv_drain hi h
  | send => exact inv_send hi h
  | release => exact inv_release hi h

theorem inv_reachable (hupper : ∀ x, upper (upper x) = upper x)
    (hs : (streamLts strip upper).Reachable s) : Inv upper s :=
  hs.invariant (fun _ h => h ▸ inv_init upper) fun _ _ _ hi h => inv_step hupper hi h

/-! ## After a read -/

/-- How many of the newest bars a snapshot reads. -/
def windowOf (bars : Nat) : Nat := if bars = 0 then historyCap else min bars historyCap

omit [LinearOrder T.point] in
theorem reflects_newestMembers {l : List T.bar} {x : T.bar} (hs : l.Pairwise (· ≤ ·))
    (hlen : l.length ≤ historyCap) (h : Reflects historyCap l x) (bars : Nat) :
    Reflects (windowOf bars) (newestMembers l bars) x := by
  unfold windowOf newestMembers
  split
  · exact h
  · have hmin := reflects_rtake hs h (Nat.min_le_right bars historyCap)
    by_cases hb : bars ≤ historyCap
    · rwa [Nat.min_eq_left hb] at hmin ⊢
    · rw [Nat.min_eq_right (by omega)] at hmin ⊢
      rw [rtake_eq_self hlen] at hmin
      rwa [rtake_eq_self (by omega)]

/-- What a stretch of the trace published on a channel it also offered, in order, or it is in flight. -/
def OfferedOrInFlight (c : Channel) (post : List (Event T)) (s : StreamSystem T) : Prop :=
  publishedOn c post <:+ offeredOn c post ++ s.channels c

/-- Once a symbol was added, whatever of it is dispatched is offered. -/
theorem dispatchedOn_eq_offeredOn (h : Log.Each (EventOk upper) (pre ++ post)) (hadd : AddedIn σ pre)
    (hc : ∀ message : Published (Frame T), message.channel = c → message.symbol? = some σ) :
    dispatchedOn c post = offeredOn c post := by
  induction post using List.reverseRecOn with
  | nil => rfl
  | append_singleton post e ih =>
    rw [← List.append_assoc, Log.each_concat_iff] at h
    rw [dispatchedOn_append, offeredOn_append, ih h.1]
    congr 1
    cases e with
    | dispatched message offered =>
      cases offered with
      | true => rfl
      | false =>
        have hother : message.channel ≠ c := by
          intro hm
          have hadded : AddedIn (upper σ) (pre ++ post) := by
            have hold := hadd.mono fun e he => List.mem_append_left post he
            rwa [upper_of_addedIn h.1 hold]
          cases h.2 σ (hc message hm) hadded
        simp [dispatchedOn, offeredOn, Event.dispatched?, Event.offered?, hother]
    | executed | added | read | snapshot | frame => rfl

/-- **After a key was read**, what is published of the symbol is offered or in flight. -/
theorem offeredOrInFlight_of_read {command : Command} {value : Value T} (hi : Inv upper s)
    (htrace : s.trace = pre ++ .read command value :: post)
    (hc : ∀ message : Published (Frame T), message.channel = c →
      message.symbol? = some command.symbol) : OfferedOrInFlight c post s := by
  obtain ⟨hadd, -, hprefix⟩ := hi.events pre _ post htrace
  obtain ⟨inflight, hpre⟩ := hprefix c
  have hevents := hi.events
  have hall := hi.inflight c
  rw [htrace, List.append_cons] at hevents hall
  have hoffered := dispatchedOn_eq_offeredOn hevents
    (hadd.mono fun e he => List.mem_append_left _ he) hc
  have hpub : publishedOn c [Event.read command value] = [] := publishedOn_of_ne rfl
  have hdisp : dispatchedOn c [Event.read command value] = [] := dispatchedOn_of_ne rfl
  simp only [publishedOn_append, dispatchedOn_append, hpub, hdisp, List.nil_append, ← hpre,
    List.append_assoc, List.append_cancel_left_eq] at hall
  exact ⟨inflight, by rw [hall, hoffered]⟩

/--
**No gap.** In every reachable state, whatever the interleaving of the MULTIs, the fan-out, the
reader and the writer:

* a frame went to the socket only after a snapshot of its symbol;
* a snapshot holds the replies read since its symbols were added;
* the history read shows every bar sealed by then, for the bars asked for, and the volatility frame
  of every bar sealed after that is offered to the session or in flight;
* the regime read is the one of the newest bar sealed by then, and every transition published after
  that is offered or in flight;
* with nothing of a subscribed symbol's ticks in flight, queued, being read or being sent, the last
  quote of it that the client received is the newest one published.
-/
theorem no_gap (hupper : ∀ x, upper (upper x) = upper x)
    (hs : (streamLts strip upper).Reachable s) :
    (∀ pre frame post, s.trace = pre ++ .frame frame :: post → ShownIn (upper frame.symbol) pre) ∧
    (∀ pre symbols values post, s.trace = pre ++ .snapshot symbols values :: post →
      ∃ bars, ReadSince symbols bars [] values pre) ∧
    (∀ pre σ bars value post, s.trace = pre ++ .read (.history σ bars) value :: post →
      AddedIn σ pre ∧
      (∃ members, value = .history members ∧
        ∀ e ∈ sealedOf σ pre, Reflects (windowOf bars) members e.bar) ∧
      OfferedOrInFlight (.vol σ) post s) ∧
    (∀ pre σ value post, s.trace = pre ++ .read (.regime σ) value :: post →
      AddedIn σ pre ∧ value = .regime ((sealedOf σ pre).getLast?.map SealedMinute.regime) ∧
      OfferedOrInFlight (.alert σ) post s) ∧
    ∀ σ ∈ s.session.symbols, s.channels (.tick σ) = [] → s.session.pending.get? (.tick σ) = none →
      s.reader = none → s.batch = [] → (told σ s.trace).getLast? = some (newestQuote σ s.trace) := by
  have hi := inv_reachable hupper hs
  refine ⟨fun pre frame post h => hi.events pre _ post h,
    fun pre symbols values post h => hi.events pre _ post h,
    fun pre σ bars value post h => ?_, fun pre σ value post h => ?_,
    fun σ hσ hchannel hpending hreader hbatch => ?_⟩
  · obtain ⟨hadd, rfl, -⟩ := hi.events pre _ post h
    refine ⟨hadd, ⟨_, rfl, fun e he => ?_⟩, offeredOrInFlight_of_read hi h fun message hm => ?_⟩
    · rw [keysAfter_history]
      exact reflects_newestMembers (pairwise_foldl_hold _) (length_foldl_hold_le _)
        (reflects_foldl_hold (List.mem_map_of_mem he)) bars
    · cases message <;> cases hm
      rfl
  · obtain ⟨hadd, rfl, -⟩ := hi.events pre _ post h
    refine ⟨hadd, ?_, offeredOrInFlight_of_read hi h fun message hm => ?_⟩
    · rw [Command.answer, keysAfter_regime]
    · cases message <;> cases hm
      rfl
  · rcases hi.fresh σ hσ hchannel with ⟨quote, hq, -⟩ | ⟨-, ⟨r, hr, -⟩ | hlast⟩
    · rw [hpending] at hq
      cases hq
    · rw [hreader] at hr
      cases hr
    · rw [upcoming, hbatch, hreader] at hlast
      simpa [ticksOf] using hlast

/-! ## A run -/

/-- Payloads that are numbers. -/
abbrev samplePayloads : Payloads := ⟨Nat, Nat, Nat, Nat, Nat, Nat⟩

def sampleMulti (quote : Nat) (sealed : Option (SealedMinute samplePayloads)) : Multi samplePayloads :=
  ⟨"EURUSD", quote, sealed⟩

/-- A quote is queued when the next one is written, read and sent; the one queued goes out after it,
and the frame of the newest last. -/
def staleAfterSnapshot : List (Action samplePayloads) :=
  [.subscribe ["EURUSD"] 240, .multi (sampleMulti 1 none), .dispatch (.tick "EURUSD") 0,
    .multi (sampleMulti 2 (some ⟨10, 11, 12, none, some (1, 13)⟩)),
    .read, .read, .read, .read, .read, .sendSnapshot, .drain, .send, .release,
    .dispatch (.tick "EURUSD") 1, .dispatch (.vol "EURUSD") 1, .dispatch (.alert "EURUSD") 1, .drain,
    .send, .send, .send, .release]

theorem no_gap_stale :
    ∃ s : StreamSystem samplePayloads, (streamLts id id).Reachable s ∧
      told "EURUSD" s.trace = [some 2, some 1, some 2] ∧
      (told "EURUSD" s.trace).getLast? = some (newestQuote "EURUSD" s.trace) := by
  have hrun := (Option.some_get (show (Lts.exec
    (StreamSystem.step (T := samplePayloads) id id) .init staleAfterSnapshot).isSome by
      decide +kernel)).symm
  have hreach : (streamLts (T := samplePayloads) id id).Reachable _ := Lts.reachable_of_exec hrun
  refine ⟨_, hreach, by decide +kernel, ?_⟩
  exact (no_gap (fun _ => rfl) hreach).2.2.2.2 "EURUSD" (by decide +kernel) rfl rfl rfl rfl

end FxTracker.Api
