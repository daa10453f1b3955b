import FxTracker.Core.Exact
import FxTracker.Lib.Tally
import FxTracker.Worker.Page

/-!
# Persisted returns

In exact arithmetic, what a tick should add to `sum_ret` and `sum_ret_sq` of its row is a function of
the stream before it: its return is taken from the last tick of its symbol, unless another provider's
or across a gap. `logReturns` adds that up. The memory computes it as long as it recalls that last
tick, or has forgotten one that no uncommitted tick takes its return from.

* `Persister.Knows.ingestAll`, `Persister.Sums.ingestAll` — folding a page in
* `returns_commit`, `returns_replay` — committing it
-/

namespace FxTracker.Worker

noncomputable section

variable {cfg : PersisterConfig ℝ} {m m' : Persister ℝ} {e f : Entry} {L C D H es : List Entry}
  {n : Nat} {table table' : BarTable ℝ}

/-! ## What a tick adds -/

/-- What a return adds to `sum_ret` and `sum_ret_sq`. -/
def withSquare (r : ℝ) : ℝ × ℝ := (r, r * r)

/-- The return `add` folds in, 0 for none. -/
def returnFrom (price : ℝ) (prev : Option ℝ) : ℝ :=
  ((BucketAccumulator.logReturn price prev).bind id).getD 0

/-- The return of a tick after the entries before it. -/
def returnAfter (cfg : PersisterConfig ℝ) (pre : List Entry) (x : RawTick ℝ × Int) : ℝ :=
  returnFrom (Persister.RawTick.mid x.1) (linkedPrice cfg pre x)

/-- What an entry adds to a row. -/
def addedTo (cfg : PersisterConfig ℝ) (k : BarKey) (pre : List Entry) (e : Entry) : ℝ × ℝ :=
  match tickOf cfg e with
  | some x => if (x.1.symbol, x.2) = k then withSquare (returnAfter cfg pre x) else 0
  | none => 0

/-- `sum_ret` and `sum_ret_sq` of a row, as a function of the stream. -/
def logReturns (cfg : PersisterConfig ℝ) (k : BarKey) (stream : List Entry) : ℝ × ℝ :=
  tally (addedTo cfg k) [] stream

@[simp] theorem returnFrom_none (price : ℝ) : returnFrom price none = 0 := rfl

@[simp] theorem withSquare_zero : withSquare 0 = 0 := by simp [withSquare]

/-- In exact arithmetic no return raises. -/
theorem isSome_logReturn (price : ℝ) (prev : Option ℝ) :
    (BucketAccumulator.logReturn price prev).isSome := by
  cases prev with
  | none => rfl
  | some p =>
    unfold BucketAccumulator.logReturn
    dsimp only
    split
    · next hpos =>
      rw [log_eq (div_pos hpos.2 hpos.1)]
      rfl
    · rfl

theorem returnsOk (cfg : PersisterConfig ℝ) (stream : List Entry) : ReturnsOk cfg stream := by
  unfold ReturnsOk ReturnOk
  intros
  exact isSome_logReturn ..

/-- A return is taken between two positive prices that differ. -/
theorem of_returnFrom_ne_zero {price : ℝ} {prev : Option ℝ} (h : returnFrom price prev ≠ 0) :
    ∃ p, prev = some p ∧ 0 < p ∧ 0 < price ∧ p ≠ price := by
  cases prev with
  | none => exact absurd (returnFrom_none price) h
  | some p =>
    unfold returnFrom BucketAccumulator.logReturn at h
    dsimp only at h
    split at h
    · next hpos =>
      refine ⟨p, rfl, hpos.1, hpos.2, ?_⟩
      rintro rfl
      rw [div_self hpos.1.ne', log_eq one_pos, Real.log_one] at h
      exact h rfl
    · exact absurd rfl h

/-! ## What is linked -/

/-- The second tick takes its return from the first, and it is not 0. -/
def Linked (cfg : PersisterConfig ℝ) (e f : Entry) : Prop :=
  ∃ x ∈ tickOf cfg e, ∃ y ∈ tickOf cfg f, x.1.symbol = y.1.symbol ∧
    x.1.provider = y.1.provider ∧ ¬ cfg.bucketSeconds * gapBarMultiple < y.2 - x.2 ∧
    0 < Persister.RawTick.mid x.1 ∧ 0 < Persister.RawTick.mid y.1 ∧
    Persister.RawTick.mid x.1 ≠ Persister.RawTick.mid y.1

/-- Between the two entries of the stream there is no tick of the symbol of the first. -/
def Next (cfg : PersisterConfig ℝ) (stream : List Entry) (e f : Entry) : Prop :=
  ∃ pre ys post, stream = pre ++ e :: (ys ++ f :: post) ∧
    ∀ y ∈ ys, ∀ z ∈ tickOf cfg y, ∀ x ∈ tickOf cfg e, z.1.symbol ≠ x.1.symbol

/-- No tick of the symbol is among the entries. -/
def Without (cfg : PersisterConfig ℝ) (symbol : String) (ys : List Entry) : Prop :=
  ∀ y ∈ ys, ∀ z ∈ tickOf cfg y, z.1.symbol ≠ symbol

/-- The next tick of the symbol after `D`, if it is past the first `n` entries of the stream, has a
return of 0. -/
def Unlinked (cfg : PersisterConfig ℝ) (stream : List Entry) (n : Nat) (D : List Entry)
    (symbol : String) : Prop :=
  ∀ ys f, D ++ ys ++ [f] <+: stream → n ≤ (D ++ ys).length → Without cfg symbol ys →
    ∀ x ∈ tickOf cfg f, x.1.symbol = symbol → returnAfter cfg (D ++ ys) x = 0

/-- The return of a tick after `D` is from the last tick of its symbol in `D`. -/
theorem linked_of_returnAfter {ys : List Entry} {x : RawTick ℝ × Int} (hx : tickOf cfg f = some x)
    (hys : Without cfg x.1.symbol ys) (h : returnAfter cfg (D ++ ys) x ≠ 0) :
    ∃ pre e zs, D = pre ++ e :: zs ∧ Linked cfg e f ∧
      ∀ z ∈ zs ++ ys, ∀ w ∈ tickOf cfg z, ∀ x ∈ tickOf cfg e, w.1.symbol ≠ x.1.symbol := by
  obtain ⟨p, hprev, hp, hprice, hne⟩ := of_returnFrom_ne_zero h
  unfold linkedPrice at hprev
  rw [lastTick_append D hys] at hprev
  cases hlast : lastTick cfg D x.1.symbol with
  | none =>
    rw [hlast] at hprev
    cases hprev
  | some y =>
    rw [hlast] at hprev
    dsimp only at hprev
    split at hprev
    · next hsame =>
      cases hprev
      obtain ⟨pre, e, zs, rfl, he, hsym, hzs⟩ := lastTick_eq_some hlast
      refine ⟨pre, e, zs, rfl, ⟨y, he, x, hx, hsym, hsame.1, hsame.2, hp, hprice, hne⟩, ?_⟩
      intro z hz w hw y' hy'
      rw [he] at hy'
      cases hy'
      rw [hsym]
      rcases List.mem_append.mp hz with hz | hz
      · exact hzs z hz w hw
      · exact hys z hz w hw
    · cases hprev

theorem Unlinked.concat {symbol : String} (h : Unlinked cfg L n D symbol)
    (he : ∀ x ∈ tickOf cfg e, x.1.symbol ≠ symbol) : Unlinked cfg L n (D ++ [e]) symbol := by
  intro ys f hpre hn hys x hx hsym
  rw [List.append_assoc D] at hpre hn ⊢
  refine h ([e] ++ ys) f hpre hn (fun y hy => ?_) x hx hsym
  rcases List.mem_append.mp hy with hy | hy
  · rw [List.mem_singleton.mp hy]
    exact he
  · exact hys y hy

/-! ## What the memory knows -/

namespace Persister

/-- The memory has the last tick of the symbol. -/
structure Remembers (cfg : PersisterConfig ℝ) (m : Persister ℝ) (D : List Entry) (symbol : String) :
    Prop where
  lastPrice : m.lastPrice.get? symbol = (lastTick cfg D symbol).map fun x => RawTick.mid x.1
  lastBucket : m.lastBucket.get? symbol = (lastTick cfg D symbol).map Prod.snd
  provider : m.provider.get? symbol = (lastTick cfg D symbol).map fun x => x.1.provider

/-- After `D`, the memory remembers the last tick of a symbol or has forgotten one that does not
matter past the first `n` entries of the stream. -/
def Knows (cfg : PersisterConfig ℝ) (stream : List Entry) (n : Nat) (m : Persister ℝ)
    (D : List Entry) : Prop :=
  ∀ symbol, Remembers cfg m D symbol ∨
    m.lastPrice.get? symbol = none ∧ Unlinked cfg stream n D symbol

/-- What the memory would add to a row. -/
def returns (m : Persister ℝ) (k : BarKey) : ℝ × ℝ :=
  ((m.accs.get? k).map fun acc => (acc.sumRet, acc.sumRetSq)).getD 0

/-- The memory would add what `H` adds after `C`. -/
def Sums (cfg : PersisterConfig ℝ) (m : Persister ℝ) (C H : List Entry) : Prop :=
  ∀ k, m.returns k = tally (addedTo cfg k) C H

theorem Remembers.prevPrice {x : RawTick ℝ × Int} (h : Remembers cfg m D x.1.symbol) :
    m.prevPrice cfg.bucketSeconds x.1 x.2 = linkedPrice cfg D x :=
  prevPrice_of_last h.lastPrice h.lastBucket h.provider

/-- The memory computes the return the stream gives. -/
theorem Knows.returnFrom (h : Knows cfg L n m D) {x : RawTick ℝ × Int} (hx : tickOf cfg e = some x)
    (hpre : D ++ [e] <+: L) (hn : n ≤ D.length) :
    returnFrom (RawTick.mid x.1) (m.prevPrice cfg.bucketSeconds x.1 x.2) = returnAfter cfg D x := by
  rcases h x.1.symbol with hrem | ⟨hnone, hun⟩
  · rw [hrem.prevPrice]
    rfl
  · have hprev : m.prevPrice cfg.bucketSeconds x.1 x.2 = none := by
      unfold Persister.prevPrice
      rw [hnone, ite_self]
    have hzero := hun [] e (by rwa [List.append_nil]) (by rwa [List.append_nil])
      (fun _ hy => (nomatch hy)) x hx rfl
    rw [List.append_nil] at hzero
    rw [hprev, hzero, returnFrom_none]

theorem Knows.mono (h : Knows cfg L n m D) {n' : Nat} (hn : n ≤ n') : Knows cfg L n' m D :=
  fun symbol => (h symbol).imp_right fun ⟨hnone, hun⟩ =>
    ⟨hnone, fun ys f hpre hle => hun ys f hpre (hn.trans hle)⟩

/-- What a flush clears is not what the memory knows. -/
theorem Knows.clearBatch (h : Knows cfg L n m D) : Knows cfg L n m.clearBatch D := fun symbol =>
  (h symbol).imp_left fun hr => ⟨hr.lastPrice, hr.lastBucket, hr.provider⟩

/-- **Folding an entry in.** -/
theorem Knows.ingestEntry (h : Knows cfg L n m D) (hm : m.ingestEntry cfg e = some m')
    (unacked : List StreamId) : Knows cfg L n { m' with unacked } (D ++ [e]) := by
  cases hx : tickOf cfg e with
  | none =>
    rw [ingestEntry_of_tickOf_eq_none hx hm]
    intro symbol
    have hlast := lastTick_concat_of_none hx D symbol
    refine (h symbol).imp (fun hr => ⟨?_, ?_, ?_⟩) fun ⟨hnone, hun⟩ =>
      ⟨hnone, hun.concat fun x hx' => by rw [hx] at hx'; cases hx'⟩
    · rw [hlast]; exact hr.lastPrice
    · rw [hlast]; exact hr.lastBucket
    · rw [hlast]; exact hr.provider
  | some x =>
    intro symbol
    obtain ⟨hprice, hbucket, hprovider⟩ := get?_ingestEntry hx hm symbol
    have hlast := lastTick_concat_of_tick hx D symbol
    by_cases hs : symbol = x.1.symbol
    · subst hs
      rw [if_pos rfl] at hprice hbucket hprovider hlast
      refine .inl ⟨?_, ?_, ?_⟩ <;> rw [hlast]
      · exact hprice
      · exact hbucket
      · exact hprovider
    · rw [if_neg hs] at hprice hbucket hprovider hlast
      refine (h symbol).imp (fun hr => ⟨?_, ?_, ?_⟩) fun ⟨hnone, hun⟩ =>
        ⟨hprice.trans hnone, hun.concat fun y hy => by rw [hx] at hy; cases hy; exact Ne.symm hs⟩
      · rw [hlast]; exact hprice.trans hr.lastPrice
      · rw [hlast]; exact hbucket.trans hr.lastBucket
      · rw [hlast]; exact hprovider.trans hr.provider

theorem Knows.ingestAll (h : Knows cfg L n m D) (hm : m.ingestAll cfg es = some m') :
    Knows cfg L n m' (D ++ es) := by
  induction es generalizing m D with
  | nil =>
    cases hm
    rw [List.append_nil]
    exact h
  | cons e es ih =>
    unfold Persister.ingestAll at hm
    obtain ⟨m₁, hm₁, hrest⟩ := Option.bind_eq_some_iff.mp hm
    rw [List.append_cons]
    exact ih (h.ingestEntry hm₁ _) hrest

/-! ### What it would add -/

theorem returns_add {acc acc' : BucketAccumulator ℝ} {price : ℝ} {prev : Option ℝ}
    (h : acc.add price prev = some acc') :
    (acc'.sumRet, acc'.sumRetSq) =
      (acc.sumRet, acc.sumRetSq) + withSquare (Worker.returnFrom price prev) := by
  obtain ⟨r, hr, rfl⟩ := Option.map_eq_some_iff.mp h
  unfold Worker.returnFrom
  rw [hr]
  cases r <;> simp [withSquare]

/-- The accumulator a tick is added to, and its return. -/
theorem accs_ingestTick {bs : Int} {id : StreamId} {tick : RawTick ℝ} {bucket : Int}
    (hb : floorToBucket tick.ts bs = some bucket) (h : m.ingestTick bs id tick = some m') :
    ∃ acc acc', m.accFor bs (tick.symbol, bucket) tick = some acc ∧
      acc.add (RawTick.mid tick) (m.prevPrice bs tick bucket) = some acc' ∧
      m'.accs = m.accs.set (tick.symbol, bucket) acc' := by
  unfold ingestTick at h
  simp only [Option.bind_eq_bind, Option.bind_eq_some_iff, Option.pure_def, Option.some.injEq] at h
  obtain ⟨bucket', hb', acc, hacc, acc', hadd, rfl⟩ := h
  rw [hb] at hb'
  cases hb'
  rw [get?_pop] at hadd
  exact ⟨acc, acc', hacc, hadd, rfl⟩

/-- An accumulator that is started has no returns yet. -/
theorem returns_accFor {bs : Int} {key : BarKey} {tick : RawTick ℝ} {acc : BucketAccumulator ℝ}
    (h : m.accFor bs key tick = some acc) : (acc.sumRet, acc.sumRetSq) = m.returns key := by
  unfold accFor at h
  unfold returns
  split at h
  · next hacc =>
    cases h
    rw [hacc]
    rfl
  · next hacc =>
    obtain ⟨bucket, -, rfl⟩ := Option.map_eq_some_iff.mp h
    rw [hacc]
    rfl

/-- **Folding the next entry in.** -/
theorem Sums.ingestEntry (hs : Sums cfg m C H) (hk : Knows cfg L C.length m (C ++ H))
    (hpre : C ++ H ++ [e] <+: L) (hm : m.ingestEntry cfg e = some m') (unacked : List StreamId) :
    Sums cfg { m' with unacked } C (H ++ [e]) := by
  intro k
  show m'.returns k = _
  rw [tally_concat, ← hs k]
  cases hx : tickOf cfg e with
  | none =>
    rw [ingestEntry_of_tickOf_eq_none hx hm, addedTo, hx]
    exact (add_zero _).symm
  | some x =>
    have hret := hk.returnFrom hx hpre (by rw [List.length_append]; omega)
    rw [ingestEntry_of_tick hx] at hm
    obtain ⟨acc, acc', hacc, hadd, haccs⟩ := accs_ingestTick (tickOf_eq_some_iff.mp hx).2 hm
    have hsum := returns_add hadd
    rw [returns_accFor hacc, hret] at hsum
    rw [addedTo, hx]
    dsimp only
    unfold returns at hsum ⊢
    rw [haccs]
    by_cases hkey : (x.1.symbol, x.2) = k
    · rw [if_pos hkey, ← hkey, Dict.get?_set_self, Option.map_some, Option.getD_some]
      exact hsum
    · rw [if_neg hkey, Dict.get?_set_ne _ _ (Ne.symm hkey), add_zero]

theorem Sums.ingestAll (hs : Sums cfg m C H) (hk : Knows cfg L C.length m (C ++ H))
    (hpre : C ++ H ++ es <+: L) (hm : m.ingestAll cfg es = some m') : Sums cfg m' C (H ++ es) := by
  induction es generalizing m H with
  | nil =>
    cases hm
    rw [List.append_nil]
    exact hs
  | cons e es ih =>
    unfold Persister.ingestAll at hm
    obtain ⟨m₁, hm₁, hrest⟩ := Option.bind_eq_some_iff.mp hm
    rw [List.append_cons] at hpre ⊢
    have hpre₁ : C ++ H ++ [e] <+: L := (List.prefix_append _ es).trans hpre
    have hk₁ := hk.ingestEntry hm₁ (m₁.unacked ++ [e.1])
    rw [List.append_assoc C] at hk₁
    rw [List.append_assoc C H] at hpre
    exact ih (hs.ingestEntry hk hpre₁ hm₁ _) hk₁ hpre hrest

theorem Holds.sums (h : m.Holds cfg []) (C : List Entry) : Sums cfg m C [] := by
  intro k
  have hnone : m.accs.get? k = none := by
    cases hacc : m.accs.get? k with
    | none => rfl
    | some acc =>
      have hmarked : m.marked k = none := h.marked k
      rw [Persister.marked, hacc, Option.bind_some, Option.map_eq_none_iff, ← h.paired, hacc] at hmarked
      cases hmarked
  rw [returns, hnone]
  rfl

theorem returns_batch (h : m.Holds cfg H) (k : BarKey) :
    ((m.batch.find? (·.key = k)).map fun r => (r.sumRet, r.sumRetSq)).getD 0 = m.returns k := by
  rw [find?_batch h.keyed]
  unfold returns
  cases hacc : m.accs.get? k with
  | none => rfl
  | some acc =>
    cases hid : m.maxId.get? k with
    | none =>
      rw [(h.paired k).mpr hid] at hacc
      cases hacc
    | some id => rfl

end Persister

/-! ## What the rows have -/

/-- `sum_ret` and `sum_ret_sq` of a row, 0 where there is none. -/
def rowReturns (table : BarTable ℝ) (k : BarKey) : ℝ × ℝ :=
  ((table.get? k).map fun r => (r.sumRet, r.sumRetSq)).getD 0

/-- **A batch of the next entries** is added. -/
theorem returns_commit (hc : Covers cfg table C) (h : m.Holds cfg H)
    (hu : upsertBars cfg.instruments table m.batch = some table')
    (hlt : ∀ x ∈ C, ∀ y ∈ H, x.1 < y.1) (k : BarKey) :
    rowReturns table' k = rowReturns table k + m.returns k := by
  unfold upsertBars at hu
  split at hu
  · cases hu
    rw [← Persister.returns_batch h k]
    unfold rowReturns
    rw [get?_foldl_upsertRow table (Persister.nodup_batch h.keyed)]
    cases hfind : m.batch.find? (·.key = k) with
    | none => exact (add_zero _).symm
    | some r =>
      cases hold : table.get? k with
      | none => exact (zero_add _).symm
      | some old =>
        have hmerge : old.lastStreamId < r.lastStreamId := by
          have hC := hc.marked k
          have hH := h.find?_batch k
          rw [hold] at hC
          rw [hfind] at hH
          obtain ⟨x, hx, hxo⟩ := mark_mem hC.symm
          obtain ⟨y, hy, hyr⟩ := mark_mem hH.symm
          obtain ⟨a, ha, hax, -⟩ := mem_pricesOf_iff.mp hx
          obtain ⟨b, hb, hby, -⟩ := mem_pricesOf_iff.mp hy
          have hab := hlt a ha b hb
          rw [hax, hxo, hby, hyr] at hab
          exact hab
        simp [mergeRow, hmerge]
  · cases hu

/-- **A batch of entries the table covers** adds nothing. -/
theorem returns_replay (hc : Covers cfg table C) (h : m.Holds cfg H)
    (hu : upsertBars cfg.instruments table m.batch = some table')
    (hasc : C.Pairwise fun x y => x.1 < y.1) (hsub : ∀ e ∈ H, e ∈ C) (k : BarKey) :
    rowReturns table' k = rowReturns table k := by
  have hmarked := (covers_replay hc h hu hasc hsub).marked k
  rw [← hc.marked k] at hmarked
  unfold upsertBars at hu
  split at hu
  · cases hu
    unfold rowReturns
    rw [get?_foldl_upsertRow table (Persister.nodup_batch h.keyed)] at hmarked ⊢
    cases hfind : m.batch.find? (·.key = k) with
    | none => rfl
    | some r =>
      rw [hfind] at hmarked
      cases hold : table.get? k with
      | none =>
        rw [hold] at hmarked
        cases hmarked
      | some old =>
        rw [hold] at hmarked
        have hmark : (mergeRow old r).lastStreamId = old.lastStreamId :=
          congrArg Marked.mark (Option.some.inj hmarked)
        have hstale : ¬ old.lastStreamId < r.lastStreamId := fun hlt => by
          rw [mergeRow, if_pos hlt] at hmark
          exact absurd hmark hlt.ne'
        simp [mergeRow, hstale]
  · cases hu

end

end FxTracker.Worker
