import Mathlib.Tactic
import Mathlib.Logic.Relation
import Binarius.Lib.Runs
import Binarius.Db.Settlements

/-!
# Db.ClosedDeliveries — closed trades delivered in any order, beside the reconciler
(packages/db/src/trade-intent-ops.ts: `settleClosedTrades`, `concludeReconciled`)

Any number of calls go through their trades, their statements and the reconciler's conclusions in any order.

* `SettleCall.read_cases`, `SettleCall.settle_cases`, `SettleCall.check_cases`: what each statement answers.
* `Since`: what the writes of a run leave of the database it started from.
* `Settlements.Inv`: the answers given are true and stay true, and each settlement has its cause.
  `Inv.act` is the step, `inv_run` the run.
-/

namespace Binarius

open Lib Relation

/-! ## The statements of a call -/

section Statements

variable {now : UnixMs} {db : Db} {d : SettleCall}

theorem classify_unlinked {account : AccountId} {tradeId : String}
    (h : ∀ id, ¬ db.LinkedTo (account, tradeId) id) :
    classify tradeId (db.tradeLink account tradeId) = .inl (.notOurs tradeId) := by
  unfold Db.tradeLink
  cases hfind : db.brokerTrades.find? (account, tradeId) with
  | none => rfl
  | some l =>
    cases hid : l.intentId with
    | none => simp [classify, hid]
    | some id => exact (h id ⟨l, hfind, hid⟩).elim

theorem classify_linked (hl : LinksOk db) {account : AccountId} {tradeId : String} {id : IntentId}
    (h : db.LinkedTo (account, tradeId) id) :
    db.Settled id ∧ classify tradeId (db.tradeLink account tradeId) = .inl (.alreadySettled tradeId id) ∨
      (∃ row, db.find id = some row ∧ row.status = .accepted) ∧
        classify tradeId (db.tradeLink account tradeId) = .inr id := by
  obtain ⟨l, hfind, hid⟩ := h
  obtain ⟨row, hrow, hcase⟩ := hl.status _ l id hfind hid
  have hlink : db.tradeLink account tradeId =
      some { tradeStatus := l.status, intentId := some id, intentStatus := some row.status } := by
    unfold Db.tradeLink
    rw [hfind, Option.map_some, hid, Option.bind_some, hrow]
    rfl
  rw [hlink]
  rcases hcase with ⟨haccepted, hopen⟩ | ⟨hsettled, hclosed⟩
  · right
    refine ⟨⟨row, hrow, haccepted⟩, ?_⟩
    simp [classify, haccepted, hopen]
  · left
    refine ⟨⟨row, hrow, hsettled⟩, ?_⟩
    simp [classify, hclosed]

def ClosedTradeOutcome.brokerTradeId : ClosedTradeOutcome → String
  | settled tradeId _ => tradeId
  | alreadySettled tradeId _ => tradeId
  | notOurs tradeId => tradeId
  | intentNotAccepted tradeId _ _ => tradeId

/-- What an answer says of the database. -/
def ClosedTradeOutcome.Holds (db : Db) (account : AccountId) : ClosedTradeOutcome → Prop
  | settled tradeId id => db.LinkedTo (account, tradeId) id ∧ db.Settled id
  | alreadySettled tradeId id => db.LinkedTo (account, tradeId) id ∧ db.Settled id
  | notOurs _ => True
  | intentNotAccepted _ _ _ => False

/-- Where a call stands is true of the database. -/
def SettlePhase.Holds (db : Db) (account : AccountId) (trades : List ClosedTrade) : SettlePhase → Prop
  | reading => True
  | settling id => ∃ trade rest, trades = trade :: rest ∧ db.LinkedTo (account, trade.trade.id) id
  | checking id => ∃ trade rest, trades = trade :: rest ∧ db.LinkedTo (account, trade.trade.id) id ∧
      db.Settled id
  | failed => True

structure SettleCall.Ok (db : Db) (d : SettleCall) : Prop where
  outcomes : ∀ o ∈ d.outcomes, o.Holds db d.brokerAccountId
  phase : d.phase.Holds db d.brokerAccountId d.trades

theorem SettleCall.Ok.answer (h : d.Ok db) {o : ClosedTradeOutcome} (ho : o.Holds db d.brokerAccountId) :
    (d.answer o).Ok db := by
  refine ⟨fun o' ho' => ?_, trivial⟩
  rcases List.mem_append.mp ho' with hold | hnew
  · exact h.outcomes o' hold
  · rw [List.mem_singleton.mp hnew]
    exact ho

/-- **The first read**: an answer, or an intent to settle. -/
theorem SettleCall.read_cases (hl : LinksOk db) :
    d.read db = d ∨ ∃ trade rest, d.trades = trade :: rest ∧
      (d.read db = d.answer (.notOurs trade.trade.id) ∧
          (∀ id, ¬ db.LinkedTo (d.brokerAccountId, trade.trade.id) id) ∨
        ∃ id, db.LinkedTo (d.brokerAccountId, trade.trade.id) id ∧
          (d.read db = d.answer (.alreadySettled trade.trade.id id) ∧ db.Settled id ∨
            d.read db = { d with phase := .settling id })) := by
  obtain ⟨account, trades, phase, outcomes⟩ := d
  cases phase with
  | settling id => exact .inl rfl
  | checking id => exact .inl rfl
  | failed => exact .inl rfl
  | reading =>
    cases trades with
    | nil => exact .inl rfl
    | cons trade rest =>
      refine .inr ⟨trade, rest, rfl, ?_⟩
      unfold SettleCall.read
      simp only
      by_cases hlinked : ∃ id, db.LinkedTo (account, trade.trade.id) id
      · obtain ⟨id, hid⟩ := hlinked
        refine .inr ⟨id, hid, ?_⟩
        rcases classify_linked hl hid with ⟨hsettled, hclass⟩ | ⟨-, hclass⟩
        · rw [hclass]
          exact .inl ⟨rfl, hsettled⟩
        · rw [hclass]
          exact .inr rfl
      · have hnone := not_exists.mp hlinked
        rw [classify_unlinked hnone]
        exact .inl ⟨rfl, hnone⟩

/-- **The settlement's transaction**: it settles the intent, or another has. -/
theorem SettleCall.settle_cases (hb : db.books.Inv) (hl : LinksOk db) (hd : d.Ok db) :
    d.settle now db = (db, d) ∨ ∃ id trade rest, d.phase = .settling id ∧ d.trades = trade :: rest ∧
      db.LinkedTo (d.brokerAccountId, trade.trade.id) id ∧
      ((∃ db', d.settle now db = (db', d.answer (.settled trade.trade.id id)) ∧ TradeStep db db' ∧
          SettlesWith db db' id (d.brokerAccountId, trade.trade.id)) ∨
        d.settle now db = (db, { d with phase := .checking id }) ∧ db.Settled id) := by
  obtain ⟨account, trades, phase, outcomes⟩ := d
  cases phase with
  | reading => exact .inl rfl
  | checking id => exact .inl rfl
  | failed => exact .inl rfl
  | settling id =>
    obtain ⟨trade, rest, rfl, hlinked⟩ : ∃ trade rest, trades = trade :: rest ∧ db.LinkedTo
      (account, trade.trade.id) id :=
      hd.phase
    refine .inr ⟨id, trade, rest, rfl, rfl, hlinked, ?_⟩
    unfold SettleCall.settle
    simp only
    obtain ⟨l, hfind, hid⟩ := hlinked
    obtain ⟨row, hrow, hcase⟩ := hl.status _ l id hfind hid
    rcases hcase with ⟨haccepted, -⟩ | ⟨hsettled, -⟩
    · left
      obtain ⟨db', hrun, hstep, hclosed, hintents, hconsumes⟩ := @settleIntent_linked now db hb hl
        { id, fromStatus := .accepted, trade } row _ hrow haccepted rfl
          (fun v hv => by cases hv) ⟨l, hfind, hid⟩ rfl
      rw [hrun]
      have hrid : row.id = id := Db.find_id hrow
      have hafter := @find_put_intent db db' row (settledRow now row)
        (by rw [hrid]; exact hrow) rfl hintents id
      rw [if_pos hrid] at hafter
      rw [hfind] at hclosed
      refine ⟨db', rfl, hstep, ⟨row, hrow, ?_, hconsumes⟩, ⟨_, hafter, rfl⟩, ⟨_, hclosed, hid, rfl⟩⟩
      rw [haccepted]
      simp
    · right
      rw [@settleIntent_moved now db { id, fromStatus := .accepted, trade } rfl (fun row' hrow' => ?_)]
      · exact ⟨rfl, row, hrow, hsettled⟩
      · rw [← Option.some.inj (hrow.symm.trans hrow'), hsettled]
        simp

/-- **The second read**: another call settled the intent. -/
theorem SettleCall.check_cases (hl : LinksOk db) (hd : d.Ok db) :
    d.check db = d ∨ ∃ id trade rest, d.trades = trade :: rest ∧
      d.check db = d.answer (.alreadySettled trade.trade.id id) ∧
      db.LinkedTo (d.brokerAccountId, trade.trade.id) id ∧ db.Settled id := by
  obtain ⟨account, trades, phase, outcomes⟩ := d
  cases phase with
  | reading => exact .inl rfl
  | settling id => exact .inl rfl
  | failed => exact .inl rfl
  | checking id =>
    obtain ⟨trade, rest, rfl, hlinked, hsettled⟩ : ∃ trade rest, trades = trade :: rest ∧
        db.LinkedTo (account, trade.trade.id) id ∧ db.Settled id := hd.phase
    refine .inr ⟨id, trade, rest, rfl, ?_, hlinked, hsettled⟩
    unfold SettleCall.check
    rcases classify_linked hl hlinked with ⟨-, hclass⟩ | ⟨⟨row, hrow, haccepted⟩, -⟩
    · simp only [hclass]
    · obtain ⟨row', hrow', hstatus⟩ := hsettled
      rw [← Option.some.inj (hrow.symm.trans hrow'), haccepted] at hstatus
      exact nomatch hstatus

end Statements

/-! ## What the writes leave -/

/-- How far an intent has come: the same, accepted, settled, or both. -/
inductive Progress (r₀ : TradeIntentRow) : TradeIntentRow → Prop
  | same : Progress r₀ r₀
  | accepted (now : UnixMs) (h : r₀.status = .reconciling) : Progress r₀ (acceptedRow now r₀.transport r₀)
  | settled (now : UnixMs) (h : r₀.status = .accepted) : Progress r₀ (settledRow now r₀)
  | both (now later : UnixMs) (h : r₀.status = .reconciling) :
      Progress r₀ (settledRow later (acceptedRow now r₀.transport r₀))

/-- An intent but for the time of its last change. -/
def TradeIntentRow.untimed (r : TradeIntentRow) : TradeIntentRow := { r with updatedAt := 0 }

/-- **The status tells how far an intent has come.** -/
theorem Progress.untimed_eq {r₀ r r' : TradeIntentRow} (h : Progress r₀ r) (h' : Progress r₀ r')
    (hstatus : r.status = r'.status) : r.untimed = r'.untimed := by
  cases h with
  | same =>
    cases h' with
    | same => rfl
    | accepted now h => rw [h] at hstatus; exact nomatch hstatus
    | settled now h => rw [h] at hstatus; exact nomatch hstatus
    | both now later h => rw [h] at hstatus; exact nomatch hstatus
  | accepted now h =>
    cases h' with
    | same => rw [h] at hstatus; exact nomatch hstatus
    | accepted now' h => rfl
    | settled now' h => exact nomatch hstatus
    | both now' later h => exact nomatch hstatus
  | settled now h =>
    cases h' with
    | same => rw [h] at hstatus; exact nomatch hstatus
    | accepted now' h => exact nomatch hstatus
    | settled now' h => rfl
    | both now' later h' => rw [h] at h'; exact nomatch h'
  | both now later h =>
    cases h' with
    | same => rw [h] at hstatus; exact nomatch hstatus
    | accepted now' h => exact nomatch hstatus
    | settled now' h' => rw [h] at h'; exact nomatch h'
    | both now' later' h => rfl

/-- What the writes of a run leave of the database it started from. -/
structure Since (db₀ db : Db) : Prop where
  progress : ∀ id r, db.find id = some r → ∃ r₀, db₀.find id = some r₀ ∧ Progress r₀ r
  kept : ∀ id r₀, db₀.find id = some r₀ → ∃ r, db.find id = some r
  linkedTo : ∀ k id, db₀.LinkedTo k id → db.LinkedTo k id
  of_linkedTo : ∀ k id, db.LinkedTo k id →
    db₀.LinkedTo k id ∨ ∃ r₀, db₀.find id = some r₀ ∧ r₀.status = .reconciling
  keys : db.tradeIntents.rows.map TradeIntentRow.id = db₀.tradeIntents.rows.map TradeIntentRow.id
  spare : ∀ userId, db.spare userId = db₀.spare userId

namespace Since

variable {db₀ db db' : Db}

theorem refl (db : Db) : Since db db :=
  ⟨fun _ r h => ⟨r, h, .same⟩, fun _ r h => ⟨r, h⟩, fun _ _ h => h, fun _ _ h => .inl h, rfl, fun _ => rfl⟩

theorem step (h : Since db₀ db) (hstep : TradeStep db db') : Since db₀ db' := by
  obtain ⟨row, row', l, hw⟩ := hstep.write
  obtain ⟨r₀, hr₀, hprogress⟩ := h.progress row.id row hw.there
  -- an intent under reconciliation is as it was at the start
  have hsame : ∀ id r, db.find id = some r → r.status = .reconciling →
      ∃ r₀, db₀.find id = some r₀ ∧ r₀.status = .reconciling := by
    intro id r hr hstatus
    obtain ⟨r₀, hr₀, hprogress⟩ := h.progress id r hr
    cases hprogress with
    | same => exact ⟨r, hr₀, hstatus⟩
    | accepted now h => exact ⟨r₀, hr₀, h⟩
    | settled now h => exact nomatch hstatus
    | both now later h => exact ⟨r₀, hr₀, h⟩
  refine ⟨fun id r hr => ?_, fun id r hr => ?_, fun k id hk => hstep.linkedTo (h.linkedTo k id hk),
    fun k id hk => ?_, hstep.keys.trans h.keys, fun userId => (hstep.spare userId).trans (h.spare userId)⟩
  · rw [hw.find id] at hr
    split_ifs at hr with hid
    · subst hid
      obtain rfl := Option.some.inj hr
      refine ⟨r₀, hr₀, ?_⟩
      rcases hw.moves with ⟨hstatus, ⟨now, rfl⟩, -⟩ | ⟨hstatus, ⟨now, rfl⟩, -⟩
      · cases hprogress with
        | same => exact .accepted now hstatus
        | accepted now h => exact nomatch hstatus
        | settled now h => exact nomatch hstatus
        | both now later h => exact nomatch hstatus
      · cases hprogress with
        | same => exact .settled now hstatus
        | accepted first h => exact .both first now h
        | settled now h => exact nomatch hstatus
        | both now later h => exact nomatch hstatus
    · exact h.progress id r hr
  · obtain ⟨r', hr'⟩ := h.kept id r hr
    rw [hw.find id]
    split_ifs with hid
    · exact ⟨row', rfl⟩
    · exact ⟨r', hr'⟩
  · rcases hstep.of_linkedTo hk with hlinked | ⟨r, hr, hstatus⟩
    · exact h.of_linkedTo k id hlinked
    · exact .inr (hsame id r hr hstatus)

end Since

section Keeps

variable {db db' : Db}

/-- A settled intent is final. -/
theorem TradeStep.settled (h : TradeStep db db') {id : IntentId} (hs : db.Settled id) : db'.Settled id := by
  obtain ⟨row, row', l, hw⟩ := h.write
  obtain ⟨r, hr, hstatus⟩ := hs
  rw [Db.Settled, hw.find id]
  split_ifs with hid
  · rw [← hid, hw.there] at hr
    rw [← Option.some.inj hr] at hstatus
    rcases hw.moves with ⟨hmoves, -⟩ | ⟨hmoves, -⟩
    · rw [hstatus] at hmoves
      exact nomatch hmoves
    · rw [hstatus] at hmoves
      exact nomatch hmoves
  · exact ⟨r, hr, hstatus⟩

theorem ClosedTradeOutcome.Holds.step {account : AccountId} {o : ClosedTradeOutcome}
    (ho : o.Holds db account)
    (h : TradeStep db db') : o.Holds db' account := by
  cases o with
  | settled tradeId id => exact ⟨h.linkedTo ho.1, h.settled ho.2⟩
  | alreadySettled tradeId id => exact ⟨h.linkedTo ho.1, h.settled ho.2⟩
  | notOurs tradeId => trivial
  | intentNotAccepted tradeId id status => exact ho.elim

theorem SettleCall.Ok.step {d : SettleCall} (hd : d.Ok db) (h : TradeStep db db') : d.Ok db' := by
  refine ⟨fun o ho => (hd.outcomes o ho).step h, ?_⟩
  have hphase := hd.phase
  obtain ⟨account, trades, phase, outcomes⟩ := d
  cases phase with
  | reading => trivial
  | failed => trivial
  | settling id =>
    obtain ⟨trade, rest, htrades, hlinked⟩ := hphase
    exact ⟨trade, rest, htrades, h.linkedTo hlinked⟩
  | checking id =>
    obtain ⟨trade, rest, htrades, hlinked, hsettled⟩ := hphase
    exact ⟨trade, rest, htrades, h.linkedTo hlinked, h.settled hsettled⟩

/-- **What a sequence of writes keeps.** -/
structure TradesKept (db₀ db db' : Db) : Prop where
  links : LinksOk db'
  since : Since db₀ db'
  calls : ∀ d : SettleCall, d.Ok db → d.Ok db'
  linkedTo : ∀ k id, db.LinkedTo k id → db'.LinkedTo k id
  settled : ∀ id, db.Settled id → db'.Settled id

theorem kept_of_steps {db₀ : Db} (hl : LinksOk db) (hs : Since db₀ db) (h : ReflTransGen TradeStep db db') :
    TradesKept db₀ db db' := by
  induction h with
  | refl => exact ⟨hl, hs, fun _ h => h, fun _ _ h => h, fun _ h => h⟩
  | tail _ hstep ih =>
    exact ⟨ih.links.step hstep, ih.since.step hstep, fun d hd => (ih.calls d hd).step hstep,
      fun k id hk => hstep.linkedTo (ih.linkedTo k id hk), fun id hid => hstep.settled (ih.settled id hid)⟩

/-- The settlement's write is of the intent it settles, which was accepted. -/
theorem settles_find (hstep : TradeStep db db') {id : IntentId} {k : AccountId × String}
    (hs : SettlesWith db db' id k) :
    (∀ i, i ≠ id → db'.find i = db.find i) ∧ ∃ row, db.find id = some row ∧ row.status = .accepted := by
  obtain ⟨row, row', l, hw⟩ := hstep.write
  obtain ⟨old, hold, hnot, -⟩ := hs.before
  obtain ⟨new, hnew, hsettled⟩ := hs.after
  have hid : row.id = id := by
    by_contra hne
    rw [hw.find id, if_neg hne, hold] at hnew
    rw [← Option.some.inj hnew] at hsettled
    exact hnot hsettled
  refine ⟨fun i hi => ?_, row, by rw [← hid]; exact hw.there, ?_⟩
  · rw [hw.find i, if_neg]
    rw [hid]
    exact Ne.symm hi
  · rcases hw.moves with ⟨-, ⟨now, rfl⟩, -⟩ | ⟨haccepted, -⟩
    · rw [hw.find id, if_pos hid] at hnew
      rw [← Option.some.inj hnew] at hsettled
      exact nomatch hsettled
    · exact haccepted

end Keeps

/-! ## Runs -/

namespace Settlements

/-- The database, the calls of `settleClosedTrades`, and the conclusions that accepted their trade. -/
structure World where
  db : Db
  deliveries : ℕ → SettleCall
  conclusions : List (IntentId × BrokerTrade)

inductive Action
  | read (j : ℕ)
  | settle (j : ℕ) (now : UnixMs)
  | check (j : ℕ)
  | fail (j : ℕ)
  | conclude (now : UnixMs) (id : IntentId) (expectedVersion : ℕ) (trade : BrokerTrade)

def World.put (w : World) (j : ℕ) (d : SettleCall) : World :=
  { w with deliveries := Function.update w.deliveries j d }

def act (w : World) : Action → World
  | .read j => w.put j ((w.deliveries j).read w.db)
  | .settle j now =>
    let (db, d) := (w.deliveries j).settle now w.db
    { w.put j d with db }
  | .check j => w.put j ((w.deliveries j).check w.db)
  | .fail j => w.put j (w.deliveries j).fail
  | .conclude now id expectedVersion trade =>
    match (concludeReconciled now id expectedVersion trade).run w.db with
    | .ok (some _, db') => { w with db := db', conclusions := w.conclusions ++ [(id, trade)] }
    | .ok (none, db') => { w with db := db' }
    | .error _ => w

/-- No call has begun: sound books, and links as the writers of broker trades leave them. -/
structure Starts (w : World) : Prop where
  books : w.db.books.Inv
  links : LinksOk w.db
  calls : ∀ j, (w.deliveries j).phase = .reading ∧ (w.deliveries j).outcomes = []
  conclusions : w.conclusions = []

/-- **The answers are true**, and every acceptance and settlement since the start has its cause. -/
structure Inv (w₀ w : World) : Prop where
  books : w.db.books.Inv
  links : LinksOk w.db
  since : Since w₀.db w.db
  calls : ∀ j, (w.deliveries j).Ok w.db
  concluded : ∀ c ∈ w.conclusions, ∃ r₀, w₀.db.find c.1 = some r₀ ∧ r₀.status = .reconciling ∧
    w.db.LinkedTo (r₀.brokerAccountId, c.2.id) c.1 ∧ (c.2.asClosed? ≠ none → w.db.Settled c.1)
  moved : ∀ id r₀ r, w₀.db.find id = some r₀ → r₀.status = .reconciling → w.db.find id = some r →
    r.status ≠ .reconciling → ∃ trade, (id, trade) ∈ w.conclusions
  cause : ∀ id r₀, w₀.db.find id = some r₀ → r₀.status ≠ .settled → w.db.Settled id →
    (∃ trade, (id, trade) ∈ w.conclusions ∧ trade.asClosed? ≠ none) ∨
      ∃ j tradeId, .settled tradeId id ∈ (w.deliveries j).outcomes

variable {w₀ w : World}

theorem Starts.inv (h : Starts w) : Inv w w where
  books := h.books
  links := h.links
  since := .refl _
  calls := fun j => by
    obtain ⟨hphase, houtcomes⟩ := h.calls j
    refine ⟨fun o ho => ?_, ?_⟩
    · rw [houtcomes] at ho
      exact absurd ho List.not_mem_nil
    · rw [hphase]
      trivial
  concluded := fun c hc => by
    rw [h.conclusions] at hc
    exact absurd hc List.not_mem_nil
  moved := fun id r₀ r hr₀ hstatus hr hmoved => by
    rw [← Option.some.inj (hr₀.symm.trans hr)] at hmoved
    exact (hmoved hstatus).elim
  cause := fun id r₀ hr₀ hstatus hsettled => by
    obtain ⟨r, hr, hr'⟩ := hsettled
    rw [← Option.some.inj (hr₀.symm.trans hr)] at hr'
    exact (hstatus hr').elim

theorem put_deliveries (j i : ℕ) (d : SettleCall) :
    (w.put j d).deliveries i = if i = j then d else w.deliveries i := by
  show Function.update w.deliveries j d i = _
  rw [Function.update_apply]

/-- The answers of a call grow. -/
theorem mem_put {j i : ℕ} {d : SettleCall} {o : ClosedTradeOutcome}
    (hgrow : ∀ o ∈ (w.deliveries j).outcomes, o ∈ d.outcomes) (ho : o ∈ (w.deliveries i).outcomes) :
    o ∈ ((w.put j d).deliveries i).outcomes := by
  rw [put_deliveries]
  split_ifs with hi
  · subst hi
    exact hgrow o ho
  · exact ho

/-- A statement that writes nothing. -/
theorem Inv.put (h : Inv w₀ w) {j : ℕ} {d : SettleCall} (hd : d.Ok w.db)
    (hgrow : ∀ o ∈ (w.deliveries j).outcomes, o ∈ d.outcomes) : Inv w₀ (w.put j d) where
  books := h.books
  links := h.links
  since := h.since
  calls := fun i => by
    rw [put_deliveries]
    split_ifs
    · exact hd
    · exact h.calls i
  concluded := h.concluded
  moved := h.moved
  cause := fun id r₀ hr₀ hstatus hsettled => by
    rcases h.cause id r₀ hr₀ hstatus hsettled with hconcluded | ⟨i, tradeId, ho⟩
    · exact .inl hconcluded
    · exact .inr ⟨i, tradeId, mem_put hgrow ho⟩

theorem mem_answer {d : SettleCall} {o o' : ClosedTradeOutcome} (h : o' ∈ d.outcomes) : o' ∈
    (d.answer o).outcomes :=
  List.mem_append_left _ h

theorem Inv.read (h : Inv w₀ w) (j : ℕ) : Inv w₀ (act w (.read j)) := by
  show Inv w₀ (w.put j ((w.deliveries j).read w.db))
  rcases (w.deliveries j).read_cases h.links with hsame | ⟨trade, rest, htrades, hcase⟩
  · rw [hsame]
    exact h.put (h.calls j) (fun _ ho => ho)
  · rcases hcase with ⟨hanswer, -⟩ | ⟨id, hlinked, ⟨hanswer, hsettled⟩ | hsettling⟩
    · rw [hanswer]
      exact h.put ((h.calls j).answer trivial) (fun _ ho => mem_answer ho)
    · rw [hanswer]
      exact h.put ((h.calls j).answer ⟨hlinked, hsettled⟩) (fun _ ho => mem_answer ho)
    · rw [hsettling]
      exact h.put ⟨(h.calls j).outcomes, trade, rest, htrades, hlinked⟩ (fun _ ho => ho)

theorem Inv.check (h : Inv w₀ w) (j : ℕ) : Inv w₀ (act w (.check j)) := by
  show Inv w₀ (w.put j ((w.deliveries j).check w.db))
  rcases (w.deliveries j).check_cases h.links
    (h.calls j) with hsame | ⟨id, trade, rest, -, hanswer, hlinked, hsettled⟩
  · rw [hsame]
    exact h.put (h.calls j) (fun _ ho => ho)
  · rw [hanswer]
    exact h.put ((h.calls j).answer ⟨hlinked, hsettled⟩) (fun _ ho => mem_answer ho)

/-- A statement that writes: of one intent, whose move has its cause. -/
theorem Inv.write (h : Inv w₀ w) {w' : World} (id : IntentId) (more : List (IntentId × BrokerTrade))
    (hb : w'.db.books.Inv) (hsteps : ReflTransGen TradeStep w.db w'.db)
    (hothers : ∀ i, i ≠ id → w'.db.find i = w.db.find i)
    (hcalls : ∀ j, (∀ d : SettleCall, d.Ok w.db → d.Ok w'.db) → (w'.deliveries j).Ok w'.db)
    (hgrow : ∀ j, ∀ o ∈ (w.deliveries j).outcomes, o ∈ (w'.deliveries j).outcomes)
    (hconclusions : w'.conclusions = w.conclusions ++ more)
    (hmore : ∀ c ∈ more, ∃ r₀, w₀.db.find c.1 = some r₀ ∧ r₀.status = .reconciling ∧
      w'.db.LinkedTo (r₀.brokerAccountId, c.2.id) c.1 ∧ (c.2.asClosed? ≠ none → w'.db.Settled c.1))
    (hmoved : ∀ r₀, w₀.db.find id = some r₀ → r₀.status = .reconciling →
      ∃ trade, (id, trade) ∈ w'.conclusions)
    (hcause : w'.db.Settled id → (∃ trade, (id, trade) ∈ w'.conclusions ∧ trade.asClosed? ≠ none) ∨
      ∃ j tradeId, .settled tradeId id ∈ (w'.deliveries j).outcomes) : Inv w₀ w' := by
  have hkept := kept_of_steps h.links h.since hsteps
  have hold : ∀ c ∈ w.conclusions, c ∈ w'.conclusions := by
    intro c hc
    rw [hconclusions]
    exact List.mem_append_left _ hc
  refine ⟨hb, hkept.links, hkept.since, fun j => hcalls j hkept.calls, fun c hc => ?_,
    fun i r₀ r hr₀ hstatus hr hne => ?_,
    fun i r₀ hr₀ hstatus hsettled => ?_⟩
  · rw [hconclusions] at hc
    rcases List.mem_append.mp hc with hbefore | hnew
    · obtain ⟨r₀, hr₀, hstatus, hlinked, hclosed⟩ := h.concluded c hbefore
      exact ⟨r₀, hr₀, hstatus, hkept.linkedTo _ _ hlinked, fun hc => hkept.settled _ (hclosed hc)⟩
    · exact hmore c hnew
  · by_cases hi : i = id
    · subst hi
      exact hmoved r₀ hr₀ hstatus
    · rw [hothers i hi] at hr
      obtain ⟨trade, htrade⟩ := h.moved i r₀ r hr₀ hstatus hr hne
      exact ⟨trade, hold _ htrade⟩
  · by_cases hi : i = id
    · subst hi
      exact hcause hsettled
    · obtain ⟨r, hr, hrs⟩ := hsettled
      rw [hothers i hi] at hr
      rcases h.cause i r₀ hr₀ hstatus ⟨r, hr, hrs⟩ with ⟨trade, htrade, hclosed⟩ | ⟨j, tradeId, ho⟩
      · exact .inl ⟨trade, hold _ htrade, hclosed⟩
      · exact .inr ⟨j, tradeId, hgrow j _ ho⟩

theorem settle_books (now : UnixMs) {db : Db} (d : SettleCall) (hb : db.books.Inv) :
    (d.settle now db).1.books.Inv := by
  unfold SettleCall.settle
  split
  · split
    · rename_i hrun
      exact hb.steps (step_settleIntent hrun)
    · rename_i hrun
      exact hb.steps (step_settleIntent hrun)
    · exact hb
  · exact hb

theorem Inv.settle (h : Inv w₀ w) (j : ℕ) (now : UnixMs) : Inv w₀ (act w (.settle j now)) := by
  have hbooks := settle_books now (w.deliveries j) h.books
  rcases @SettleCall.settle_cases now w.db (w.deliveries j) h.books h.links (h.calls j) with
    hsame | ⟨id, trade, rest, -, htrades, hlinked, ⟨db', hanswer, hstep, hsettles⟩ | ⟨hmoved, hsettled⟩⟩
  · have hw : act w (.settle j now) = w.put j (w.deliveries j) := by
      show { w.put j ((w.deliveries j).settle now w.db).2 with db :=
        ((w.deliveries j).settle now w.db).1 } = _
      rw [hsame]
      rfl
    rw [hw]
    exact h.put (h.calls j) (fun _ ho => ho)
  · have hw : act w (.settle j now) =
        { w.put j ((w.deliveries j).answer (.settled trade.trade.id id)) with db := db' } := by
      show { w.put j ((w.deliveries j).settle now w.db).2 with db :=
        ((w.deliveries j).settle now w.db).1 } = _
      rw [hanswer]
    rw [hanswer] at hbooks
    obtain ⟨hothers, row, hrow, haccepted⟩ := settles_find hstep hsettles
    have hgrow : ∀ i, ∀ o ∈ (w.deliveries i).outcomes,
        o ∈ ((w.put j ((w.deliveries j).answer (.settled trade.trade.id id))).deliveries i).outcomes :=
      fun i o ho => mem_put (fun _ ho => mem_answer ho) ho
    rw [hw]
    refine h.write id [] hbooks (.single hstep) hothers (fun i hkeep => ?_) hgrow (List.append_nil _).symm
      (fun c hc => absurd hc List.not_mem_nil) (fun r₀ hr₀ hstatus => ?_)
        (fun _ => .inr ⟨j, trade.trade.id, ?_⟩)
    · show ((w.put j _).deliveries i).Ok db'
      rw [put_deliveries]
      split_ifs
      · exact (hkeep _ (h.calls j)).answer ⟨hstep.linkedTo hlinked, hsettles.after⟩
      · exact hkeep _ (h.calls i)
    · exact h.moved id r₀ row hr₀ hstatus hrow (by rw [haccepted]; simp)
    · show _ ∈ ((w.put j _).deliveries j).outcomes
      rw [put_deliveries, if_pos rfl]
      exact List.mem_append_right _ (List.mem_singleton.mpr rfl)
  · have hw : act w (.settle j now) = w.put j { w.deliveries j with phase := .checking id } := by
      show { w.put j ((w.deliveries j).settle now w.db).2 with db :=
        ((w.deliveries j).settle now w.db).1 } = _
      rw [hmoved]
      rfl
    rw [hw]
    exact h.put ⟨(h.calls j).outcomes, trade, rest, htrades, hlinked, hsettled⟩ (fun _ ho => ho)

theorem Inv.conclude (h : Inv w₀ w) (now : UnixMs) (id : IntentId) (v : ℕ) (trade : BrokerTrade) :
    Inv w₀ (act w (.conclude now id v trade)) := by
  unfold act
  simp only
  split
  · rename_i r db' hrun
    obtain ⟨row, db₁, hrow, hstatus, haccept, ⟨accepted, haccepted, hacceptedStatus⟩, hlinked, hothers,
      hcases⟩ :=
      concludeReconciled_writes h.books h.links hrun
    have hsteps : ReflTransGen TradeStep w.db db' := by
      rcases hcases with ⟨-, rfl⟩ | ⟨-, hsettle, -⟩
      · exact .single haccept
      · exact (ReflTransGen.single haccept).tail hsettle
    have hlinked' : db'.LinkedTo (row.brokerAccountId, trade.id) id := by
      rcases hcases with ⟨-, rfl⟩ | ⟨-, hsettle, -⟩
      · exact hlinked
      · exact hsettle.linkedTo hlinked
    refine h.write id [(id, trade)] (h.books.steps (step_concludeReconciled hrun)) hsteps hothers
      (fun j hkeep => hkeep _ (h.calls j)) (fun _ _ ho => ho) rfl (fun c hc => ?_)
      (fun _ _ _ => ⟨trade, List.mem_append_right _ (List.mem_singleton.mpr rfl)⟩) (fun hsettled => ?_)
    · obtain rfl := List.mem_singleton.mp hc
      obtain ⟨r₀, hr₀, hprogress⟩ := h.since.progress id row hrow
      have hsame : r₀ = row := by
        cases hprogress with
        | same => rfl
        | accepted now h => exact nomatch hstatus
        | settled now h => exact nomatch hstatus
        | both now later h => exact nomatch hstatus
      subst hsame
      refine ⟨r₀, hr₀, hstatus, hlinked', fun hclosed => ?_⟩
      rcases hcases with ⟨hopen, -⟩ | ⟨-, -, hsettles⟩
      · exact (hclosed hopen).elim
      · exact hsettles.after
    · left
      refine ⟨trade, List.mem_append_right _ (List.mem_singleton.mpr rfl), ?_⟩
      rcases hcases with ⟨-, rfl⟩ | ⟨hclosed, -, -⟩
      · obtain ⟨r, hr, hrs⟩ := hsettled
        rw [← Option.some.inj (haccepted.symm.trans hr), hacceptedStatus] at hrs
        exact nomatch hrs
      · exact hclosed
  · rename_i db' hrun
    obtain ⟨-, rfl⟩ | ⟨_, _, _, _, _, ⟨_, hsome, _⟩ | ⟨_, _, _, hsome, _⟩⟩ :=
      concludeReconciled_accepts hrun
    · exact h
    · exact nomatch hsome
    · exact nomatch hsome
  · exact h

/-- **Every statement keeps the answers true.** -/
theorem Inv.act (h : Inv w₀ w) (a : Action) : Inv w₀ (act w a) := by
  cases a with
  | read j => exact h.read j
  | settle j now => exact h.settle j now
  | check j => exact h.check j
  | fail j => exact h.put ⟨(h.calls j).outcomes, trivial⟩ (fun _ ho => ho)
  | conclude now id v trade => exact h.conclude now id v trade

theorem inv_run (h : Starts w₀) (as : List Action) : Inv w₀ (run Settlements.act w₀ as) :=
  run_induction (P := Inv w₀) h.inv (fun _ a hw => hw.act a) as

end Settlements

end Binarius
