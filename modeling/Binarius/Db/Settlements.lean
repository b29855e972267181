import Mathlib.Tactic
import Binarius.Db.TradeIntentOps.ClosedTrades
import Binarius.Db.ReserveCover
import Binarius.Db.IntentRuns

/-!
# Db.Settlements — what a settlement and a conclusion write

* `TradeStep`: an acceptance of a reconciled intent, or a settlement of an accepted one, as one write.
* `LinksOk`: an intent has one broker trade at most, open while the intent is accepted and closed once it is
  settled; `LinksOk.written`, `LinksOk.step`.
* `settleIntent_linked`: **the settlement of a linked intent never throws**: it settles an accepted intent, and
  changes nothing of another.
* `concludeReconciled_writes`: the one or two writes of a conclusion.
-/

namespace Binarius

open Lib

/-- The trade of an account is linked to the intent. -/
def Db.LinkedTo (db : Db) (trade : AccountId × String) (id : IntentId) : Prop :=
  ∃ l, db.brokerTrades.find? trade = some l ∧ l.intentId = some id

def Db.Settled (db : Db) (id : IntentId) : Prop := ∃ r, db.find id = some r ∧ r.status = .settled

/-- What a user has beside the reserve. -/
def Db.spare (db : Db) (userId : UserId) : Option ℤ :=
  (db.users.find? userId).map (fun u => u.tokenBalance - u.tokenReserved)

/-- The links of broker trades and intents. -/
structure LinksOk (db : Db) : Prop where
  unique : ∀ k k' id, db.LinkedTo k id → db.LinkedTo k' id → k = k'
  status : ∀ k l id, db.brokerTrades.find? k = some l → l.intentId = some id →
    ∃ row, db.find id = some row ∧
      (row.status = .accepted ∧ l.status = .open ∨ row.status = .settled ∧ l.status = .closed)

theorem LinksOk.of_empty {db : Db} (h : db.brokerTrades.rows = []) : LinksOk db := by
  have hnone : ∀ k l, db.brokerTrades.find? k ≠ some l := by
    intro k l hl
    have hmem : l ∈ db.brokerTrades.rows := Table.mem_of_find? hl
    rw [h] at hmem
    exact absurd hmem List.not_mem_nil
  exact ⟨fun k _ _ ⟨l, hl, _⟩ => (hnone k l hl).elim, fun k l _ hl => (hnone k l hl).elim⟩

/-! ## One write -/

/-- An intent accepted, or settled. -/
def IntentMoves (row row' : TradeIntentRow) : Prop :=
  (row.status = .reconciling ∧ ∃ now, row' = acceptedRow now row.transport row) ∨
    (row.status = .accepted ∧ ∃ now, row' = settledRow now row)

/-- The write of an acceptance, or of a settlement. -/
inductive TradeStep (db : Db) : Db → Prop
  | accept (now : UnixMs) (row : TradeIntentRow) (trade : BrokerTrade) {t : Table BrokerTradeRow}
      (hrow : db.find row.id = some row) (hstatus : row.status = .reconciling)
      (hinsert : db.brokerTrades.insert? (tradeRow row trade) = some t) :
      TradeStep db { db.setIntent (acceptedRow now row.transport row) with brokerTrades := t }
  | settle (now : UnixMs) (row : TradeIntentRow) (l : BrokerTradeRow) (close : TradeClose) {db₁ : Db}
      (hrow : db.find row.id = some row) (hstatus : row.status = .accepted)
      (hl : db.brokerTrades.find? (key l) = some l) (hlink : l.intentId = some row.id)
      (hmove : TokenMove (db.setIntent (settledRow now row)) row.userId row.tokensReserved
        (settleRow row.userId row.id row.tokensReserved) db₁) :
      TradeStep db { db₁ with brokerTrades := db.brokerTrades.put (closedRow l close) }

section Steps

variable {db db' : Db}

theorem IntentMoves.id_eq {row row' : TradeIntentRow} (h : IntentMoves row row') : row'.id = row.id := by
  rcases h with ⟨-, now, rfl⟩ | ⟨-, now, rfl⟩
  · rfl
  · rfl

/-- The intent a write moves; the others stay. -/
theorem TradeStep.intents (h : TradeStep db db') :
    ∃ row row', db.find row.id = some row ∧ IntentMoves row row' ∧
      db'.tradeIntents = db.tradeIntents.put row' := by
  cases h with
  | accept now row trade hrow hstatus hinsert => exact ⟨row, _, hrow, .inl ⟨hstatus, now, rfl⟩, rfl⟩
  | settle now row l close hrow hstatus hl hlink hmove =>
    exact ⟨row, _, hrow, .inr ⟨hstatus, now, rfl⟩, hmove.tradeIntents⟩

/-- No intent is added or removed. -/
theorem TradeStep.keys (h : TradeStep db db') :
    db'.tradeIntents.rows.map TradeIntentRow.id = db.tradeIntents.rows.map TradeIntentRow.id := by
  obtain ⟨row, row', -, hmoves, hintents⟩ := h.intents
  rw [hintents]
  show (db.tradeIntents.rows.map (fun r => if r.id = row'.id then row' else r)).map TradeIntentRow.id = _
  rw [List.map_map]
  refine List.map_congr_left (fun r _ => ?_)
  show (if r.id = row'.id then row' else r).id = r.id
  split_ifs with hid
  · exact hid.symm
  · rfl

/-- A settlement takes its tokens from the reserve and from the balance alike. -/
theorem TradeStep.spare (h : TradeStep db db') (userId : UserId) : db'.spare userId = db.spare userId := by
  cases h with
  | accept now row trade hrow hstatus hinsert => rfl
  | settle now row l close hrow hstatus hl hlink hmove =>
    rcases hmove with ⟨-, rfl⟩ | ⟨-, user, huser, -, rfl⟩
    · rfl
    · have hid : user.id = row.userId := Table.key_of_find? huser
      have hkey : db.users.find? (key (user.posted (settleRow row.userId row.id row.tokensReserved))) =
        some user := by
        show db.users.find? user.id = some user
        rw [hid]
        exact huser
      have hput := Table.find?_put_of_find? hkey userId
      show ((db.users.put (user.posted _)).find? userId).map _ = (db.users.find? userId).map _
      rw [hput]
      split_ifs with hu
      · rw [← hu, hkey]
        simp [UserRow.posted, settleRow]
      · rfl

/-- What a write leaves: the intent it moves with the trade it links or closes, and all else as it was. -/
structure TradeWrite (db db' : Db) (row row' : TradeIntentRow) (l : BrokerTradeRow) : Prop where
  there : db.find row.id = some row
  link : l.intentId = some row.id
  moves : row.status = .reconciling ∧ (∃ now, row' = acceptedRow now row.transport row) ∧
      db.brokerTrades.find? (key l) = none ∧ l.status = .open ∨
    row.status = .accepted ∧ (∃ now, row' = settledRow now row) ∧ db.LinkedTo (key l) row.id ∧
      l.status = .closed
  find : ∀ id, db'.find id = if row.id = id then some row' else db.find id
  trades : ∀ k, db'.brokerTrades.find? k = if key l = k then some l else db.brokerTrades.find? k

/-- The lookups after an intent's row is written. -/
theorem find_put_intent {row row' : TradeIntentRow} (hrow : db.find row.id = some row)
    (hid : row'.id = row.id)
    (hintents : db'.tradeIntents = db.tradeIntents.put row') (id : IntentId) :
    db'.find id = if row.id = id then some row' else db.find id := by
  have hkey : db.tradeIntents.find? (key row') = some row := by
    show db.tradeIntents.find? row'.id = some row
    rw [hid]
    exact hrow
  have hput := Table.find?_put_of_find? hkey id
  rw [Db.find, hintents, hput]
  show (if row'.id = id then some row' else _) = _
  rw [hid]
  rfl

/-- **What a write can be.** -/
theorem TradeStep.write (h : TradeStep db db') : ∃ row row' l, TradeWrite db db' row row' l := by
  cases h with
  | accept now row trade hrow hstatus hinsert =>
    refine ⟨row, acceptedRow now row.transport row, tradeRow row trade, hrow, rfl,
      .inl ⟨hstatus, ⟨now, rfl⟩, ?_, rfl⟩,
      find_put_intent hrow rfl rfl, Table.find?_of_insert? hinsert⟩
    exact (Table.insert?_eq_some.mp hinsert).1
  | settle now row l close hrow hstatus hl hlink hmove =>
    exact ⟨row, settledRow now row, closedRow l close, hrow, hlink,
      .inr ⟨hstatus, ⟨now, rfl⟩, ⟨l, hl, hlink⟩, rfl⟩, find_put_intent hrow rfl hmove.tradeIntents,
      @Table.find?_put_of_find? _ _ _ _ db.brokerTrades (closedRow l close) l hl⟩

/-- A link stays. -/
theorem TradeStep.linkedTo (h : TradeStep db db') {k : AccountId × String} {id : IntentId}
    (hlinked : db.LinkedTo k id) : db'.LinkedTo k id := by
  obtain ⟨l', hl', hid⟩ := hlinked
  obtain ⟨row, row', l, hw⟩ := h.write
  have hafter := hw.trades k
  by_cases hk : key l = k
  · rw [if_pos hk] at hafter
    refine ⟨l, hafter, ?_⟩
    rcases hw.moves with ⟨-, -, hnone, -⟩ | ⟨-, -, ⟨l₀, hl₀, hlink₀⟩, -⟩
    · rw [hk, hl'] at hnone
      exact nomatch hnone
    · rw [hk, hl'] at hl₀
      rw [hw.link, ← hlink₀, ← Option.some.inj hl₀, hid]
  · rw [if_neg hk] at hafter
    exact ⟨l', hafter.trans hl', hid⟩

/-- A new link is that of an intent under reconciliation. -/
theorem TradeStep.of_linkedTo (h : TradeStep db db') {k : AccountId × String} {id : IntentId}
    (hlinked : db'.LinkedTo k id) :
    db.LinkedTo k id ∨ ∃ row, db.find id = some row ∧ row.status = .reconciling := by
  obtain ⟨l', hl', hid⟩ := hlinked
  obtain ⟨row, row', l, hw⟩ := h.write
  rw [hw.trades k] at hl'
  split_ifs at hl' with hk
  · obtain rfl := Option.some.inj hl'
    obtain rfl : row.id = id := Option.some.inj (hw.link.symm.trans hid)
    rcases hw.moves with ⟨hstatus, -⟩ | ⟨-, -, hlinked, -⟩
    · exact .inr ⟨row, hw.there, hstatus⟩
    · left
      rw [← hk]
      exact hlinked
  · exact .inl ⟨l', hl', hid⟩

/-- An intent with a trade is accepted or settled. -/
theorem LinksOk.linked_status (h : LinksOk db) {k : AccountId × String} {id : IntentId} {row : TradeIntentRow}
    (hk : db.LinkedTo k id) (hrow : db.find id = some row) : row.status = .accepted ∨ row.status = .settled := by
  obtain ⟨l, hl, hlink⟩ := hk
  obtain ⟨row', hrow', hcase⟩ := h.status k l id hl hlink
  obtain rfl := Option.some.inj (hrow.symm.trans hrow')
  exact hcase.imp And.left And.left

/-- **One intent and its only trade are written**, and the links hold. -/
theorem LinksOk.written (h : LinksOk db) {row row' : TradeIntentRow} {l : BrokerTradeRow}
    (hlink : l.intentId = some row.id)
    (hstate : row'.status = .accepted ∧ l.status = .open ∨ row'.status = .settled ∧ l.status = .closed)
    (honly : ∀ k, db.LinkedTo k row.id → k = key l)
    (hfind : ∀ id, db'.find id = if row.id = id then some row' else db.find id)
    (htrades : ∀ k, db'.brokerTrades.find? k = if key l = k then some l else db.brokerTrades.find? k) :
    LinksOk db' := by
  -- a trade linked to the intent is the one written
  have hwritten : ∀ k, db'.LinkedTo k row.id → k = key l := by
    rintro k ⟨l', hl', hid⟩
    rw [htrades k] at hl'
    split_ifs at hl' with hk
    · exact hk.symm
    · exact honly k ⟨l', hl', hid⟩
  -- another intent's trades are as they were
  have hother : ∀ k l' id, row.id ≠ id → db'.brokerTrades.find? k = some l' → l'.intentId = some id →
      db.brokerTrades.find? k = some l' := by
    intro k l' id hne hl' hid
    rw [htrades k] at hl'
    split_ifs at hl' with hk
    · obtain rfl := Option.some.inj hl'
      exact (hne (Option.some.inj (hlink.symm.trans hid))).elim
    · exact hl'
  refine ⟨fun k k' id hk hk' => ?_, fun k l' id hl' hid => ?_⟩
  · by_cases hrow : row.id = id
    · subst hrow
      rw [hwritten k hk, hwritten k' hk']
    · obtain ⟨l₁, hl₁, hid₁⟩ := hk
      obtain ⟨l₂, hl₂, hid₂⟩ := hk'
      exact h.unique k k' id ⟨l₁, hother k l₁ id hrow hl₁ hid₁, hid₁⟩
        ⟨l₂, hother k' l₂ id hrow hl₂ hid₂, hid₂⟩
  · by_cases hrow : row.id = id
    · subst hrow
      obtain rfl := hwritten k ⟨l', hl', hid⟩
      rw [htrades, if_pos rfl] at hl'
      obtain rfl := Option.some.inj hl'
      exact ⟨row', by rw [hfind, if_pos rfl], hstate⟩
    · obtain ⟨old, hold, hcase⟩ := h.status k l' id (hother k l' id hrow hl' hid) hid
      exact ⟨old, by rw [hfind, if_neg hrow]; exact hold, hcase⟩

/-- **A write keeps the links.** -/
theorem LinksOk.step (h : LinksOk db) (hstep : TradeStep db db') : LinksOk db' := by
  obtain ⟨row, row', l, hw⟩ := hstep.write
  rcases hw.moves with ⟨hstatus, ⟨now, rfl⟩, -, hopen⟩ | ⟨-, ⟨now, rfl⟩, hlinked, hclosed⟩
  · refine h.written hw.link (.inl ⟨rfl, hopen⟩) (fun k hk => ?_) hw.find hw.trades
    -- an intent under reconciliation has no trade
    rcases h.linked_status hk hw.there with haccepted | hsettled
    · rw [hstatus] at haccepted
      exact nomatch haccepted
    · rw [hstatus] at hsettled
      exact nomatch hsettled
  · exact h.written hw.link (.inr ⟨rfl, hclosed⟩) (fun k hk => h.unique k (key l) row.id hk hlinked) hw.find
      hw.trades

end Steps

/-! ## The two transactions -/

section Transactions

variable {now : UnixMs} {db db' : Db}

/-- The reserve a user has can be consumed. -/
theorem consumeTokens_total {user : UserRow} {userId : UserId} {id : IntentId} {tokens : ℤ}
    (huser : db.users.find? userId = some user) (hreserved : tokens ≤ user.tokenReserved)
    (hbalance : tokens ≤ user.tokenBalance) :
    (consumeTokens userId id tokens).run db = .ok ((), db.post user (settleRow userId id tokens)) := by
  obtain ⟨row', users, hupdate⟩ : ∃ row' users, db.users.updateAt userId
      (fun u => decide (tokens ≤ u.tokenReserved) && decide (tokens ≤ u.tokenBalance))
      (fun u => { u with
        tokenBalance := u.tokenBalance - tokens, tokenReserved := u.tokenReserved - tokens }) =
          some (row', users) :=
    ⟨_, _, Table.updateAt_eq_some.mpr ⟨user, huser, by simp [hreserved, hbalance], rfl, rfl⟩⟩
  obtain ⟨db₁, hrun⟩ : ∃ db₁, (consumeTokens userId id tokens).run db = .ok ((), db₁) := by
    simp only [consumeTokens, Tx.run_bind_eq_ok, DbTx.run_write_eq_ok, Tx.run_get_eq_ok,
      DbTx.run_demand_eq_ok, Tx.run_set_eq_ok]
    exact ⟨_, (), _, rfl, _, _, ⟨rfl, rfl⟩, (row', users), _, ⟨hupdate, rfl⟩, rfl⟩
  obtain ⟨user', huser', -, -, rfl⟩ := consumeTokens_ok hrun
  obtain rfl := Option.some.inj (huser.symm.trans huser')
  exact hrun

/-- The reserve of an intent leaves the reserve and the balance of its user, by one row of the ledger. -/
structure Consumes (db db' : Db) (row : TradeIntentRow) : Prop where
  held : 0 < row.tokensReserved
  ledger : db'.tokenLedger = settleRow row.userId row.id row.tokensReserved :: db.tokenLedger
  user : ∃ user, db.users.find? row.userId = some user ∧
    db'.users = db.users.put (user.posted (settleRow row.userId row.id row.tokensReserved))

/-- A settlement: the intent is settled with the trade, and its reserve consumed. -/
structure SettlesWith (db db' : Db) (id : IntentId) (trade : AccountId × String) : Prop where
  before : ∃ row, db.find id = some row ∧ row.status ≠ .settled ∧ Consumes db db' row
  after : db'.Settled id
  linked : ∃ l, db'.brokerTrades.find? trade = some l ∧ l.intentId = some id ∧ l.status = .closed

/-- The row a settlement reads is the trade linked to the intent. -/
theorem linked_row (hl : LinksOk db) {k : AccountId × String} {id : IntentId} (hk : db.LinkedTo k id) :
    ∃ l, db.brokerTrades.rows.find? (fun r => r.intentId = some id) = some l ∧ l.intentId = some id ∧
      key l = k ∧
      db.brokerTrades.find? (key l) = some l := by
  obtain ⟨l₀, hl₀, hid₀⟩ := hk
  cases hfound : db.brokerTrades.rows.find? (fun r => r.intentId = some id) with
  | none =>
    have hno := List.find?_eq_none.mp hfound l₀ (Table.mem_of_find? hl₀)
    exact (hno (by simpa using hid₀)).elim
  | some l =>
    have hid : l.intentId = some id := by simpa using List.find?_some hfound
    have hself : db.brokerTrades.find? (key l) = some l := Table.find?_of_mem
      (List.mem_of_find?_eq_some hfound)
    exact ⟨l, rfl, hid, hl.unique _ _ id ⟨l, hself, hid⟩ ⟨l₀, hl₀, hid₀⟩, hself⟩

/-- **The settlement of a linked, accepted intent never throws**, and is one write. -/
theorem settleIntent_linked (hb : db.books.Inv) (hl : LinksOk db) {o : SettleIntentOptions}
    {row : TradeIntentRow}
    {k : AccountId × String} (hrow : db.find o.id = some row) (hstatus : row.status = .accepted)
    (hfrom : o.fromStatus = .accepted) (hversion : ∀ v, o.expectedVersion = some v → row.version = v)
    (hk : db.LinkedTo k o.id) (htrade : k.2 = o.trade.trade.id) :
    ∃ db', (settleIntent now o).run db = .ok (some (settledRow now row), db') ∧ TradeStep db db' ∧
      db'.brokerTrades.find? k = (db.brokerTrades.find? k).map (fun l => closedRow l o.trade.close) ∧
      db'.tradeIntents = db.tradeIntents.put (settledRow now row) ∧ Consumes db db' row := by
  obtain ⟨l, hfound, hid, rfl, hself⟩ := linked_row hl hk
  have hrid : row.id = o.id := Db.find_id hrow
  have hlive : row.status.terminal = false := by rw [hstatus]; rfl
  have hholds : 0 < row.tokensReserved := hb.holds row (Table.mem_of_find? hrow) hlive
  obtain ⟨user, huser, hreserved, hbalance⟩ := hb.covers hrow hlive
  let transition : TransitionOptions :=
    { id := o.id, fromStatus := o.fromStatus, toStatus := .settled
      expectedVersion := some row.version
      patch := { tokensReserved := some 0 } }
  have hadmits : transition.admits row = true := by
    simp [transition, TransitionOptions.admits, hstatus, hfrom]
  have hmoved : (transitionIntent now transition).run db =
      .ok (some (settledRow now row), db.setIntent (settledRow now row)) := by
    refine transitionIntent_eq_ok.mpr ⟨?_, .inl ⟨row, hrow, hadmits, rfl, rfl⟩⟩
    show canTransition o.fromStatus .settled = true
    rw [hfrom]
    rfl
  have hconsumed : (DbTx.onlyIf (0 < row.tokensReserved) (consumeTokens row.userId o.id row.tokensReserved)).run
      (db.setIntent (settledRow now row)) =
        .ok ((), (db.setIntent (settledRow now row)).post user (settleRow row.userId o.id row.tokensReserved)) :=
    DbTx.run_onlyIf_eq_ok.mpr (.inl ⟨hholds, consumeTokens_total huser hreserved hbalance⟩)
  have hmatch : (requireSettleable row (some l) o.trade.trade).run db = .ok ((), db) :=
    DbTx.run_require_eq_ok.mpr ⟨decide_eq_true htrade, rfl⟩
  have hnotStatus : ¬ row.status ≠ o.fromStatus := by rw [hstatus, hfrom]; simp
  have hnotVersion : ¬ o.expectedVersion.any (· ≠ row.version) = true := by
    cases hv : o.expectedVersion with
    | none => simp
    | some v => simp [hversion v hv]
  refine ⟨{ (db.setIntent (settledRow now row)).post user (settleRow row.userId o.id row.tokensReserved) with
    brokerTrades := db.brokerTrades.put (closedRow l o.trade.close) }, ?_, ?_, ?_, rfl, ?_⟩
  · unfold settleIntent
    refine Tx.run_bind_eq_ok.mpr ⟨db, db, Tx.run_get_eq_ok.mpr ⟨rfl, rfl⟩, ?_⟩
    simp only [hrow]
    rw [if_neg hnotStatus, if_neg hnotVersion, hfound]
    refine Tx.run_bind_eq_ok.mpr ⟨(), db, hmatch, Tx.run_bind_eq_ok.mpr ⟨_, _, hmoved, ?_⟩⟩
    exact Tx.run_bind_eq_ok.mpr ⟨(), _, hconsumed, Tx.run_bind_eq_ok.mpr ⟨(), _, rfl, rfl⟩⟩
  · rw [← hrid]
    refine .settle now row l o.trade.close (by rw [hrid]; exact hrow) hstatus hself
      (by rw [hrid]; exact hid) ?_
    exact .inr ⟨hholds, user, huser, hreserved, rfl⟩
  · show (db.brokerTrades.put (closedRow l o.trade.close)).find? (key l) = _
    rw [@Table.find?_put_of_find? _ _ _ _ db.brokerTrades (closedRow l o.trade.close) l hself, hself]
    exact if_pos rfl
  · rw [← hrid]
    exact ⟨hholds, rfl, user, huser, rfl⟩

/-- The settlement of an intent that is not accepted any more changes nothing. -/
theorem settleIntent_moved {o : SettleIntentOptions} (hfrom : o.fromStatus = .accepted)
    (hmoved : ∀ row, db.find o.id = some row → row.status ≠ .accepted) :
    (settleIntent now o).run db = .ok (none, db) := by
  unfold settleIntent
  refine Tx.run_bind_eq_ok.mpr ⟨db, db, Tx.run_get_eq_ok.mpr ⟨rfl, rfl⟩, ?_⟩
  cases hrow : db.find o.id with
  | none => rfl
  | some row =>
    simp only
    rw [if_pos (by rw [hfrom]; exact hmoved row hrow)]
    rfl

theorem asClosed?_trade {trade : BrokerTrade} {closed : ClosedTrade} (h : trade.asClosed? = some closed) :
    closed.trade = trade := by
  unfold BrokerTrade.asClosed? at h
  split at h
  · obtain rfl := Option.some.inj h
    rfl
  · exact nomatch h

/-- **A conclusion is an acceptance**, followed by the settlement when the trade is closed. -/
theorem concludeReconciled_writes (hb : db.books.Inv) (hl : LinksOk db) {id : IntentId} {v : ℕ}
    {trade : BrokerTrade}
    {r : TradeIntentRow} (h : (concludeReconciled now id v trade).run db = .ok (some r, db')) :
    ∃ row db₁, db.find id = some row ∧ row.status = .reconciling ∧ TradeStep db db₁ ∧
      (∃ accepted, db₁.find id = some accepted ∧ accepted.status = .accepted) ∧
      db₁.LinkedTo (row.brokerAccountId, trade.id) id ∧ (∀ i, i ≠ id → db'.find i = db.find i) ∧
      (trade.asClosed? = none ∧ db' = db₁ ∨
        trade.asClosed? ≠ none ∧ TradeStep db₁ db' ∧ SettlesWith db db' id
          (row.brokerAccountId, trade.id)) := by
  obtain ⟨hnone, -⟩ | ⟨current, accepted, db₁, hcurrent, hacc, hcases⟩ := concludeReconciled_accepts h
  · exact nomatch hnone
  obtain ⟨hnone, -⟩ | ⟨row, t, hrow, hstatus, -, -, -, haccepted, hinsert, hdb₁⟩ :=
    markIntentAccepted_ok hacc
  · exact nomatch hnone
  obtain rfl := Option.some.inj (hcurrent.symm.trans hrow)
  have hid : current.id = id := Db.find_id hrow
  have hstep : TradeStep db db₁ := by
    rw [hdb₁]
    exact .accept now current trade (by rw [hid]; exact hrow) hstatus hinsert
  obtain rfl := Option.some.inj haccepted
  have hput := @find_put_intent db db₁ current (acceptedRow now current.transport current)
    (by rw [hid]; exact hrow) rfl (by rw [hdb₁]; rfl)
  have hfind : db₁.find id = some (acceptedRow now current.transport current) := by
    rw [hput id, if_pos hid]
  have hothers : ∀ i, i ≠ id → db₁.find i = db.find i := by
    intro i hi
    rw [hput i, if_neg (by rw [hid]; exact Ne.symm hi)]
  have hlinked : db₁.LinkedTo (current.brokerAccountId, trade.id) id := by
    have htrades := Table.find?_of_insert? hinsert (current.brokerAccountId, trade.id)
    rw [if_pos (show key (tradeRow current trade) =
      (current.brokerAccountId, trade.id) from rfl)] at htrades
    rw [← hid]
    refine ⟨tradeRow current trade, ?_, rfl⟩
    rw [hdb₁]
    exact htrades
  rcases hcases with ⟨hopen, -, rfl⟩ | ⟨closed, settled, hclosed, -, hset⟩
  · exact ⟨current, db', hrow, hstatus, hstep, ⟨_, hfind, rfl⟩, hlinked, hothers, .inl ⟨hopen, rfl⟩⟩
  · have hb₁ : db₁.books.Inv := hb.steps (step_markIntentAccepted hacc)
    obtain ⟨db₂, hrun, hsettles, hclosedRow, hintents, hconsumes⟩ := @settleIntent_linked now db₁ hb₁
      (hl.step hstep)
      { id := id, expectedVersion := some (acceptedRow now current.transport current).version
        fromStatus := .accepted, trade := closed }
      _ _ hfind rfl rfl (fun v hv => Option.some.inj hv) hlinked (by rw [asClosed?_trade hclosed])
    obtain ⟨hres, rfl⟩ := Prod.mk.inj (Except.ok.inj (hrun.symm.trans hset))
    have haccId : (acceptedRow now current.transport current).id = id := hid
    have hput₂ := @find_put_intent db₁ db₂ (acceptedRow now current.transport current)
      (settledRow now (acceptedRow now current.transport current))
        (by rw [haccId]; exact hfind) rfl hintents
    have hsettled : db₂.Settled id := by
      refine ⟨settledRow now (acceptedRow now current.transport current), ?_, rfl⟩
      rw [hput₂ id, if_pos haccId]
    have hothers₂ : ∀ i, i ≠ id → db₂.find i = db.find i := by
      intro i hi
      rw [hput₂ i, if_neg (by rw [haccId]; exact Ne.symm hi), hothers i hi]
    -- the acceptance moved no token
    have hconsumed : Consumes db db₂ current := by
      obtain ⟨hheld, hledger, hconsumedUser⟩ := hconsumes
      rw [hdb₁] at hledger hconsumedUser
      exact ⟨hheld, hledger, hconsumedUser⟩
    obtain ⟨l, hl₁, hlink⟩ := hlinked
    rw [hl₁] at hclosedRow
    refine ⟨current, db₁, hrow, hstatus, hstep, ⟨_, hfind, rfl⟩, ⟨l, hl₁, hlink⟩, hothers₂,
      .inr ⟨?_, hsettles, ?_⟩⟩
    · rw [hclosed]
      simp
    · exact ⟨⟨current, hrow, by rw [hstatus]; simp, hconsumed⟩, hsettled, ⟨_, hclosedRow, hlink, rfl⟩⟩

end Transactions

end Binarius
