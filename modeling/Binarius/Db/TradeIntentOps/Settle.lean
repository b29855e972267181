import Mathlib.Tactic
import Binarius.Db.TradeIntentOps.Transition

/-!
# Db.TradeIntentOps.Settle — rejection, acceptance, settlement and the reconciled conclusion
(packages/db/src/trade-intent-ops.ts)

* `rejectIntent_ok`: a rejection zeroes the intent's reserve and releases it in one transaction.
* `markIntentAccepted_ok`: accepted only together with the broker's trade; no token moves.
* `settleIntent_closes`, `settleIntent_ok`: a settlement zeroes the intent's reserve, consumes it and closes
  the trade.
* `concludeReconciled_ok`: accepted, and settled in the same transaction when the trade is closed.
-/

namespace Binarius

open Lib

/-! ## The reserve -/

def releaseRow (userId : UserId) (id : IntentId) (tokens : ℤ) : TokenLedgerRow :=
  { userId := userId, kind := .release, reservedDelta := -tokens, intentId := some id }

def settleRow (userId : UserId) (id : IntentId) (tokens : ℤ) : TokenLedgerRow :=
  { userId := userId, kind := .settle, reservedDelta := -tokens, balanceDelta := -tokens
    intentId := some id }

def releaseTokens (userId : UserId) (id : IntentId) (tokens : ℤ) : DbTx Unit := do
  DbTx.write (fun db => { db with tokenLedger := releaseRow userId id tokens :: db.tokenLedger })
  let db ← get
  let (_, users) ← DbTx.demand
    (db.users.updateAt userId (fun u => decide (tokens ≤ u.tokenReserved))
      (fun u => { u with tokenReserved := u.tokenReserved - tokens }))
    (.underflow userId)
  set { db with users := users }

/-- Settlement: the reserved token leaves both the reserve and the balance. -/
def consumeTokens (userId : UserId) (id : IntentId) (tokens : ℤ) : DbTx Unit := do
  DbTx.write (fun db => { db with tokenLedger := settleRow userId id tokens :: db.tokenLedger })
  let db ← get
  let (_, users) ← DbTx.demand
    (db.users.updateAt userId
      (fun u => decide (tokens ≤ u.tokenReserved) && decide (tokens ≤ u.tokenBalance))
      (fun u => { u with
        tokenBalance := u.tokenBalance - tokens, tokenReserved := u.tokenReserved - tokens }))
    (.underflow userId)
  set { db with users := users }

/-! ## Rejection -/

structure RejectIntentOptions where
  id : IntentId
  fromStatus : TradeIntentStatus
  expectedVersion : Option ℕ := none
  reason : TradeIntentFailureReason
  guard : TradeIntentRow → Bool := fun _ => true

/-- Rejection releases the reserve in the same transaction. -/
def rejectIntent (now : UnixMs) (o : RejectIntentOptions) : DbTx (Option TradeIntentRow) := do
  let some current := (← get).find o.id | return none
  if current.status ≠ o.fromStatus then return none
  if o.expectedVersion.any (· ≠ current.version) then return none
  let some rejected ← transitionIntent now
    { id := o.id, fromStatus := o.fromStatus, toStatus := .rejected
      expectedVersion := some current.version
      patch := { lastError := some (some o.reason), tokensReserved := some 0 }
      guard := o.guard }
    | return none
  DbTx.onlyIf (0 < current.tokensReserved) (releaseTokens current.userId o.id current.tokensReserved)
  return some rejected

def rejectExpiredIntent (now : UnixMs) (id : IntentId) (expectedVersion : ℕ) (maxAgeMs : ℤ) :
    DbTx (Option TradeIntentRow) :=
  rejectIntent now
    { id := id, fromStatus := .queued, expectedVersion := some expectedVersion, reason := .expired
      guard := fun row => decide (row.createdAt < now - maxAgeMs) }

def rejectLateIntent (now : UnixMs) (id : IntentId) (expectedVersion : ℕ) :
    DbTx (Option TradeIntentRow) :=
  rejectIntent now
    { id := id, fromStatus := .queued, expectedVersion := some expectedVersion
      reason := .entryWindowMissed
      guard := fun row => row.submitDeadlineAt.any (fun d => decide (d ≤ now)) }

/-- No switch predicate on purpose: a switch reopened meanwhile would leave the intent queued. -/
def rejectPausedIntent (now : UnixMs) (id : IntentId) (expectedVersion : ℕ) :
    DbTx (Option TradeIntentRow) :=
  rejectIntent now
    { id := id, fromStatus := .queued, expectedVersion := some expectedVersion
      reason := .tradingPaused }

/-! ## Acceptance -/

/-- A broker trade that is closed. -/
structure ClosedTrade where
  trade : BrokerTrade
  close : TradeClose
  closed_eq : trade.closed = some close

def BrokerTrade.asClosed? (trade : BrokerTrade) : Option ClosedTrade :=
  match h : trade.closed with
  | some close => some ⟨trade, close, h⟩
  | none => none

/-- Mode, asset, action and amount of the trade against the intent's. -/
def mismatchOf (intent : TradeIntentRow) (trade : BrokerTrade) : Option TradeMismatchReason :=
  if trade.isDemo ≠ decide (intent.mode = .demo) then some .mode
  else if trade.assetId ≠ intent.assetId then some .asset
  else if trade.action ≠ intent.action then some .action
  else if normalizeDecimal trade.amount ≠ normalizeDecimal intent.amount then some .amount
  else none

/-- The open columns of a broker_trades row. -/
def tradeRow (intent : TradeIntentRow) (trade : BrokerTrade) : BrokerTradeRow where
  brokerAccountId := intent.brokerAccountId
  intentId := some intent.id
  brokerTradeId := trade.id
  mode := intent.mode
  assetId := trade.assetId
  action := trade.action
  amount := trade.amount
  openTimestampMs := trade.openTimestamp
  closing := none
  status := .open

/-- The row with its settlement group. -/
def closedRow (row : BrokerTradeRow) (close : TradeClose) : BrokerTradeRow :=
  { row with closing := some close, status := .closed }

/-- A violation of either link index is a mismatch. -/
def insertTrade (row : BrokerTradeRow) (intentId : IntentId) : DbTx Unit := do
  let db ← get
  let linked := TxError.mismatch .tradeAlreadyLinked intentId row.brokerTradeId
  DbTx.require (!db.brokerTrades.rows.any (fun r => r.intentId = some intentId)) linked
  let brokerTrades ← DbTx.demand (db.brokerTrades.insert? row) linked
  set { db with brokerTrades := brokerTrades }

structure MarkAcceptedOptions where
  id : IntentId
  expectedVersion : ℕ
  fromStatus : TradeIntentStatus := .submitting
  transport : Option TradeTransport
  trade : BrokerTrade

/-- Throw the four-field mismatch of an intent and a trade. -/
def requireMatch (intent : TradeIntentRow) (trade : BrokerTrade) : DbTx Unit :=
  match mismatchOf intent trade with
  | some reason => Tx.fail (.mismatch reason intent.id trade.id)
  | none => pure ()

/-- Accepted only together with the broker's trade. -/
def markIntentAccepted (now : UnixMs) (o : MarkAcceptedOptions) : DbTx (Option TradeIntentRow) := do
  let some terms := (← get).find o.id | return none
  requireMatch terms o.trade
  let some row ← transitionIntent now
    { id := o.id, fromStatus := o.fromStatus, toStatus := .accepted
      expectedVersion := some o.expectedVersion
      patch := { transport := some o.transport } }
    | return none
  insertTrade (tradeRow row o.trade) row.id
  return some row

/-! ## Settlement -/

structure SettleIntentOptions where
  id : IntentId
  expectedVersion : Option ℕ := none
  fromStatus : TradeIntentStatus
  trade : ClosedTrade

/-- The trade of an intent never linked matches its four fields; a linked one has its id. -/
def requireSettleable (current : TradeIntentRow) (linked : Option BrokerTradeRow) (trade : BrokerTrade) :
    DbTx Unit :=
  match linked with
  | some l => DbTx.require (l.brokerTradeId = trade.id) (.mismatch .tradeAlreadyLinked current.id trade.id)
  | none => requireMatch current trade

/-- Close the linked row, or insert the trade closed. -/
def closeTrade (current : TradeIntentRow) (linked : Option BrokerTradeRow) (trade : ClosedTrade) :
    DbTx Unit :=
  match linked with
  | some l => DbTx.write (fun db =>
      { db with brokerTrades := db.brokerTrades.put (closedRow l trade.close) })
  | none => insertTrade (closedRow (tradeRow current trade.trade) trade.close) current.id

/-- → settled: the token is debited whatever the trade's outcome. -/
def settleIntent (now : UnixMs) (o : SettleIntentOptions) : DbTx (Option TradeIntentRow) := do
  let db ← get
  let some current := db.find o.id | return none
  if current.status ≠ o.fromStatus then return none
  if o.expectedVersion.any (· ≠ current.version) then return none
  let linked := db.brokerTrades.rows.find? (fun r => r.intentId = some o.id)
  requireSettleable current linked o.trade.trade
  let some settled ← transitionIntent now
    { id := o.id, fromStatus := o.fromStatus, toStatus := .settled
      expectedVersion := some current.version
      patch := { tokensReserved := some 0 } }
    | return none
  DbTx.onlyIf (0 < current.tokensReserved) (consumeTokens current.userId o.id current.tokensReserved)
  closeTrade current linked o.trade
  return some settled

/-- reconciling → accepted with the broker's trade, and → settled in the same transaction when that
trade is already closed. -/
def concludeReconciled (now : UnixMs) (id : IntentId) (expectedVersion : ℕ) (trade : BrokerTrade) :
    DbTx (Option TradeIntentRow) := do
  let some current := (← get).find id | return none
  let some accepted ← markIntentAccepted now
    { id := id, expectedVersion := expectedVersion, fromStatus := .reconciling
      transport := current.transport, trade := trade }
    | return none
  let some closed := trade.asClosed? | return some accepted
  let some settled ← settleIntent now
    { id := id, expectedVersion := some accepted.version, fromStatus := .accepted, trade := closed }
    | Tx.fail .vanished
  return some settled

/-! ## What the operations can do -/

section Specs

variable {now : UnixMs} {db db' : Db} {res : Option TradeIntentRow}

theorem eq_of_not_any_ne {expected : Option ℕ} {version : ℕ}
    (h : ¬ expected.any (· ≠ version) = true) : ∀ v, expected = some v → version = v := by
  rintro v rfl
  by_contra hne
  exact h (by simp [Ne.symm hne])

theorem releaseTokens_ok {userId : UserId} {id : IntentId} {tokens : ℤ} {u : Unit}
    (h : (releaseTokens userId id tokens).run db = .ok (u, db')) :
    ∃ user, db.users.find? userId = some user ∧ tokens ≤ user.tokenReserved ∧
      db' = db.post user (releaseRow userId id tokens) := by
  simp only [releaseTokens, Tx.run_bind_eq_ok, DbTx.run_write_eq_ok, Tx.run_get_eq_ok,
    DbTx.run_demand_eq_ok, Tx.run_set_eq_ok] at h
  obtain ⟨_, _, rfl, _, _, ⟨rfl, rfl⟩, ⟨_, users⟩, _, ⟨hu, rfl⟩, rfl⟩ := h
  obtain ⟨user, hf, hg, rfl, rfl⟩ := Table.updateAt_eq_some.mp hu
  refine ⟨user, hf, by simpa using hg, ?_⟩
  simp [Db.post, UserRow.posted, releaseRow, sub_eq_add_neg]

theorem consumeTokens_ok {userId : UserId} {id : IntentId} {tokens : ℤ} {u : Unit}
    (h : (consumeTokens userId id tokens).run db = .ok (u, db')) :
    ∃ user, db.users.find? userId = some user ∧ tokens ≤ user.tokenReserved ∧
      tokens ≤ user.tokenBalance ∧ db' = db.post user (settleRow userId id tokens) := by
  simp only [consumeTokens, Tx.run_bind_eq_ok, DbTx.run_write_eq_ok, Tx.run_get_eq_ok,
    DbTx.run_demand_eq_ok, Tx.run_set_eq_ok] at h
  obtain ⟨_, _, rfl, _, _, ⟨rfl, rfl⟩, ⟨_, users⟩, _, ⟨hu, rfl⟩, rfl⟩ := h
  obtain ⟨user, hf, hg, rfl, rfl⟩ := Table.updateAt_eq_some.mp hu
  simp only [Bool.and_eq_true, decide_eq_true_eq] at hg
  refine ⟨user, hf, hg.1, hg.2, ?_⟩
  simp [Db.post, UserRow.posted, settleRow, sub_eq_add_neg]

/-- A token move of an intent that holds `tokens`: none when it holds none. -/
def TokenMove (db : Db) (userId : UserId) (tokens : ℤ) (row : TokenLedgerRow) (db' : Db) : Prop :=
  (¬ 0 < tokens ∧ db' = db) ∨
    (0 < tokens ∧ ∃ user, db.users.find? userId = some user ∧ tokens ≤ user.tokenReserved ∧
      db' = db.post user row)

/-- The row a rejection leaves. -/
def rejectedRow (now : UnixMs) (reason : TradeIntentFailureReason) (row : TradeIntentRow) :
    TradeIntentRow :=
  { row with
    status := .rejected
    version := row.version + 1
    lastError := some reason
    tokensReserved := 0
    updatedAt := now }

/-- **What a rejection can do.** -/
theorem rejectIntent_ok {o : RejectIntentOptions} (h : (rejectIntent now o).run db = .ok (res, db')) :
    (res = none ∧ db' = db) ∨
      ∃ row, db.find o.id = some row ∧ row.status = o.fromStatus ∧
        canTransition row.status .rejected = true ∧
        (∀ v, o.expectedVersion = some v → row.version = v) ∧ o.guard row = true ∧
        res = some (rejectedRow now o.reason row) ∧
        TokenMove (db.setIntent (rejectedRow now o.reason row)) row.userId row.tokensReserved
          (releaseRow row.userId o.id row.tokensReserved) db' := by
  simp only [rejectIntent, Tx.run_bind_eq_ok, Tx.run_get_eq_ok] at h
  obtain ⟨_, _, ⟨rfl, rfl⟩, h⟩ := h
  cases hf : db.find o.id with
  | none =>
    simp only [hf, StateT.run_pure, Tx.run_pure_eq_ok] at h
    exact .inl ⟨h.1.symm, h.2.symm⟩
  | some current =>
    simp only [hf] at h
    split at h
    · simp only [StateT.run_pure, Tx.run_pure_eq_ok] at h
      exact .inl ⟨h.1.symm, h.2.symm⟩
    split at h
    · simp only [StateT.run_pure, Tx.run_pure_eq_ok] at h
      exact .inl ⟨h.1.symm, h.2.symm⟩
    rename_i hs hv
    simp only [Tx.run_bind_eq_ok] at h
    obtain ⟨moved, db₁, ht, h⟩ := h
    cases moved with
    | none =>
      simp only [StateT.run_pure, Tx.run_pure_eq_ok] at h
      obtain ⟨rfl, rfl⟩ := h
      exact .inl ⟨rfl, transitionIntent_none ht⟩
    | some row' =>
      obtain ⟨row, hf₂, hc, hm, hrow, rfl⟩ := transitionIntent_some ht
      obtain ⟨hstatus, _, hguard⟩ := TransitionOptions.admits_eq_true.mp hm
      have hcur : current = row := by simpa [hf] using hf₂
      subst hcur
      simp only [Tx.run_bind_eq_ok, DbTx.run_onlyIf_eq_ok, StateT.run_pure, Tx.run_pure_eq_ok] at h
      obtain ⟨_, db₂, hmove, rfl, rfl⟩ := h
      refine .inr ⟨current, rfl, hstatus, hstatus ▸ hc, eq_of_not_any_ne hv, hguard, by rw [hrow]; rfl, ?_⟩
      rcases hmove with ⟨hpos, hrel⟩ | ⟨hpos, rfl⟩
      · obtain ⟨user, hu, hle, rfl⟩ := releaseTokens_ok hrel
        exact .inr ⟨hpos, user, hu, hle, by rw [hrow]; rfl⟩
      · exact .inl ⟨hpos, by rw [hrow]; rfl⟩

theorem requireMatch_ok {intent : TradeIntentRow} {trade : BrokerTrade} {u : Unit}
    (h : (requireMatch intent trade).run db = .ok (u, db')) :
    db' = db ∧ mismatchOf intent trade = none := by
  unfold requireMatch at h
  split at h
  · simp at h
  · rename_i hm
    simp only [StateT.run_pure, Tx.run_pure_eq_ok] at h
    exact ⟨h.2.symm, hm⟩

theorem insertTrade_ok {row : BrokerTradeRow} {id : IntentId} {u : Unit}
    (h : (insertTrade row id).run db = .ok (u, db')) :
    ∃ t, db.brokerTrades.insert? row = some t ∧ db' = { db with brokerTrades := t } := by
  simp only [insertTrade, Tx.run_bind_eq_ok, Tx.run_get_eq_ok, DbTx.run_require_eq_ok,
    DbTx.run_demand_eq_ok, Tx.run_set_eq_ok] at h
  obtain ⟨_, _, ⟨rfl, rfl⟩, _, _, ⟨_, rfl⟩, t, _, ⟨ht, rfl⟩, rfl⟩ := h
  exact ⟨t, ht, rfl⟩

/-- The row an acceptance leaves. -/
def acceptedRow (now : UnixMs) (transport : Option TradeTransport) (row : TradeIntentRow) :
    TradeIntentRow :=
  { row with
    status := .accepted
    version := row.version + 1
    transport := transport
    updatedAt := now }

/-- **What an acceptance can do.** -/
theorem markIntentAccepted_ok {o : MarkAcceptedOptions}
    (h : (markIntentAccepted now o).run db = .ok (res, db')) :
    (res = none ∧ db' = db) ∨
      ∃ row t, db.find o.id = some row ∧ row.status = o.fromStatus ∧
        canTransition row.status .accepted = true ∧ row.version = o.expectedVersion ∧
        mismatchOf row o.trade = none ∧ res = some (acceptedRow now o.transport row) ∧
        db.brokerTrades.insert? (tradeRow row o.trade) = some t ∧
        db' = { db.setIntent (acceptedRow now o.transport row) with brokerTrades := t } := by
  simp only [markIntentAccepted, Tx.run_bind_eq_ok, Tx.run_get_eq_ok] at h
  obtain ⟨_, _, ⟨rfl, rfl⟩, h⟩ := h
  cases hf : db.find o.id with
  | none =>
    simp only [hf, StateT.run_pure, Tx.run_pure_eq_ok] at h
    exact .inl ⟨h.1.symm, h.2.symm⟩
  | some terms =>
    simp only [hf, Tx.run_bind_eq_ok] at h
    obtain ⟨_, _, hreq, moved, db₁, ht, h⟩ := h
    obtain ⟨rfl, hmatch⟩ := requireMatch_ok hreq
    cases moved with
    | none =>
      simp only [StateT.run_pure, Tx.run_pure_eq_ok] at h
      obtain ⟨rfl, rfl⟩ := h
      exact .inl ⟨rfl, transitionIntent_none ht⟩
    | some row' =>
      obtain ⟨row, hf₂, hc, hm, rfl, rfl⟩ := transitionIntent_some ht
      obtain ⟨hstatus, hv, _⟩ := TransitionOptions.admits_eq_true.mp hm
      have hrow : terms = row := by simpa [hf] using hf₂
      subst hrow
      simp only [Tx.run_bind_eq_ok, StateT.run_pure, Tx.run_pure_eq_ok] at h
      obtain ⟨_, db₂, hins, rfl, rfl⟩ := h
      obtain ⟨t, ht, rfl⟩ := insertTrade_ok hins
      exact .inr ⟨terms, t, rfl, hstatus, hstatus ▸ hc, hv _ rfl, hmatch, rfl, ht, rfl⟩

theorem requireSettleable_ok {current : TradeIntentRow} {linked : Option BrokerTradeRow}
    {trade : BrokerTrade} {u : Unit}
    (h : (requireSettleable current linked trade).run db = .ok (u, db')) : db' = db := by
  unfold requireSettleable at h
  split at h
  · exact (DbTx.run_require_eq_ok.mp h).2.symm
  · exact (requireMatch_ok h).1

theorem closeTrade_ok {current : TradeIntentRow} {linked : Option BrokerTradeRow} {trade : ClosedTrade}
    {u : Unit} (h : (closeTrade current linked trade).run db = .ok (u, db')) :
    ∃ t, db' = { db with brokerTrades := t } := by
  unfold closeTrade at h
  split at h
  · exact ⟨_, (DbTx.run_write_eq_ok.mp h).symm⟩
  · obtain ⟨t, _, hdb⟩ := insertTrade_ok h
    exact ⟨t, hdb⟩

/-- The row a settlement leaves. -/
def settledRow (now : UnixMs) (row : TradeIntentRow) : TradeIntentRow :=
  { row with
    status := .settled
    version := row.version + 1
    tokensReserved := 0
    updatedAt := now }

/-- **What a settlement can do**: it settles the intent, moves its reserve and closes its trade. -/
theorem settleIntent_closes {o : SettleIntentOptions} (h : (settleIntent now o).run db = .ok (res, db')) :
    (res = none ∧ db' = db) ∨
      ∃ row db₁ u, db.find o.id = some row ∧ row.status = o.fromStatus ∧
        canTransition row.status .settled = true ∧
        (∀ v, o.expectedVersion = some v → row.version = v) ∧ res = some (settledRow now row) ∧
        TokenMove (db.setIntent (settledRow now row)) row.userId row.tokensReserved
          (settleRow row.userId o.id row.tokensReserved) db₁ ∧
        (closeTrade row (db.brokerTrades.rows.find? (fun r => r.intentId = some o.id)) o.trade).run db₁ =
          .ok (u, db') := by
  simp only [settleIntent, Tx.run_bind_eq_ok, Tx.run_get_eq_ok] at h
  obtain ⟨_, _, ⟨rfl, rfl⟩, h⟩ := h
  cases hf : db.find o.id with
  | none =>
    simp only [hf, StateT.run_pure, Tx.run_pure_eq_ok] at h
    exact .inl ⟨h.1.symm, h.2.symm⟩
  | some current =>
    simp only [hf] at h
    split at h
    · simp only [StateT.run_pure, Tx.run_pure_eq_ok] at h
      exact .inl ⟨h.1.symm, h.2.symm⟩
    split at h
    · simp only [StateT.run_pure, Tx.run_pure_eq_ok] at h
      exact .inl ⟨h.1.symm, h.2.symm⟩
    rename_i hs hv
    simp only [Tx.run_bind_eq_ok] at h
    obtain ⟨_, _, hreq, moved, db₁, ht, h⟩ := h
    obtain rfl := requireSettleable_ok hreq
    cases moved with
    | none =>
      simp only [StateT.run_pure, Tx.run_pure_eq_ok] at h
      obtain ⟨rfl, rfl⟩ := h
      exact .inl ⟨rfl, transitionIntent_none ht⟩
    | some row' =>
      obtain ⟨row, hf₂, hc, hm, hrow, rfl⟩ := transitionIntent_some ht
      obtain ⟨hstatus, _, _⟩ := TransitionOptions.admits_eq_true.mp hm
      have hcur : current = row := by simpa [hf] using hf₂
      subst hcur
      simp only [Tx.run_bind_eq_ok, DbTx.run_onlyIf_eq_ok, StateT.run_pure, Tx.run_pure_eq_ok] at h
      obtain ⟨_, db₂, hmove, u, db₃, hclose, rfl, rfl⟩ := h
      refine .inr ⟨current, db₂, u, rfl, hstatus, hstatus ▸ hc, eq_of_not_any_ne hv, by rw [hrow]; rfl, ?_, hclose⟩
      rcases hmove with ⟨hpos, hcons⟩ | ⟨hpos, rfl⟩
      · obtain ⟨user, hu, hle, _, rfl⟩ := consumeTokens_ok hcons
        exact .inr ⟨hpos, user, hu, hle, by rw [hrow]; rfl⟩
      · exact .inl ⟨hpos, by rw [hrow]; rfl⟩

/-- Of the broker trades only that some table is left. -/
theorem settleIntent_ok {o : SettleIntentOptions} (h : (settleIntent now o).run db = .ok (res, db')) :
    (res = none ∧ db' = db) ∨
      ∃ row db₁ t, db.find o.id = some row ∧ row.status = o.fromStatus ∧
        canTransition row.status .settled = true ∧
        (∀ v, o.expectedVersion = some v → row.version = v) ∧ res = some (settledRow now row) ∧
        TokenMove (db.setIntent (settledRow now row)) row.userId row.tokensReserved
          (settleRow row.userId o.id row.tokensReserved) db₁ ∧
        db' = { db₁ with brokerTrades := t } := by
  obtain hnone | ⟨row, db₁, u, hf, hstatus, hc, hv, hres, hmove, hclose⟩ := settleIntent_closes h
  · exact .inl hnone
  · obtain ⟨t, hdb⟩ := closeTrade_ok hclose
    exact .inr ⟨row, db₁, t, hf, hstatus, hc, hv, hres, hmove, hdb⟩

/-- A reconciled conclusion is an acceptance from `reconciling` that keeps the transport, alone for an open
trade and followed by its settlement for a closed one. -/
theorem concludeReconciled_accepts {id : IntentId} {v : ℕ} {trade : BrokerTrade}
    (h : (concludeReconciled now id v trade).run db = .ok (res, db')) :
    (res = none ∧ db' = db) ∨
      ∃ current accepted db₁, db.find id = some current ∧ (markIntentAccepted now
          { id := id, expectedVersion := v, fromStatus := .reconciling
            transport := current.transport, trade := trade }).run db = .ok (some accepted, db₁) ∧
        ((trade.asClosed? = none ∧ res = some accepted ∧ db' = db₁) ∨
          ∃ closed settled, trade.asClosed? = some closed ∧ res = some settled ∧
            (settleIntent now { id := id, expectedVersion := some accepted.version
                                fromStatus := .accepted, trade := closed }).run db₁ =
              .ok (some settled, db')) := by
  simp only [concludeReconciled, Tx.run_bind_eq_ok, Tx.run_get_eq_ok] at h
  obtain ⟨_, _, ⟨rfl, rfl⟩, h⟩ := h
  cases hf : db.find id with
  | none =>
    simp only [hf, StateT.run_pure, Tx.run_pure_eq_ok] at h
    exact .inl ⟨h.1.symm, h.2.symm⟩
  | some current =>
    simp only [hf, Tx.run_bind_eq_ok] at h
    obtain ⟨moved, db₁, hacc, h⟩ := h
    cases moved with
    | none =>
      simp only [StateT.run_pure, Tx.run_pure_eq_ok] at h
      obtain ⟨rfl, rfl⟩ := h
      obtain ⟨_, hdb⟩ | ⟨_, _, _, _, _, _, _, hres, _⟩ := markIntentAccepted_ok hacc
      · exact .inl ⟨rfl, hdb⟩
      · simp at hres
    | some accepted =>
      refine .inr ⟨current, accepted, db₁, rfl, hacc, ?_⟩
      cases hcl : trade.asClosed? with
      | none =>
        simp only [hcl, StateT.run_pure, Tx.run_pure_eq_ok] at h
        exact .inl ⟨rfl, h.1.symm, h.2.symm⟩
      | some closed =>
        simp only [hcl, Tx.run_bind_eq_ok] at h
        obtain ⟨settled, db₂, hset, h⟩ := h
        cases settled with
        | none => simp at h
        | some row =>
          simp only [StateT.run_pure, Tx.run_pure_eq_ok] at h
          obtain ⟨rfl, rfl⟩ := h
          exact .inr ⟨closed, row, rfl, rfl, hset⟩

/-- **What a reconciled conclusion can do**: an acceptance from `reconciling`, alone for an open trade
and followed by its settlement for a closed one. -/
theorem concludeReconciled_ok {id : IntentId} {v : ℕ} {trade : BrokerTrade}
    (h : (concludeReconciled now id v trade).run db = .ok (res, db')) :
    (res = none ∧ db' = db) ∨
      ∃ accepted db₁, (∃ transport, (markIntentAccepted now
          { id := id, expectedVersion := v, fromStatus := .reconciling
            transport := transport, trade := trade }).run db = .ok (some accepted, db₁)) ∧
        ((trade.asClosed? = none ∧ res = some accepted ∧ db' = db₁) ∨
          ∃ closed settled, trade.asClosed? = some closed ∧ res = some settled ∧
            (settleIntent now { id := id, expectedVersion := some accepted.version
                                fromStatus := .accepted, trade := closed }).run db₁ =
              .ok (some settled, db')) := by
  obtain hnone | ⟨current, accepted, db₁, -, hacc, hcases⟩ := concludeReconciled_accepts h
  · exact .inl hnone
  · exact .inr ⟨accepted, db₁, ⟨_, hacc⟩, hcases⟩

end Specs

end Binarius
