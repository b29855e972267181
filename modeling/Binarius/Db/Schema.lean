import Mathlib.Tactic
import Binarius.Lib.Tx
import Binarius.Lib.Table
import Binarius.Shared.Trading

/-!
# Db.Schema — the rows and tables of the trading database (packages/db/src/schema)

The columns are those the modelled operations read or write.  A table is keyed by the unique key its
writers rely on: an outbox row by `(topic, intent)`, a Stars payment by its charge id, a broker trade
by `(account, trade id)`.  The `CHECK`s are left out: what holds of the rows is proved of the writers,
not assumed of the database.  The ledger is append-only: a list, newest row first.

* `Db.post`: one ledger row together with the same move of its user's cached counters.  Every writer
  of the ledger is shown to write by it.
-/

namespace Binarius

open Lib

structure UserRow where
  id : UserId
  telegramUserId : ℕ
  status : UserStatus
  tradingMode : TradeMode
  tokenBalance : ℤ
  tokenReserved : ℤ
  deriving DecidableEq, Repr

inductive AccountHaltReason
  | reconciliationAmbiguous
  | reconciliationNotFound
  | tradeMismatch
  deriving DecidableEq, Repr

structure BrokerAccountRow where
  id : AccountId
  userId : UserId
  status : BrokerAccountStatus
  tradingHalted : Bool
  haltedReason : Option AccountHaltReason
  deriving DecidableEq, Repr

structure BalanceSnapshotRow where
  brokerAccountId : AccountId
  minTradeAmount : DecimalString
  demoAvailable : DecimalString
  realAvailable : DecimalString
  deriving DecidableEq, Repr

structure TradingSessionRow where
  id : SessionId
  brokerAccountId : AccountId
  mode : TradeMode
  status : TradingSessionStatus
  deriving DecidableEq, Repr

structure TradeIntentRow where
  id : IntentId
  brokerAccountId : AccountId
  userId : UserId
  mode : TradeMode
  assetId : ℕ
  amount : DecimalString
  action : TradeAction
  durationSec : ℕ
  clientRequestId : String
  tradingSessionId : Option SessionId
  submitDeadlineAt : Option UnixMs
  submitNotBeforeAt : Option UnixMs
  signalDecisionId : Option ℕ
  status : TradeIntentStatus
  version : ℕ
  tokensReserved : ℤ
  transport : Option TradeTransport
  submittedAt : Option UnixMs
  lastError : Option TradeIntentFailureReason
  reconcileClaimedAt : Option UnixMs
  createdAt : UnixMs
  updatedAt : UnixMs
  deriving DecidableEq, Repr

inductive TokenLedgerKind
  | purchase
  | bonus
  | reserve
  | release
  | settle
  | adjustment
  | refund
  deriving DecidableEq, Repr

structure TokenLedgerRow where
  userId : UserId
  kind : TokenLedgerKind
  balanceDelta : ℤ := 0
  reservedDelta : ℤ := 0
  intentId : Option IntentId := none
  starPaymentId : Option String := none
  note : Option (List Char) := none
  deriving DecidableEq, Repr

inductive OutboxTopic
  | tradingIntents
  | tradingReconciliation
  deriving DecidableEq, Repr

inductive OutboxStatus
  | pending
  | published
  | failed
  deriving DecidableEq, Repr

structure OutboxEventRow where
  topic : OutboxTopic
  intentId : IntentId
  status : OutboxStatus
  attempts : ℕ
  availableAt : UnixMs
  publishedAt : Option UnixMs
  lastError : Option TradeIntentFailureReason
  deriving DecidableEq, Repr

inductive StarPaymentStatus
  | paid
  | held
  | refunded
  deriving DecidableEq, Repr

structure StarPaymentRow where
  telegramPaymentChargeId : String
  userId : UserId
  providerPaymentChargeId : Option String
  packageCode : String
  currency : String
  totalAmount : ℤ
  tokens : Option ℤ
  payerTelegramUserId : ℕ
  status : StarPaymentStatus
  paidAt : UnixMs
  refundedAt : Option UnixMs
  deriving DecidableEq, Repr

inductive BrokerTradeStatus
  | open
  | closed
  deriving DecidableEq, Repr

structure BrokerTradeRow where
  brokerAccountId : AccountId
  intentId : Option IntentId
  brokerTradeId : String
  mode : TradeMode
  assetId : ℕ
  action : TradeAction
  amount : DecimalString
  openTimestampMs : UnixMs
  closing : Option TradeClose
  status : BrokerTradeStatus
  deriving DecidableEq, Repr

instance : Keyed UserRow UserId := ⟨UserRow.id⟩
instance : Keyed BrokerAccountRow AccountId := ⟨BrokerAccountRow.id⟩
instance : Keyed BalanceSnapshotRow AccountId := ⟨BalanceSnapshotRow.brokerAccountId⟩
instance : Keyed TradingSessionRow SessionId := ⟨TradingSessionRow.id⟩
instance : Keyed TradeIntentRow IntentId := ⟨TradeIntentRow.id⟩
instance : Keyed OutboxEventRow (OutboxTopic × IntentId) := ⟨fun r => (r.topic, r.intentId)⟩
instance : Keyed StarPaymentRow String := ⟨StarPaymentRow.telegramPaymentChargeId⟩
instance : Keyed BrokerTradeRow (AccountId × String) := ⟨fun r => (r.brokerAccountId, r.brokerTradeId)⟩

/-- The committed state of the database. -/
structure Db where
  users : Table UserRow
  brokerAccounts : Table BrokerAccountRow
  brokerBalanceSnapshots : Table BalanceSnapshotRow
  tradingSessions : Table TradingSessionRow
  /-- `trading_enabled` of the switch's one row; a missing row reads as closed. -/
  tradingSwitch : Option Bool
  tradeIntents : Table TradeIntentRow
  tokenLedger : List TokenLedgerRow
  outboxEvents : Table OutboxEventRow
  starPayments : Table StarPaymentRow
  brokerTrades : Table BrokerTradeRow

/-- A user's cached counters moved by a ledger row. -/
def UserRow.posted (user : UserRow) (row : TokenLedgerRow) : UserRow :=
  { user with
    tokenBalance := user.tokenBalance + row.balanceDelta
    tokenReserved := user.tokenReserved + row.reservedDelta }

namespace Db

def find (db : Db) (id : IntentId) : Option TradeIntentRow := db.tradeIntents.find? id

/-- The row of an intent, written. -/
def setIntent (db : Db) (row : TradeIntentRow) : Db :=
  { db with tradeIntents := db.tradeIntents.put row }

/-- A ledger row and the move of its user's cached counters. -/
def post (db : Db) (user : UserRow) (row : TokenLedgerRow) : Db :=
  { db with
    tokenLedger := row :: db.tokenLedger
    users := db.users.put (user.posted row) }

end Db

theorem Db.find_id {db : Db} {id : IntentId} {row : TradeIntentRow} (h : db.find id = some row) :
    row.id = id := Table.key_of_find? h

/-- The row of an id, found by the row's own id. -/
theorem Db.find_self {db : Db} {id : IntentId} {row : TradeIntentRow} (h : db.find id = some row) :
    db.find row.id = some row := by
  rw [Db.find_id h]
  exact h

inductive TradeMismatchReason
  | mode
  | asset
  | action
  | amount
  /-- the broker trade is linked to another intent, or this intent to another trade -/
  | tradeAlreadyLinked
  deriving DecidableEq, Repr

/-- The unique indexes whose violation a writer tells apart. -/
inductive UniqueIndex
  | tradeIntentsPkey
  | tradeIntentsUserRequest
  | tradeIntentsActiveAccount
  | outboxEventsTopicIntent
  deriving DecidableEq, Repr

/-- What a transaction can throw. -/
inductive TxError
  | tradeIntent (code : TradeIntentErrorCode)
  | tradingSessionNotActive (sessionId : SessionId)
  | mismatch (reason : TradeMismatchReason) (intentId : IntentId) (brokerTradeId : String)
  | unique (index : UniqueIndex)
  | illegalTransition (fromStatus toStatus : TradeIntentStatus)
  | underflow (userId : UserId)
  | invalidTokenAdjustment
  /-- an assertion of the source that a row read under its own lock is still there -/
  | vanished
  deriving DecidableEq, Repr

/-- A transaction over the database. -/
abbrev DbTx (α : Type) := Tx Db TxError α

namespace DbTx

variable {α : Type}

/-- A statement that writes and returns nothing. -/
def write (f : Db → Db) : DbTx Unit := fun db => .ok ((), f db)

/-- Throw unless the condition holds. -/
def require (c : Bool) (e : TxError) : DbTx Unit := if c then pure () else Tx.fail e

/-- Throw unless there is a row. -/
def demand (o : Option α) (e : TxError) : DbTx α :=
  match o with
  | some a => pure a
  | none => Tx.fail e

/-- `if (c) await t`. -/
def onlyIf (c : Prop) [Decidable c] (t : DbTx Unit) : DbTx Unit := if c then t else pure ()

@[simp] theorem run_write_eq_ok {f : Db → Db} {db db' : Db} {u : Unit} :
    (write f).run db = .ok (u, db') ↔ f db = db' := by
  simp [write, StateT.run]

@[simp] theorem run_require_eq_ok {c : Bool} {e : TxError} {db db' : Db} {u : Unit} :
    (require c e).run db = .ok (u, db') ↔ c = true ∧ db = db' := by
  unfold require
  by_cases h : c = true <;> simp [h]

@[simp] theorem run_demand_eq_ok {o : Option α} {e : TxError} {db db' : Db} {a : α} :
    (demand o e).run db = .ok (a, db') ↔ o = some a ∧ db = db' := by
  unfold demand
  cases o <;> simp

theorem run_onlyIf_eq_ok {c : Prop} [Decidable c] {t : DbTx Unit} {db db' : Db} {u : Unit} :
    (onlyIf c t).run db = .ok (u, db') ↔ (c ∧ t.run db = .ok (u, db')) ∨ (¬ c ∧ db' = db) := by
  unfold onlyIf
  by_cases h : c
  · simp [h]
  · rw [if_neg h, StateT.run_pure, Tx.run_pure_eq_ok]
    constructor
    · rintro ⟨_, rfl⟩
      exact .inr ⟨h, rfl⟩
    · rintro (⟨hc, _⟩ | ⟨_, rfl⟩)
      · exact absurd hc h
      · exact ⟨rfl, rfl⟩

end DbTx

end Binarius
