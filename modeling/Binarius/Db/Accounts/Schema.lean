import Mathlib.Tactic
import Binarius.Db.Schema
import Binarius.Lib.ReadCommitted
import Binarius.Lib.Rows
import Binarius.Shared.Bonus
import Binarius.Shared.Postback

/-!
# Db.Accounts.Schema — users, broker accounts, bonuses, deposits and sessions (packages/db/src/schema)

The tables that the logins, the bonus rules, the postbacks and the trading mode share, with the columns their
writers read or write.  A bonus rule version is named by its code and version, a deposit by its source and
payment: the unique keys; a referral by its invitee's row id.

* `AccountsDb`, its lookups and its single-table writes.
* `AccountsLock`: the rows and the unique keys that the statements lock.
-/

namespace Binarius

open Lib

abbrev ReferralId := ℕ

structure LinkedAccountRow where
  id : AccountId
  userId : UserId
  brokerUserId : List Char
  isPartnerClient : Bool
  status : BrokerAccountStatus
  tradingHalted : Bool
  deriving DecidableEq, Repr

structure ReferralRow where
  id : ReferralId
  inviteeUserId : UserId
  inviterUserId : UserId
  deriving DecidableEq, Repr

structure BonusRuleRow where
  code : String
  version : ℕ
  kind : BonusRuleKind
  isActive : Bool
  params : RawParams
  validFrom : Option UnixMs
  validTo : Option UnixMs
  deriving DecidableEq, Repr

abbrev BonusRuleId := String × ℕ

def BonusRuleRow.id (rule : BonusRuleRow) : BonusRuleId := (rule.code, rule.version)

/-- A bonus of the token ledger: the starter pack names the account, the inviter's reward the referral. -/
structure BonusLedgerRow where
  userId : UserId
  balanceDelta : ℤ
  brokerAccountId : Option AccountId
  referralId : Option ReferralId
  bonusRuleId : BonusRuleId
  bonusRuleKind : BonusRuleKind
  deriving DecidableEq, Repr

/-- What the switch to real after a deposit made of it. -/
inductive DepositModeSwitch
  | switched
  | alreadyReal
  | userBlocked
  | accountInactive
  | demoOnly
  | superseded
  deriving DecidableEq, Repr

abbrev DepositKey := PostbackSource × List Char

structure DepositEventRow where
  source : PostbackSource
  paymentId : List Char
  brokerUserId : List Char
  amount : DecimalString
  currency : Option (List Char)
  /-- user_id and broker_account_id, set together -/
  owner : Option (UserId × AccountId)
  modeSwitch : Option DepositModeSwitch
  /-- a history variable, which no statement reads: the account row that the delivery found and locked -/
  found : Option AccountId
  deriving DecidableEq, Repr

def DepositEventRow.key (deposit : DepositEventRow) : DepositKey := (deposit.source, deposit.paymentId)

inductive PostbackDeliveryOutcome
  | recorded
  | repeated
  | rejected
  deriving DecidableEq, Repr

structure PostbackDeliveryRow where
  source : PostbackSource
  postbackId : Option (List Char)
  event : Option PostbackEvent
  outcome : PostbackDeliveryOutcome
  rejectReason : Option PostbackRejectReason
  depositEventId : Option DepositKey
  payload : PostbackQuery
  secretKeyId : List Char
  deriving DecidableEq, Repr

/-- The partial unique index's predicate. -/
def PostbackDeliveryRow.notRejected (delivery : PostbackDeliveryRow) : Bool := delivery.outcome ≠ .rejected

instance : Keyed LinkedAccountRow AccountId := ⟨LinkedAccountRow.id⟩

/-- The committed state of these tables. -/
structure AccountsDb where
  users : Table UserRow
  brokerAccounts : Table LinkedAccountRow
  referrals : List ReferralRow
  bonusRules : List BonusRuleRow
  bonusLedger : List BonusLedgerRow
  depositEvents : List DepositEventRow
  postbackDeliveries : List PostbackDeliveryRow
  tradingSessions : Table TradingSessionRow
  /-- `trading_enabled` of the switch's one row; a missing row reads as closed. -/
  tradingSwitch : Option Bool

/-- The rows and the unique keys that the statements lock. -/
inductive AccountsLock
  | user (id : UserId)
  | telegram (telegramUserId : ℕ)
  | account (id : AccountId)
  | brokerUser (brokerUserId : List Char)
  | deposit (key : DepositKey)
  | delivery (source : PostbackSource) (postbackId : List Char)
  | linkBonus (userId : UserId)
  | referralReward (referralId : ReferralId)
  | rule (id : BonusRuleId)
  | activeRule (code : String)
  | session (id : SessionId)
  | activeSession (accountId : AccountId)
  | tradingSwitch
  deriving DecidableEq, Repr

/-- What a transaction can throw. -/
inductive AccountsError
  | unique
  | vanished
  | invalidBonusRule (code : String)
  | postbackIdTaken
  | depositModeSwitchGone
  | demoOnly
  | accountNotFound
  | userNotActive
  | modeNotAllowed
  | accountRevoked
  | accountNotConfirmed
  | accountHalted
  | tradingPaused
  | activeSessionExists
  deriving DecidableEq, Repr

abbrev AccountsTx (α : Type) := TxProg AccountsDb AccountsLock AccountsError α

namespace AccountsDb

/-! ## Lookups -/

section Lookups

variable (db : AccountsDb)

def userOfTelegram (telegramUserId : ℕ) : Option UserRow :=
  db.users.rows.find? (fun user => user.telegramUserId = telegramUserId)

def accountOfBrokerUser (brokerUserId : List Char) : Option LinkedAccountRow :=
  db.brokerAccounts.rows.find? (fun account => account.brokerUserId = brokerUserId)

def referralOf (inviteeUserId : UserId) : Option ReferralRow :=
  db.referrals.find? (fun referral => referral.inviteeUserId = inviteeUserId)

def deposit (key : DepositKey) : Option DepositEventRow := rowAt DepositEventRow.key db.depositEvents key

def rule (id : BonusRuleId) : Option BonusRuleRow := rowAt BonusRuleRow.id db.bonusRules id

def hasLinkBonus (userId : UserId) : Bool :=
  db.bonusLedger.any (fun row => row.userId = userId && row.brokerAccountId.isSome)

def hasReward (referralId : ReferralId) : Bool :=
  db.bonusLedger.any (fun row => row.referralId = some referralId)

/-- A delivery of the postback id that was not rejected is journaled. -/
def journaled (source : PostbackSource) (postbackId : List Char) : Bool :=
  db.postbackDeliveries.any (fun delivery => delivery.source = source && delivery.postbackId = some postbackId &&
    delivery.notRejected)

/-- The user a session's account belongs to. -/
def sessionUser (session : TradingSessionRow) : Option UserId :=
  (db.brokerAccounts.find? session.brokerAccountId).map (·.userId)

def balance (userId : UserId) : ℤ := ((db.users.find? userId).map (·.tokenBalance)).getD 0

end Lookups

/-! ## Writes -/

section Writes

def insertUser (row : UserRow) (db : AccountsDb) : AccountsDb := { db with users := db.users.inserted row }

def updateUser (id : UserId) (f : UserRow → UserRow) (db : AccountsDb) : AccountsDb :=
  { db with users := db.users.modified id f }

def insertAccount (row : LinkedAccountRow) (db : AccountsDb) : AccountsDb :=
  { db with brokerAccounts := db.brokerAccounts.inserted row }

def updateAccount (id : AccountId) (f : LinkedAccountRow → LinkedAccountRow) (db : AccountsDb) : AccountsDb :=
  { db with brokerAccounts := db.brokerAccounts.modified id f }

def insertReferral (row : ReferralRow) (db : AccountsDb) : AccountsDb :=
  { db with referrals := row :: db.referrals }

def insertRule (row : BonusRuleRow) (db : AccountsDb) : AccountsDb :=
  { db with bonusRules := row :: db.bonusRules }

def setRuleActive (id : BonusRuleId) (isActive : Bool) (db : AccountsDb) : AccountsDb :=
  { db with bonusRules := modifyAt BonusRuleRow.id id (fun rule => { rule with isActive := isActive }) db.bonusRules }

def insertBonus (row : BonusLedgerRow) (db : AccountsDb) : AccountsDb :=
  { db with bonusLedger := row :: db.bonusLedger }

def insertDeposit (row : DepositEventRow) (db : AccountsDb) : AccountsDb :=
  { db with depositEvents := row :: db.depositEvents }

def updateDeposit (key : DepositKey) (f : DepositEventRow → DepositEventRow) (db : AccountsDb) : AccountsDb :=
  { db with depositEvents := modifyAt DepositEventRow.key key f db.depositEvents }

def insertDelivery (row : PostbackDeliveryRow) (db : AccountsDb) : AccountsDb :=
  { db with postbackDeliveries := row :: db.postbackDeliveries }

def insertSession (row : TradingSessionRow) (db : AccountsDb) : AccountsDb :=
  { db with tradingSessions := db.tradingSessions.inserted row }

def stopSession (id : SessionId) (db : AccountsDb) : AccountsDb :=
  { db with tradingSessions := db.tradingSessions.modified id (fun session => { session with status := .stopped }) }

end Writes

end AccountsDb

end Binarius
