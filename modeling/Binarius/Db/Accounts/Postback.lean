import Mathlib.Tactic
import Binarius.Db.Accounts.Link
import Binarius.Shared.Money

/-!
# Db.Accounts.Postback — the postback writer (packages/db/src/postback-ops.ts)

Every delivery is journaled except a repeat of a recorded postback id.  An amount is kept as it was written.

* `recordPostback`: the account under a shared lock, then `recordDeposit`.
* `caughtPostback`: a postback id that a concurrent delivery took undoes the deposit, and is a duplicate.
-/

namespace Binarius

open Lib

structure RecordPostbackInput where
  source : PostbackSource
  query : PostbackQuery
  secretKeyId : List Char
  deriving DecidableEq, Repr

/-- What a repeat carried otherwise than the deposit it repeats. -/
structure PostbackMismatch where
  amount : Bool
  traderId : Bool
  deriving DecidableEq, Repr

inductive RecordPostbackResult
  | recorded (postbackId : List Char) (event : PostbackEvent) (depositEventId : DepositKey)
    (attributed : Bool)
  | repeated (postbackId : List Char) (event : PostbackEvent) (depositEventId : DepositKey)
      (mismatch : Option PostbackMismatch)
  | duplicate (postbackId : List Char) (event : PostbackEvent)
  | rejected (reason : PostbackRejectReason) (postbackId : Option (List Char))
    (event : Option PostbackEvent)
  deriving DecidableEq, Repr

/-- The pair that a deposit is attributed to: a pending account is an unconfirmed claim. -/
def depositOwner (account : Option LinkedAccountRow) : Option (UserId × AccountId) :=
  (account.filter (fun a => a.status ≠ .pending)).map (fun a => (a.userId, a.id))

def RecordPostbackInput.depositRow (input : RecordPostbackInput) (paymentId traderId : List Char)
    (amount : DecimalString) (coin : Option (List Char)) (account : Option LinkedAccountRow) :
    DepositEventRow where
  source := input.source
  paymentId := paymentId
  brokerUserId := traderId
  amount := amount
  currency := coin
  owner := depositOwner account
  modeSwitch := none
  found := account.map (·.id)

def RecordPostbackInput.rejectedRow (input : RecordPostbackInput) (reason : PostbackRejectReason)
    (postbackId : Option (List Char)) (event : Option PostbackEvent) : PostbackDeliveryRow where
  source := input.source
  postbackId := postbackId
  event := event
  outcome := .rejected
  rejectReason := some reason
  depositEventId := none
  payload := input.query
  secretKeyId := input.secretKeyId

def RecordPostbackInput.deliveryRow (input : RecordPostbackInput) (postbackId : List Char)
    (event : PostbackEvent) (recorded : Bool) (depositEventId : DepositKey) : PostbackDeliveryRow where
  source := input.source
  postbackId := some postbackId
  event := some event
  outcome := if recorded then .recorded else .repeated
  rejectReason := none
  depositEventId := some depositEventId
  payload := input.query
  secretKeyId := input.secretKeyId

def depositMismatch (stored : DepositEventRow) (traderId : List Char) (amount : DecimalString) :
    Option PostbackMismatch :=
  if normalizeDecimal stored.amount = normalizeDecimal amount ∧ stored.brokerUserId = traderId then none
  else some ⟨normalizeDecimal stored.amount ≠ normalizeDecimal amount, stored.brokerUserId ≠ traderId⟩

namespace AccountsTx

/-- The deposit under its payment's key, then the journal row under its postback id's. -/
def recordDeposit (input : RecordPostbackInput) (postbackId : List Char) (event : PostbackEvent)
    (paymentId traderId : List Char) (amount : DecimalString) (coin : Option (List Char))
    (account : Option LinkedAccountRow) : AccountsTx RecordPostbackResult := do
  let inserted ← .change (.deposit (input.source, paymentId))
    (fun db => (db.deposit (input.source, paymentId)).isNone)
    (AccountsDb.insertDeposit (input.depositRow paymentId traderId amount coin account))
  if inserted then
    let delivery ← .change (.delivery input.source postbackId)
      (fun db => !db.journaled input.source postbackId)
      (AccountsDb.insertDelivery (input.deliveryRow postbackId event true (input.source, paymentId)))
    if delivery then
      return .recorded postbackId event (input.source, paymentId) (depositOwner account).isSome
    -- a concurrent delivery of this postback id committed first: undo the deposit
    else .raise .postbackIdTaken
  else
    let some stored ← .select (fun db => db.deposit (input.source, paymentId)) | .raise .vanished
    let delivery ← .change (.delivery input.source postbackId)
      (fun db => !db.journaled input.source postbackId)
      (AccountsDb.insertDelivery (input.deliveryRow postbackId event false (input.source, paymentId)))
    if delivery then
      return .repeated postbackId event (input.source, paymentId) (depositMismatch stored traderId amount)
    else return .duplicate postbackId event

def recordPostback (input : RecordPostbackInput) : AccountsTx RecordPostbackResult :=
  match classifyPostback input.query with
  | .rejected reason postbackId event =>
    .write (AccountsDb.insertDelivery (input.rejectedRow reason postbackId event))
      (.ret (.rejected reason postbackId event))
  | .deposit postbackId event paymentId traderId amount coin => do
    -- a plain re-delivery takes no lock; the guard is the journal's key
    let seen ← .select (fun db => db.journaled input.source postbackId)
    if seen then return .duplicate postbackId event
    else
      let account ← .selectForKey (fun db => (db.accountOfBrokerUser traderId).map (·.id))
        AccountsLock.account .share (fun id db => db.brokerAccounts.find? id)
      recordDeposit input postbackId event paymentId traderId amount coin account

end AccountsTx

/-- The answer of a transaction that threw: `PostbackIdTaken` is caught. -/
def caughtPostback (input : RecordPostbackInput) (e : AccountsError) : Option RecordPostbackResult :=
  match e, classifyPostback input.query with
  | .postbackIdTaken, .deposit postbackId event _ _ _ _ => some (.duplicate postbackId event)
  | _, _ => none

end Binarius
