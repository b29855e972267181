import Mathlib.Tactic
import Binarius.Db.Accounts.Bonus

/-!
# Db.Accounts.Link — logins, confirmations and the activation's credits
(packages/db/src: oauth-ops.ts, user-ops.ts, postback-ops.ts, trade-intent-ops.ts)

The tokens, their ciphertext and the email are left out: no modelled function reads them.  A random id is
an argument of the call that draws it.

* `linkBrokerAccount`: the email login (`activate`) and the OAuth callback.
* `confirmBrokerAccount`: the Telegram user confirms a pending account.
* `attachDepositsToAccount`: the trader's deposits that no account owned.
* `setUserStatus`, `revokeAccount`, `haltAccountForManualReview`: the other writers of users and accounts.
-/

namespace Binarius

open Lib

structure LinkBrokerAccountInput where
  telegramUserId : ℕ
  /-- the broker's user and its partner flag, from the token answer -/
  brokerUserId : List Char
  isPartnerClient : Bool
  activate : Bool
  /-- the ids drawn for a new user and a new account -/
  newUserId : UserId
  candidateId : AccountId

inductive LinkRefusal
  | brokerAccountTaken
  | userBlocked
  deriving DecidableEq, Repr

inductive LinkResult
  | linked (account : LinkedAccountRow) (grant : Option LinkBonusGrant) (referral : Option ReferralRewardResult)
  | refused (reason : LinkRefusal)
  deriving DecidableEq, Repr

inductive ConfirmRefusal
  | userBlocked
  | notFound
  | notPending
  deriving DecidableEq, Repr

inductive ConfirmResult
  | confirmed (account : LinkedAccountRow) (grant : LinkBonusGrant) (referral : ReferralRewardResult)
  | refused (reason : ConfirmRefusal)
  deriving DecidableEq, Repr

/-- A user as the tables' defaults make it. -/
def newUserRow (id : UserId) (telegramUserId : ℕ) : UserRow :=
  { id, telegramUserId, status := .active, tradingMode := .demo, tokenBalance := 0, tokenReserved := 0 }

/-- The deposits of a trader that no account owns. -/
def AccountsDb.unattributed (brokerUserId : List Char) (db : AccountsDb) : List DepositKey :=
  (db.depositEvents.filter (fun deposit => deposit.source = .binodex && deposit.brokerUserId = brokerUserId &&
    deposit.owner.isNone)).map DepositEventRow.key

def attached (owner : UserId × AccountId) (deposit : DepositEventRow) : DepositEventRow :=
  { deposit with owner := some owner }

def LinkBrokerAccountInput.row (input : LinkBrokerAccountInput) (userId : UserId) : LinkedAccountRow where
  id := input.candidateId
  userId := userId
  brokerUserId := input.brokerUserId
  isPartnerClient := input.isPartnerClient
  status := if input.activate then .active else .pending
  tradingHalted := false

/-- A login over an account that exists: a callback does not activate what nobody confirmed. -/
def LinkBrokerAccountInput.relogin (input : LinkBrokerAccountInput) (account : LinkedAccountRow) :
    LinkedAccountRow :=
  { account with
    isPartnerClient := input.isPartnerClient
    status := if !input.activate && account.status = .pending then .pending else .active }

namespace AccountsTx

/-- A blocked user does not become active by logging in again; `none` means blocked. -/
def upsertUser (telegramUserId : ℕ) (newUserId : UserId) : AccountsTx (Option UserId) := do
  match ← .selectForKey (fun db => (db.userOfTelegram telegramUserId).map (·.id)) AccountsLock.user .exclusive
    (fun id db => db.users.find? id) with
  | some existing => return if existing.status = .blocked then none else some existing.id
  | none =>
    let created ← .insertNew (.telegram telegramUserId) (.user newUserId)
      (fun db => (db.userOfTelegram telegramUserId).isNone) (fun db => (db.users.find? newUserId).isNone)
      (AccountsDb.insertUser (newUserRow newUserId telegramUserId)) .unique
    if created then return some newUserId
    else
      -- lost the race: the row exists now, read it under the same lock
      match ← .selectForKey (fun db => (db.userOfTelegram telegramUserId).map (·.id)) AccountsLock.user .exclusive
        (fun id db => db.users.find? id) with
      | some raced => return if raced.status = .blocked then none else some raced.id
      | none => .raise .vanished

/-- One statement: a row attached meanwhile no longer matches. -/
def attachDepositsToAccount (accountId : AccountId) (userId : UserId) (brokerUserId : List Char) :
    AccountsTx (List DepositKey) :=
  .read (fun db =>
    .changeAll AccountsLock.deposit
      (fun key db => (db.deposit key).any (fun deposit => deposit.source = .binodex &&
        deposit.brokerUserId = brokerUserId && deposit.owner.isNone))
      (fun key => AccountsDb.updateDeposit key (attached (userId, accountId)))
      (db.unattributed brokerUserId))

def creditActivation (now : UnixMs) (activate : Bool) (userId : UserId) (account : LinkedAccountRow)
    (inviter : ReferralInviter) : AccountsTx (Option LinkBonusGrant × Option ReferralRewardResult) :=
  if activate then do
    let _ ← attachDepositsToAccount account.id userId account.brokerUserId
    let grant ← grantLinkBonus now userId account
    let referral ← grantReferralReward now inviter account
    return (some grant, some referral)
  else if account.status = .active then do
    let referral ← grantReferralReward now inviter account
    return (none, some referral)
  else return (none, none)

def linkBrokerAccount (now : UnixMs) (input : LinkBrokerAccountInput) : AccountsTx LinkResult := do
  let some userId ← upsertUser input.telegramUserId input.newUserId | return .refused .userBlocked
  let inviter ← lockReferralInviter userId
  let inserted ← .insertNew (.brokerUser input.brokerUserId) (.account input.candidateId)
    (fun db => (db.accountOfBrokerUser input.brokerUserId).isNone)
    (fun db => (db.brokerAccounts.find? input.candidateId).isNone)
    (AccountsDb.insertAccount (input.row userId)) .unique
  if inserted then
    let (grant, referral) ← creditActivation now input.activate userId (input.row userId) inviter
    return .linked (input.row userId) grant referral
  else
    let some existing ← .selectForKey (fun db => (db.accountOfBrokerUser input.brokerUserId).map (·.id))
      AccountsLock.account .exclusive (fun id db => db.brokerAccounts.find? id) | .raise .vanished
    if existing.userId ≠ userId then return .refused .brokerAccountTaken
    else
      let updated ← .change (.account existing.id) (fun db => (db.brokerAccounts.find? existing.id).isSome)
        (AccountsDb.updateAccount existing.id input.relogin)
      if updated then
        let (grant, referral) ← creditActivation now input.activate userId (input.relogin existing) inviter
        return .linked (input.relogin existing) grant referral
      else .raise .vanished

def confirmBrokerAccount (now : UnixMs) (telegramUserId : ℕ) (accountId : AccountId) :
    AccountsTx ConfirmResult := do
  let some user ← .selectForKey (fun db => (db.userOfTelegram telegramUserId).map (·.id)) AccountsLock.user
    .exclusive (fun id db => db.users.find? id) | return .refused .notFound
  if user.status = .blocked then return .refused .userBlocked
  else
    let inviter ← lockReferralInviter user.id
    -- ownership is part of the lookup: a row that is not theirs is as one that is gone
    let some account ← .selectFor (.account accountId) .exclusive
      (fun db => (db.brokerAccounts.find? accountId).filter (fun account => account.userId = user.id))
      | return .refused .notFound
    if account.status ≠ .pending then return .refused .notPending
    else
      let confirmed ← .change (.account account.id) (fun db => (db.brokerAccounts.find? account.id).isSome)
        (AccountsDb.updateAccount account.id (fun account => { account with status := .active }))
      if confirmed then
        let active := { account with status := .active }
        let _ ← attachDepositsToAccount active.id user.id active.brokerUserId
        let grant ← grantLinkBonus now user.id account
        let referral ← grantReferralReward now inviter account
        return .confirmed active grant referral
      else .raise .vanished

/-! ## The other writers of users and accounts -/

/-- The `/start` that creates a user, with the referral of its start link. -/
def recordUserStart (row : UserRow) (referral : Option ReferralRow) : AccountsTx Bool := do
  let inserted ← .insertNew (.telegram row.telegramUserId) (.user row.id)
    (fun db => (db.userOfTelegram row.telegramUserId).isNone) (fun db => (db.users.find? row.id).isNone)
    (AccountsDb.insertUser row) .unique
  if inserted then
    match referral with
    | some referral => TxProg.write (AccountsDb.insertReferral referral) (.ret true)
    | none => return true
  else return false

/-- A block or an unblock. -/
def setUserStatus (id : UserId) (status : UserStatus) : AccountsTx Bool :=
  .change (.user id) (fun db => (db.users.find? id).any (fun user => user.status ≠ status))
    (AccountsDb.updateUser id (fun user => { user with status := status }))

/-- A revocation finds the account active under its row lock. -/
def revokeAccount (id : AccountId) : AccountsTx Bool :=
  .change (.account id) (fun db => (db.brokerAccounts.find? id).any (fun account => account.status = .active))
    (AccountsDb.updateAccount id (fun account => { account with status := .revoked }))

/-- The halt of an account, under its row's lock.  The intent moves to manual review in between, in its own
table: `reviewed` is whether its compare-and-set found the version. -/
def haltAccountForManualReview (accountId : AccountId) (reviewed : Bool) : AccountsTx Bool := do
  let some account ← .selectFor (.account accountId) .exclusive
      (fun db => db.brokerAccounts.find? accountId)
    | return false
  if reviewed then
    let _ ← .change (.account account.id) (fun db => (db.brokerAccounts.find? account.id).isSome)
      (AccountsDb.updateAccount account.id (fun account => { account with tradingHalted := true }))
    return true
  else return false

end AccountsTx

end Binarius
