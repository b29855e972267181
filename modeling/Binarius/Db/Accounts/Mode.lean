import Mathlib.Tactic
import Binarius.Db.Accounts.Link

/-!
# Db.Accounts.Mode — the trading mode, its switch after a deposit, and the sessions
(packages/db/src: user-ops.ts, deposit-mode-switch-ops.ts, trading-session-ops.ts)

The audit rows are left out: no modelled function reads them; so are the session's settings, the direction
of its start signal, its stop reason, the handover of its waiting message and every clock column.

* `setTradingMode`: the user's own switch.
* `switchTradingModeOnDeposit`: the switch to real after a deposit; `caughtSwitch`: its rollback.
* `createTradingSession`, `stopTradingSession`, `stopUserSessions`.
-/

namespace Binarius

open Lib

structure SetTradingModeResult where
  tradingMode : TradeMode
  /-- false: the user was in that mode already, and nothing was written -/
  changed : Bool
  stoppedSessions : ℕ
  deriving DecidableEq, Repr

/-- What one attempt of the pass made of a deposit. -/
inductive DepositModeSwitchAttempt
  | closed (outcome : DepositModeSwitch)
  | sessionActive
  | gone
  deriving DecidableEq, Repr

structure CreateTradingSessionInput where
  /-- the owner the caller acts for -/
  telegramUserId : ℕ
  brokerAccountId : AccountId
  mode : TradeMode
  /-- the id drawn for the session -/
  newSessionId : SessionId
  deriving DecidableEq, Repr

def CreateTradingSessionInput.row (input : CreateTradingSessionInput) : TradingSessionRow where
  id := input.newSessionId
  brokerAccountId := input.brokerAccountId
  mode := input.mode
  status := .active

def CreateTradingSessionOptions.refuses (demoOnly : Bool) (mode : TradeMode) : Bool :=
  demoOnly && mode = .real

namespace AccountsDb

variable (db : AccountsDb)

/-- The active sessions on any account of the Telegram user, by the join. -/
def activeSessionsOf (telegramUserId : ℕ) : List SessionId :=
  (db.tradingSessions.rows.filter (fun session => session.status = .active &&
    ((db.sessionUser session).bind db.users.find?).any
      (fun user => user.telegramUserId = telegramUserId))).map (·.id)

/-- A session that is not stopped, on any account of the user. -/
def hasUnstoppedSession (userId : UserId) : Bool :=
  db.tradingSessions.rows.any (fun session => session.status ≠ .stopped && db.sessionUser session = some
    userId)

/-- The deposits of a user that wait for the switch. -/
def awaitingModeSwitch (userId : UserId) : List DepositKey :=
  (db.depositEvents.filter (fun deposit => deposit.owner.any (fun owner => owner.1 = userId) &&
    deposit.modeSwitch.isNone)).map DepositEventRow.key

end AccountsDb

def DepositEventRow.closed (outcome : DepositModeSwitch) (deposit : DepositEventRow) : DepositEventRow :=
  { deposit with modeSwitch := some outcome }

namespace AccountsTx

/-! ## The mode -/

/-- The one writer of `trading_mode`: nothing when the user is in that mode already. -/
def writeTradingMode (find : AccountsDb → Option UserId) (mode : TradeMode) : AccountsTx (Option UserId) :=
  .changeKey find AccountsLock.user (fun id db => (db.users.find? id).any (fun user =>
    user.tradingMode ≠ mode))
    (fun id => AccountsDb.updateUser id (fun user => { user with tradingMode := mode }))

/-- Every active session of the owner in one statement. -/
def stopUserSessions (telegramUserId : ℕ) : AccountsTx (List SessionId) :=
  .read (fun db =>
    .changeAll AccountsLock.session
      (fun id db => (db.tradingSessions.find? id).any (fun session => session.status = .active))
      AccountsDb.stopSession (db.activeSessionsOf telegramUserId))

/-- The row's outcome, if it has none yet; false: another writer was first. -/
def markDepositModeSwitch (depositEventId : DepositKey) (outcome : DepositModeSwitch) : AccountsTx Bool :=
  .change (.deposit depositEventId)
    (fun db => (db.deposit depositEventId).any (fun deposit => deposit.modeSwitch.isNone))
    (AccountsDb.updateDeposit depositEventId (DepositEventRow.closed outcome))

/-- Every waiting row of the user. -/
def markUserDepositModeSwitches (userId : UserId) (outcome : DepositModeSwitch) :
    AccountsTx (List DepositKey) :=
  .read (fun db =>
    .changeAll AccountsLock.deposit
      (fun key db => (db.deposit key).any (fun deposit =>
        deposit.owner.any (fun owner => owner.1 = userId) && deposit.modeSwitch.isNone))
      (fun key => AccountsDb.updateDeposit key (DepositEventRow.closed outcome))
      (db.awaitingModeSwitch userId))

/-- The user's own switch; a change stops the active sessions and closes the waiting deposits. -/
def setTradingMode (telegramUserId : ℕ) (mode : TradeMode) : AccountsTx (Option SetTradingModeResult) := do
  match ← writeTradingMode (fun db => (db.userOfTelegram telegramUserId).map (·.id)) mode with
  | some userId =>
    let stopped ← stopUserSessions telegramUserId
    let _ ← markUserDepositModeSwitches userId .superseded
    return some { tradingMode := mode, changed := true, stoppedSessions := stopped.length }
  | none =>
    let row ← .select (fun db => db.userOfTelegram telegramUserId)
    return row.map (fun user => { tradingMode := user.tradingMode, changed := false, stoppedSessions := 0 })

/-- The switch's decision, under the users lock. -/
def decideModeSwitch (userId : UserId) (accountId : AccountId) (user : UserRow) :
    AccountsTx DepositModeSwitchAttempt :=
  if user.status = .blocked then return .closed .userBlocked
  else if user.tradingMode = .real then return .closed .alreadyReal
  else do
    let account ← .select (fun db => db.brokerAccounts.find? accountId)
    if !account.any (fun account => account.status = .active) then return .closed .accountInactive
    else
      let session ← .select (fun db => db.hasUnstoppedSession userId)
      if session then return .sessionActive
      else
        match ← writeTradingMode (fun _ => some userId) .real with
        | some _ => return .closed .switched
        -- the mode was read as demo under this lock
        | none => .raise .vanished

/-- The switch to real after a deposit. -/
def switchTradingModeOnDeposit (depositEventId : DepositKey) (demoOnly : Bool) :
    AccountsTx DepositModeSwitchAttempt :=
  if demoOnly then do
    let marked ← markDepositModeSwitch depositEventId .demoOnly
    return if marked then .closed .demoOnly else .gone
  else do
    let deposit ← .select (fun db => db.deposit depositEventId)
    match deposit.bind (fun deposit => if deposit.modeSwitch.isNone then deposit.owner else none) with
    | none => return .gone
    | some (userId, accountId) =>
      match ← .selectFor (.user userId) .exclusive (fun db => db.users.find? userId) with
      | none => return .gone
      | some user =>
        match ← decideModeSwitch userId accountId user with
        | .closed outcome =>
          let marked ← markDepositModeSwitch depositEventId outcome
          -- another process closed the row since the read: this one rolls back
          if marked then return .closed outcome else .raise .depositModeSwitchGone
        | attempt => return attempt

/-! ## The sessions -/

def createTradingSession (input : CreateTradingSessionInput) (demoOnly : Bool) :
    AccountsTx TradingSessionRow :=
  if CreateTradingSessionOptions.refuses demoOnly input.mode then .raise .demoOnly
  else do
    let owner ← .select (fun db => ((db.brokerAccounts.find? input.brokerAccountId).bind
      (fun account => db.users.find? account.userId)).filter
        (fun user => user.telegramUserId = input.telegramUserId))
    match owner with
    | none => .raise .accountNotFound
    | some account =>
      -- a lock, not a read: a block or a mode switch would commit before the insert
      match ← .selectFor (.user account.id) .exclusive
        (fun db => (db.users.find? account.id).filter (fun user => user.status = .active)) with
      | none => .raise .userNotActive
      | some user =>
        if user.tradingMode ≠ input.mode then .raise .modeNotAllowed
        else
          match ← .selectFor (.account input.brokerAccountId) .exclusive
            (fun db => db.brokerAccounts.find? input.brokerAccountId) with
          | none => .raise .accountNotFound
          | some locked =>
            if locked.status = .revoked then .raise .accountRevoked
            else if locked.status = .pending then .raise .accountNotConfirmed
            else if locked.tradingHalted then .raise .accountHalted
            else
              -- a plain read: a close after it is caught by the stop of the paused sessions
              let switch ← .select (fun db => db.tradingSwitch)
              if switch ≠ some true then .raise .tradingPaused
              else
                -- trading_sessions_active_account_idx
                let inserted ← .insertNew (.activeSession input.brokerAccountId)
                  (.session input.newSessionId)
                  (fun db => db.tradingSessions.rows.all (fun session =>
                    session.brokerAccountId ≠ input.brokerAccountId || session.status ≠ .active))
                  (fun db => (db.tradingSessions.find? input.newSessionId).isNone)
                  (AccountsDb.insertSession input.row) .unique
                if inserted then return input.row else .raise .activeSessionExists

/-- A second stop finds nothing, and the first reason stays. -/
def stopTradingSession (id : SessionId) : AccountsTx Bool :=
  .change (.session id)
    (fun db => (db.tradingSessions.find? id).any (fun session => session.status = .active))
    (AccountsDb.stopSession id)

end AccountsTx

/-- The answer of a transaction that threw: `DepositModeSwitchGone` is caught. -/
def caughtSwitch : AccountsError → Option DepositModeSwitchAttempt
  | .depositModeSwitchGone => some .gone
  | _ => none

end Binarius
