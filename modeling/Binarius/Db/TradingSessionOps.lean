import Mathlib.Tactic
import Binarius.Lib.Digits
import Binarius.Shared.TradingSession
import Binarius.Db.TradeIntentOps.Create

/-!
# Db.TradingSessionOps — the history a session's creator reads, its intent and its stop
(packages/db/src/trading-session-ops.ts)

`readSessionBatch` is two statements: the session's owner and balance, then its intents.  What the
database clock says of the session is an argument of the first.

* `sessionRequestId_injective`: **a step key names one step of one session.**
* `createInTransaction_eq`: **a creation in its three parts**, which other transactions may separate:
  the user and the replay, the switch and the account, and from the lock of the users row to the commit.
* `writeIntent_ok`: what the last part checks under its locks, and what it writes.
-/

namespace Binarius

open Lib

/-- The step key of `createSessionIntent`. -/
def sessionRequestId (sessionId : SessionId) (step : ℕ) : String := s!"session:{sessionId}:{step}"

structure SessionBalanceRead where
  available : DecimalString
  minTradeAmount : DecimalString
  awaitsBalance : Bool
  deriving DecidableEq, Repr

/-- The first statement's row of a session. -/
structure SessionOwnerRead where
  telegramUserId : ℕ
  expired : Bool
  waitExpired : Bool
  balance : Option SessionBalanceRead
  deriving DecidableEq, Repr

structure SessionBatchRead where
  history : SessionHistory
  balance : Option SessionBalanceRead
  deriving DecidableEq, Repr

/-- What the database clock answers about a session. -/
structure SessionClockRead where
  expired : Bool
  waitExpired : Bool
  awaitsBalance : Bool
  deriving DecidableEq, Repr

/-- The session, its account and the account's owner, with the balance of the session's mode. -/
def readSessionOwner (db : Db) (id : SessionId) (clock : SessionClockRead) : Option SessionOwnerRead := do
  let session ← db.tradingSessions.find? id
  let account ← db.brokerAccounts.find? session.brokerAccountId
  let user ← db.users.find? account.userId
  return {
    telegramUserId := user.telegramUserId
    expired := clock.expired
    waitExpired := clock.waitExpired
    balance := (db.brokerBalanceSnapshots.find? session.brokerAccountId).map (fun snapshot =>
      { available := if session.mode = .real then snapshot.realAvailable else snapshot.demoAvailable
        minTradeAmount := snapshot.minTradeAmount
        awaitsBalance := clock.awaitsBalance }) }

/-- `ORDER BY created_at, id`. -/
def createdBefore (a b : TradeIntentRow) : Prop :=
  a.createdAt < b.createdAt ∨ (a.createdAt = b.createdAt ∧ a.id ≤ b.id)

instance : DecidableRel createdBefore := fun a b => by
  unfold createdBefore
  exact inferInstance

/-- The intents of a session. -/
def Db.sessionIntents (db : Db) (id : SessionId) : List TradeIntentRow :=
  db.tradeIntents.rows.filter (fun r => r.tradingSessionId = some id)

/-- The profit of the broker trade linked to an intent. -/
def Db.profitOf (db : Db) (id : IntentId) : Option DecimalString :=
  ((db.brokerTrades.rows.find? (fun t => t.intentId = some id)).bind (·.closing)).map (·.profit)

def historyIntent (db : Db) (row : TradeIntentRow) : SessionHistoryIntent where
  id := row.id
  action := row.action
  status := row.status
  amount := row.amount
  profit := db.profitOf row.id
  lastError := row.lastError

/-- The session's own intents in creation order. -/
def readSessionIntents (db : Db) (id : SessionId) : List SessionHistoryIntent :=
  ((db.sessionIntents id).insertionSort createdBefore).map (historyIntent db)

theorem readSessionIntents_length (db : Db) (id : SessionId) :
    (readSessionIntents db id).length = (db.sessionIntents id).length := by
  simp [readSessionIntents]

structure CreateSessionIntentInput where
  sessionId : SessionId
  step : ℕ
  telegramUserId : ℕ
  brokerAccountId : AccountId
  mode : TradeMode
  assetId : ℕ
  amount : DecimalString
  action : TradeAction
  durationSec : ℕ
  submitDeadlineAt : Option UnixMs
  submitNotBeforeAt : Option UnixMs
  deriving DecidableEq, Repr

namespace CreateSessionIntentInput

/-- The request `createSessionIntent` makes of `createTradeIntent`. -/
def request (input : CreateSessionIntentInput) : CreateTradeIntentRequest where
  telegramUserId := input.telegramUserId
  brokerAccountId := some input.brokerAccountId
  mode := input.mode
  assetId := input.assetId
  amount := input.amount
  action := input.action
  durationSec := input.durationSec
  clientRequestId := sessionRequestId input.sessionId input.step

/-- The session it names, with what became of its decision row. -/
def session (input : CreateSessionIntentInput) (decision : Except Unit ℕ) : IntentSession where
  id := input.sessionId
  decision := some decision
  submitDeadlineAt := input.submitDeadlineAt
  submitNotBeforeAt := input.submitNotBeforeAt

end CreateSessionIntentInput

def createSessionIntent (now : UnixMs) (id : IntentId) (input : CreateSessionIntentInput)
    (decision : Except Unit ℕ) (options : CreateTradeIntentOptions) : DbTx CreateTradeIntentResult :=
  createInTransaction now id input.request (some (input.session decision)) options

/-- The CAS stop: a session another writer stopped first keeps its row. -/
def stopTradingSession (id : SessionId) (db : Db) : Db :=
  match db.tradingSessions.updateAt id (fun s => s.status = .active) (fun s => { s with status := .stopped }) with
  | some (_, tradingSessions) => { db with tradingSessions := tradingSessions }
  | none => db

/-! ## The parts of a creation -/

/-- The user and an earlier intent of the request. -/
def findIntentReplay (input : CreateTradeIntentRequest) :
    DbTx (UserRow × Option CreateTradeIntentResult) := do
  let user ← DbTx.demand (findUser (← get) input.telegramUserId) (.tradeIntent .userNotFound)
  let replay ← findReplay user.id input
  return (user, replay)

/-- The switch, the account and the stake, before any lock. -/
def checkIntent (input : CreateTradeIntentRequest) (options : CreateTradeIntentOptions) (userId : UserId) :
    DbTx AccountId := do
  DbTx.require (!(options.demoOnly && input.mode = .real)) (.tradeIntent .demoOnly)
  DbTx.require (tradingOpen (← get)) (.tradeIntent .tradingPaused)
  let brokerAccountId ← resolveAccount userId input.brokerAccountId
  requireStake options input brokerAccountId
  return brokerAccountId

/-- From the reserve, which locks the users row, to the commit. -/
def writeIntent (now : UnixMs) (id : IntentId) (input : CreateTradeIntentRequest)
    (session : Option IntentSession) (userId : UserId) (brokerAccountId : AccountId) :
    DbTx CreateTradeIntentResult := do
  reserveTokens input userId
  lockAccount brokerAccountId
  lockSession session brokerAccountId input.mode
  let queued ← insertQueued now (plannedIntent now id input session userId brokerAccountId)
  return { intent := queued, created := true, decisionError := decisionError session }

/-- **A creation in its three parts.** -/
theorem createInTransaction_eq (now : UnixMs) (id : IntentId) (input : CreateTradeIntentRequest)
    (session : Option IntentSession) (options : CreateTradeIntentOptions) :
    createInTransaction now id input session options =
      (findIntentReplay input >>= fun found =>
        match found.2 with
        | some replay => pure replay
        | none => checkIntent input options found.1.id >>= fun account =>
            writeIntent now id input session found.1.id account) := by
  unfold createInTransaction findIntentReplay checkIntent writeIntent
  simp only [bind_assoc]
  refine bind_congr (fun _ => bind_congr (fun user => bind_congr (fun replay => ?_)))
  cases replay with
  | some replay => simp only [pure_bind]
  | none => simp only [pure_bind]

theorem createSessionIntent_eq (now : UnixMs) (id : IntentId) (input : CreateSessionIntentInput)
    (decision : Except Unit ℕ) (options : CreateTradeIntentOptions) :
    createSessionIntent now id input decision options =
      (findIntentReplay input.request >>= fun found =>
        match found.2 with
        | some replay => pure replay
        | none => checkIntent input.request options found.1.id >>= fun account =>
            writeIntent now id input.request (some (input.session decision)) found.1.id account) :=
  createInTransaction_eq now id input.request (some (input.session decision)) options

/-! ## Step keys -/

theorem sessionRequestId_injective {sessionId sessionId' : SessionId} {step step' : ℕ}
    (h : sessionRequestId sessionId step = sessionRequestId sessionId' step') :
    sessionId = sessionId' ∧ step = step' := by
  have htext : ∀ a b : ℕ, (sessionRequestId a b).toList =
      "session:".toList ++ (Nat.toDigits 10 a ++ ':' :: Nat.toDigits 10 b) := by
    intro a b
    simp [sessionRequestId]
    rfl
  have hkeys := List.append_cancel_left
    ((htext _ _).symm.trans ((congrArg String.toList h).trans (htext _ _)))
  have hcolon : ∀ cs : List Char, EndsDigits (':' :: cs) := by
    intro cs c cs' hc
    obtain ⟨rfl, -⟩ := List.cons.inj hc
    rfl
  have hdigits : ∀ (n : ℕ) (c : Char), c ∈ Nat.toDigits 10 n → c.isDigit = true :=
    fun _ _ hc => isDigit_toDigits hc
  have hinj : ∀ a b : ℕ, Nat.toDigits 10 a = Nat.toDigits 10 b → a = b := by
    intro a b hab
    rw [← @Nat.ofDigitChars_ten_toDigits a, hab, Nat.ofDigitChars_ten_toDigits]
  constructor
  · have htake := congrArg (List.takeWhile Char.isDigit) hkeys
    rw [takeWhile_digits_append (hdigits _) (hcolon _), takeWhile_digits_append (hdigits _) (hcolon _)] at htake
    exact hinj _ _ htake
  · have hdrop := congrArg (List.dropWhile Char.isDigit) hkeys
    rw [dropWhile_digits_append (hdigits _) (hcolon _), dropWhile_digits_append (hdigits _) (hcolon _)] at hdrop
    exact hinj _ _ (List.cons.inj hdrop).2

/-! ## What the last part checks and writes -/

section Specs

variable {now : UnixMs} {db db' : Db} {input : CreateTradeIntentRequest}

theorem findIntentReplay_ok {found : UserRow × Option CreateTradeIntentResult}
    (h : (findIntentReplay input).run db = .ok (found, db')) : db' = db := by
  simp only [findIntentReplay, Tx.run_bind_eq_ok, Tx.run_get_eq_ok, DbTx.run_demand_eq_ok] at h
  obtain ⟨_, _, ⟨rfl, rfl⟩, _, _, ⟨_, rfl⟩, _, _, hreplay, h⟩ := h
  simp only [StateT.run_pure, Tx.run_pure_eq_ok] at h
  exact h.2.symm.trans (findReplay_ok hreplay).1

theorem checkIntent_ok {options : CreateTradeIntentOptions} {userId : UserId} {account : AccountId}
    (h : (checkIntent input options userId).run db = .ok (account, db')) : db' = db := by
  simp only [checkIntent, Tx.run_bind_eq_ok, Tx.run_get_eq_ok, DbTx.run_require_eq_ok] at h
  obtain ⟨_, _, ⟨_, rfl⟩, _, _, ⟨rfl, rfl⟩, _, _, ⟨_, rfl⟩, _, _, haccount, _, _, hstake, h⟩ := h
  simp only [StateT.run_pure, Tx.run_pure_eq_ok] at h
  exact h.2.symm.trans ((requireStake_ok hstake).trans (resolveAccount_ok haccount).1)

theorem lockSession_active {s : IntentSession} {account : AccountId} {mode : TradeMode} {u : Unit}
    (h : (lockSession (some s) account mode).run db = .ok (u, db')) :
    ∃ session, db.tradingSessions.find? s.id = some session ∧ session.brokerAccountId = account ∧
      session.mode = mode ∧ session.status = .active := by
  simp only [lockSession, Tx.run_bind_eq_ok, Tx.run_get_eq_ok, DbTx.run_require_eq_ok] at h
  obtain ⟨_, _, ⟨rfl, rfl⟩, hany, rfl⟩ := h
  obtain ⟨session, hsession, hguard⟩ := Option.any_eq_true _ _ |>.mp hany
  simp only [Bool.and_eq_true, decide_eq_true_eq] at hguard
  exact ⟨session, hsession, hguard.1.1, hguard.1.2, hguard.2⟩

theorem insertIntent_fresh {row : TradeIntentRow} {u : Unit}
    (h : (insertIntent row).run db = .ok (u, db')) :
    ∀ r ∈ db.tradeIntents, r.userId = row.userId → r.clientRequestId ≠ row.clientRequestId := by
  simp only [insertIntent, Tx.run_bind_eq_ok, Tx.run_get_eq_ok, DbTx.run_require_eq_ok] at h
  obtain ⟨_, _, ⟨rfl, rfl⟩, _, _, ⟨hrequest, rfl⟩, _⟩ := h
  simp only [Bool.not_eq_true', List.any_eq_false, Bool.and_eq_true, decide_eq_true_eq, not_and] at hrequest
  intro r hr huser
  exact hrequest r hr huser

/-- **What the last part of a session's creation does**: the session is active on the account and no
live intent of the account is there, the request is new, and one row is written. -/
theorem writeIntent_ok {id : IntentId} {s : IntentSession} {userId : UserId} {account : AccountId}
    {res : CreateTradeIntentResult}
    (h : (writeIntent now id input (some s) userId account).run db = .ok (res, db')) :
    ∃ t session, db.tradeIntents.insert? (queuedIntent now id input (some s) userId account) = some t ∧
      db'.tradeIntents = t ∧ db'.tradingSessions = db.tradingSessions ∧
      db'.brokerAccounts = db.brokerAccounts ∧
      db.tradingSessions.find? s.id = some session ∧ session.brokerAccountId = account ∧
      session.mode = input.mode ∧ session.status = .active ∧
      (∀ r ∈ db.tradeIntents, r.brokerAccountId = account → r.status.terminal = true) ∧
      ∀ r ∈ db.tradeIntents, r.userId = userId → r.clientRequestId ≠ input.clientRequestId := by
  simp only [writeIntent, Tx.run_bind_eq_ok] at h
  obtain ⟨_, _, hreserve, _, _, hlock, _, _, hsession, queued, _, hqueued, h⟩ := h
  obtain ⟨user, _, _, rfl⟩ := reserveTokens_ok hreserve
  obtain rfl := lockAccount_ok hlock
  obtain ⟨session, hfind, haccount, hmode, hactive⟩ := lockSession_active hsession
  obtain rfl := lockSession_ok hsession
  have hfresh : ∀ r ∈ db.tradeIntents, r.userId = userId → r.clientRequestId ≠ input.clientRequestId := by
    have hinsert := hqueued
    simp only [insertQueued, Tx.run_bind_eq_ok] at hinsert
    obtain ⟨_, _, hins, _⟩ := hinsert
    exact insertIntent_fresh hins
  obtain ⟨t, e, hrow, ht, he, rfl, hterminal⟩ := insertQueued_ok (by rfl) (by rfl) (by rfl) hqueued
  simp only [StateT.run_pure, Tx.run_pure_eq_ok] at h
  obtain ⟨-, rfl⟩ := h
  rw [hrow] at ht
  exact ⟨t, session, ht, rfl, rfl, rfl, hfind, haccount, hmode, hactive, hterminal, hfresh⟩

end Specs

end Binarius
