import Mathlib.Tactic
import Binarius.Db.TradeIntentOps.Transition

/-!
# Db.TradeIntentOps.Create — the creation of a trade intent (packages/db/src/trade-intent-ops.ts)

The id the database gives the new row is an argument; an id that is taken refuses the insert.  The
decision row of a session's intent is written in a savepoint of its own: its outcome (the id, or a
refused `INSERT`) comes with the session.

* `createInTransaction_ok`: **what a creation can do** — answer the intent of an earlier request and
  write nothing, or reserve one token and leave the new intent queued, with its ledger row and its
  outbox row.  A refused creation is rolled back whole; what `createTradeIntent` answers after a
  violation is read afterwards and writes nothing.
-/

namespace Binarius

open Lib

/-- One token per accepted trade in both modes. -/
def tokensPerIntent : ℤ := 1

structure CreateTradeIntentRequest where
  telegramUserId : ℕ
  brokerAccountId : Option AccountId
  mode : TradeMode
  assetId : ℕ
  amount : DecimalString
  action : TradeAction
  durationSec : ℕ
  clientRequestId : String
  deriving DecidableEq, Repr

structure IntentSession where
  id : SessionId
  /-- the decision the intent is created from: its row's id, or that its `INSERT` was refused -/
  decision : Option (Except Unit ℕ)
  submitDeadlineAt : Option UnixMs
  submitNotBeforeAt : Option UnixMs

structure CreateTradeIntentOptions where
  checkStake : Bool := false
  demoOnly : Bool := false
  deriving DecidableEq, Repr

structure CreateTradeIntentResult where
  intent : TradeIntentRow
  created : Bool
  decisionError : Bool := false
  deriving DecidableEq, Repr

def findUser (db : Db) (telegramUserId : ℕ) : Option UserRow :=
  db.users.rows.find? (fun u => u.telegramUserId = telegramUserId)

/-- The request of an intent, named again with the same parameters. -/
def sameRequest (input : CreateTradeIntentRequest) (row : TradeIntentRow) : Bool :=
  input.brokerAccountId.all (· = row.brokerAccountId) && row.mode = input.mode &&
    row.assetId = input.assetId && row.action = input.action && row.durationSec = input.durationSec &&
    normalizeDecimal row.amount = normalizeDecimal input.amount

/-- Keyed by `(user, clientRequestId)`. -/
def findReplay (userId : UserId) (input : CreateTradeIntentRequest) :
    DbTx (Option CreateTradeIntentResult) := do
  let db ← get
  match db.tradeIntents.rows.find? (fun r => r.userId = userId && r.clientRequestId = input.clientRequestId) with
  | none => return none
  | some row =>
    DbTx.require (sameRequest input row) (.tradeIntent .clientRequestIdConflict)
    return some { intent := row, created := false }

/-- The account a trade or a session runs on: the named one if it is the user's, else the user's only
active account. -/
def resolveTradingAccount (db : Db) (userId : UserId) (brokerAccountId : Option AccountId) :
    Except TradeIntentErrorCode AccountId :=
  match brokerAccountId with
  | some id =>
    match db.brokerAccounts.rows.find? (fun a => a.id = id && a.userId = userId) with
    | some account => .ok account.id
    | none => .error .brokerAccountNotFound
  | none =>
    let accounts := db.brokerAccounts.rows.filter (fun a => a.userId = userId)
    match accounts.filter (fun a => a.status = .active) with
    | [] => .error (if accounts.any (fun a => a.status = .pending) then .accountNotConfirmed
        else .brokerAccountNotFound)
    | [only] => .ok only.id
    | _ => .error .ambiguousBrokerAccount

def resolveAccount (userId : UserId) (brokerAccountId : Option AccountId) : DbTx AccountId := do
  match resolveTradingAccount (← get) userId brokerAccountId with
  | .ok id => return id
  | .error code => Tx.fail (.tradeIntent code)

/-- `options.checkStake`: the stake against the account's stored snapshot, by the intent's mode. -/
def requireStake (options : CreateTradeIntentOptions) (input : CreateTradeIntentRequest)
    (brokerAccountId : AccountId) : DbTx Unit := do
  if !options.checkStake then return ()
  let db ← get
  let snapshot ← DbTx.demand (db.brokerBalanceSnapshots.find? brokerAccountId)
    (.tradeIntent .balanceUnavailable)
  let limits : StakeLimits :=
    { minTradeAmount := snapshot.minTradeAmount
      available := if input.mode = .real then snapshot.realAvailable else snapshot.demoAvailable }
  match checkStake input.amount limits with
  | some refusal => Tx.fail (.tradeIntent refusal.errorCode)
  | none => return ()

/-- The predicate of the reserve: an active user with a free token, in real mode for a real intent. -/
def canReserve (input : CreateTradeIntentRequest) (user : UserRow) : Bool :=
  user.status = .active && decide (tokensPerIntent ≤ user.tokenBalance - user.tokenReserved) &&
    (input.mode ≠ .real || user.tradingMode = .real)

/-- Why the reserve matched no row. -/
def reserveRefusal (input : CreateTradeIntentRequest) (fresh : Option UserRow) : TradeIntentErrorCode :=
  if fresh.any (fun u => u.status = .blocked) then .userBlocked
  else if input.mode = .real ∧ ¬ fresh.any (fun u => u.tradingMode = .real) then .realModeOff
  else .insufficientTokens

def reserveTokens (input : CreateTradeIntentRequest) (userId : UserId) : DbTx Unit := do
  let db ← get
  match db.users.updateAt userId (canReserve input)
      (fun u => { u with tokenReserved := u.tokenReserved + tokensPerIntent }) with
  | some (_, users) => set { db with users := users }
  | none => Tx.fail (.tradeIntent (reserveRefusal input (db.users.find? userId)))

def accountErrorFor (status : Option BrokerAccountStatus) : TradeIntentErrorCode :=
  if status = some .revoked then .accountRevoked
  else if status = some .pending then .accountNotConfirmed
  else .accountHalted

/-- `FOR NO KEY UPDATE` of an active account that is not halted. -/
def lockAccount (brokerAccountId : AccountId) : DbTx Unit := do
  let db ← get
  let fresh := db.brokerAccounts.find? brokerAccountId
  DbTx.require (fresh.any (fun a => a.status = .active && !a.tradingHalted))
    (.tradeIntent (accountErrorFor (fresh.map (·.status))))

/-- A session's intent: `FOR NO KEY UPDATE` of the active session of this account and mode. -/
def lockSession (session : Option IntentSession) (brokerAccountId : AccountId) (mode : TradeMode) :
    DbTx Unit := do
  let some session := session | return ()
  let db ← get
  DbTx.require ((db.tradingSessions.find? session.id).any (fun s =>
      s.brokerAccountId = brokerAccountId && s.mode = mode && s.status = .active))
    (.tradingSessionNotActive session.id)

/-- The id of the decision row the intent names. -/
def decisionId (session : Option IntentSession) : Option ℕ :=
  session.bind (fun s => s.decision.bind (fun d => d.toOption))

/-- The decision row's `INSERT` was refused. -/
def decisionError (session : Option IntentSession) : Bool :=
  session.any (fun s => s.decision.any (fun d => d.toOption.isNone))

/-- The row as the `INSERT` leaves it. -/
def plannedIntent (now : UnixMs) (id : IntentId) (input : CreateTradeIntentRequest)
    (session : Option IntentSession) (userId : UserId) (brokerAccountId : AccountId) :
    TradeIntentRow where
  id := id
  brokerAccountId := brokerAccountId
  userId := userId
  mode := input.mode
  assetId := input.assetId
  amount := input.amount
  action := input.action
  durationSec := input.durationSec
  clientRequestId := input.clientRequestId
  tradingSessionId := session.map (·.id)
  submitDeadlineAt := session.bind (·.submitDeadlineAt)
  submitNotBeforeAt := session.bind (·.submitNotBeforeAt)
  signalDecisionId := decisionId session
  status := .planned
  version := 1
  tokensReserved := tokensPerIntent
  transport := none
  submittedAt := none
  lastError := none
  reconcileClaimedAt := none
  createdAt := now
  updatedAt := now

/-- `INSERT` into trade_intents under its two unique indexes. -/
def insertIntent (row : TradeIntentRow) : DbTx Unit := do
  let db ← get
  DbTx.require (!db.tradeIntents.rows.any (fun r =>
    r.userId = row.userId && r.clientRequestId = row.clientRequestId)) (.unique .tradeIntentsUserRequest)
  DbTx.require (!db.tradeIntents.rows.any (fun r =>
    r.brokerAccountId = row.brokerAccountId && !r.status.terminal)) (.unique .tradeIntentsActiveAccount)
  let tradeIntents ← DbTx.demand (db.tradeIntents.insert? row) (.unique .tradeIntentsPkey)
  set { db with tradeIntents := tradeIntents }

def insertEvent (event : OutboxEventRow) : DbTx Unit := do
  let db ← get
  let outboxEvents ← DbTx.demand (db.outboxEvents.insert? event) (.unique .outboxEventsTopicIntent)
  set { db with outboxEvents := outboxEvents }

def reserveRow (userId : UserId) (id : IntentId) : TokenLedgerRow :=
  { userId := userId, kind := .reserve, reservedDelta := tokensPerIntent, intentId := some id }

/-- The intent's rows: planned, its ledger row, reserved, its outbox row, queued. -/
def insertQueued (now : UnixMs) (planned : TradeIntentRow) : DbTx TradeIntentRow := do
  insertIntent planned
  DbTx.write (fun db =>
    { db with tokenLedger := reserveRow planned.userId planned.id :: db.tokenLedger })
  let some reserved ← transitionIntent now
    { id := planned.id, fromStatus := .planned, toStatus := .reserved
      expectedVersion := some planned.version }
    | Tx.fail .vanished
  insertEvent (pendingEvent now .tradingIntents planned.id)
  let some queued ← transitionIntent now
    { id := planned.id, fromStatus := .reserved, toStatus := .queued
      expectedVersion := some reserved.version }
    | Tx.fail .vanished
  return queued

def createInTransaction (now : UnixMs) (id : IntentId) (input : CreateTradeIntentRequest)
    (session : Option IntentSession) (options : CreateTradeIntentOptions) :
    DbTx CreateTradeIntentResult := do
  let user ← DbTx.demand (findUser (← get) input.telegramUserId) (.tradeIntent .userNotFound)
  match ← findReplay user.id input with
  | some replay => return replay
  | none =>
    DbTx.require (!(options.demoOnly && input.mode = .real)) (.tradeIntent .demoOnly)
    DbTx.require (tradingOpen (← get)) (.tradeIntent .tradingPaused)
    let brokerAccountId ← resolveAccount user.id input.brokerAccountId
    requireStake options input brokerAccountId
    reserveTokens input user.id
    lockAccount brokerAccountId
    lockSession session brokerAccountId input.mode
    let queued ← insertQueued now (plannedIntent now id input session user.id brokerAccountId)
    return { intent := queued, created := true, decisionError := decisionError session }

/-- The replay looked up after a refused insert, in the database as its own reads find it. -/
def replayAfterViolation (input : CreateTradeIntentRequest) : DbTx CreateTradeIntentResult := do
  let user ← DbTx.demand (findUser (← get) input.telegramUserId) (.tradeIntent .userNotFound)
  match ← findReplay user.id input with
  | some replay => return replay
  | none => Tx.fail (.tradeIntent .activeIntentExists)

/-- The violations that mean someone else won the race for this account. -/
def isReplayConstraint : TxError → Bool
  | .unique .tradeIntentsUserRequest => true
  | .unique .tradeIntentsActiveAccount => true
  | _ => false

/-- The answer of a creation: `seen` is the database as the reads after a violation find it. -/
def createTradeIntent (now : UnixMs) (id : IntentId) (input : CreateTradeIntentRequest)
    (session : Option IntentSession) (options : CreateTradeIntentOptions) (seen db : Db) :
    Except TxError CreateTradeIntentResult :=
  match (createInTransaction now id input session options).run db with
  | .ok (result, _) => .ok result
  | .error e =>
    if isReplayConstraint e then ((replayAfterViolation input).run seen).map Prod.fst else .error e

/-- The row a creation leaves. -/
def queuedIntent (now : UnixMs) (id : IntentId) (input : CreateTradeIntentRequest)
    (session : Option IntentSession) (userId : UserId) (brokerAccountId : AccountId) : TradeIntentRow :=
  { plannedIntent now id input session userId brokerAccountId with
    status := .queued
    version := 3 }

section Specs

variable {now : UnixMs} {db db' : Db} {input : CreateTradeIntentRequest}

theorem findReplay_ok {userId : UserId} {res : Option CreateTradeIntentResult}
    (h : (findReplay userId input).run db = .ok (res, db')) :
    db' = db ∧ ∀ r, res = some r → r.created = false ∧ r.intent ∈ db.tradeIntents ∧
      r.intent.userId = userId ∧ r.intent.clientRequestId = input.clientRequestId ∧
      sameRequest input r.intent = true := by
  simp only [findReplay, Tx.run_bind_eq_ok, Tx.run_get_eq_ok] at h
  obtain ⟨_, _, ⟨rfl, rfl⟩, h⟩ := h
  split at h
  · simp only [StateT.run_pure, Tx.run_pure_eq_ok] at h
    obtain ⟨rfl, rfl⟩ := h
    simp
  · rename_i row hrow
    simp only [Tx.run_bind_eq_ok, DbTx.run_require_eq_ok, StateT.run_pure, Tx.run_pure_eq_ok] at h
    obtain ⟨_, _, ⟨hsame, rfl⟩, rfl, rfl⟩ := h
    refine ⟨rfl, ?_⟩
    rintro r ⟨rfl⟩
    have hkey := List.find?_some hrow
    simp only [Bool.and_eq_true, decide_eq_true_eq] at hkey
    exact ⟨rfl, List.mem_of_find?_eq_some hrow, hkey.1, hkey.2, hsame⟩

theorem resolveAccount_ok {userId : UserId} {account : Option AccountId} {a : AccountId}
    (h : (resolveAccount userId account).run db = .ok (a, db')) :
    db' = db ∧ resolveTradingAccount db userId account = .ok a := by
  simp only [resolveAccount, Tx.run_bind_eq_ok, Tx.run_get_eq_ok] at h
  obtain ⟨_, _, ⟨rfl, rfl⟩, h⟩ := h
  split at h
  · rename_i hr
    simp only [StateT.run_pure, Tx.run_pure_eq_ok] at h
    obtain ⟨rfl, rfl⟩ := h
    exact ⟨rfl, hr⟩
  · simp at h

theorem requireStake_ok {options : CreateTradeIntentOptions} {account : AccountId} {u : Unit}
    (h : (requireStake options input account).run db = .ok (u, db')) : db' = db := by
  unfold requireStake at h
  split at h
  · simp only [StateT.run_pure, Tx.run_pure_eq_ok] at h
    exact h.2.symm
  · simp only [Tx.run_bind_eq_ok, Tx.run_get_eq_ok, DbTx.run_demand_eq_ok] at h
    obtain ⟨_, _, ⟨rfl, rfl⟩, _, _, ⟨_, rfl⟩, h⟩ := h
    split at h
    · simp at h
    · simp only [StateT.run_pure, Tx.run_pure_eq_ok] at h
      exact h.2.symm

theorem reserveTokens_ok {userId : UserId} {u : Unit}
    (h : (reserveTokens input userId).run db = .ok (u, db')) :
    ∃ user, db.users.find? userId = some user ∧ canReserve input user = true ∧
      db' = { db with
        users := db.users.put { user with tokenReserved := user.tokenReserved + tokensPerIntent } } := by
  simp only [reserveTokens, Tx.run_bind_eq_ok, Tx.run_get_eq_ok] at h
  obtain ⟨_, _, ⟨rfl, rfl⟩, h⟩ := h
  split at h
  · rename_i hu
    obtain ⟨user, hf, hg, rfl, rfl⟩ := Table.updateAt_eq_some.mp hu
    exact ⟨user, hf, hg, (Tx.run_set_eq_ok.mp h).symm⟩
  · simp at h

theorem lockAccount_ok {account : AccountId} {u : Unit}
    (h : (lockAccount account).run db = .ok (u, db')) : db' = db := by
  simp only [lockAccount, Tx.run_bind_eq_ok, Tx.run_get_eq_ok, DbTx.run_require_eq_ok] at h
  obtain ⟨_, _, ⟨rfl, rfl⟩, _, rfl⟩ := h
  rfl

theorem lockSession_ok {session : Option IntentSession} {account : AccountId} {mode : TradeMode}
    {u : Unit} (h : (lockSession session account mode).run db = .ok (u, db')) : db' = db := by
  cases session with
  | none =>
    simp only [lockSession, StateT.run_pure, Tx.run_pure_eq_ok] at h
    exact h.2.symm
  | some s =>
    simp only [lockSession, Tx.run_bind_eq_ok, Tx.run_get_eq_ok, DbTx.run_require_eq_ok] at h
    obtain ⟨_, _, ⟨rfl, rfl⟩, _, rfl⟩ := h
    rfl

theorem insertIntent_ok {row : TradeIntentRow} {u : Unit}
    (h : (insertIntent row).run db = .ok (u, db')) :
    ∃ t, db.tradeIntents.insert? row = some t ∧ db' = { db with tradeIntents := t } ∧
      ∀ r ∈ db.tradeIntents, r.brokerAccountId = row.brokerAccountId → r.status.terminal = true := by
  simp only [insertIntent, Tx.run_bind_eq_ok, Tx.run_get_eq_ok, DbTx.run_require_eq_ok,
    DbTx.run_demand_eq_ok, Tx.run_set_eq_ok] at h
  obtain ⟨_, _, ⟨rfl, rfl⟩, _, _, ⟨_, rfl⟩, _, _, ⟨hactive, rfl⟩, t, _, ⟨ht, rfl⟩, rfl⟩ := h
  refine ⟨t, ht, rfl, ?_⟩
  intro r hr hacc
  simp only [Bool.not_eq_true', List.any_eq_false, Bool.and_eq_true, decide_eq_true_eq,
    not_and] at hactive
  simpa using hactive r hr hacc

theorem insertEvent_ok {event : OutboxEventRow} {u : Unit}
    (h : (insertEvent event).run db = .ok (u, db')) :
    ∃ t, db.outboxEvents.insert? event = some t ∧ db' = { db with outboxEvents := t } := by
  simp only [insertEvent, Tx.run_bind_eq_ok, Tx.run_get_eq_ok, DbTx.run_demand_eq_ok,
    Tx.run_set_eq_ok] at h
  obtain ⟨_, _, ⟨rfl, rfl⟩, t, _, ⟨ht, rfl⟩, rfl⟩ := h
  exact ⟨t, ht, rfl⟩

theorem insertQueued_ok {planned queued : TradeIntentRow} (hp : planned.status = .planned)
    (hv : planned.version = 1) (hu : planned.updatedAt = now)
    (h : (insertQueued now planned).run db = .ok (queued, db')) :
    ∃ t e, queued = { planned with status := .queued, version := 3 } ∧
      db.tradeIntents.insert? queued = some t ∧
      db.outboxEvents.insert? (pendingEvent now .tradingIntents planned.id) = some e ∧
      db' = { db with
        tradeIntents := t
        outboxEvents := e
        tokenLedger := reserveRow planned.userId planned.id :: db.tokenLedger } ∧
      ∀ r ∈ db.tradeIntents, r.brokerAccountId = planned.brokerAccountId → r.status.terminal = true := by
  simp only [insertQueued, Tx.run_bind_eq_ok, DbTx.run_write_eq_ok] at h
  obtain ⟨_, db₁, hins, _, _, rfl, moved, db₂, ht₁, h⟩ := h
  obtain ⟨t, ht, rfl, hactive⟩ := insertIntent_ok hins
  cases moved with
  | none => simp at h
  | some reserved =>
    obtain ⟨r₁, hf₁, _, _, hr₁, rfl⟩ := transitionIntent_some ht₁
    have hr₁p : r₁ = planned := by
      have := Table.find?_of_insert? ht planned.id
      simpa [Db.find, this, key] using hf₁.symm
    subst hr₁p
    have hins₁ := Table.insert?_put reserved ht (by rw [hr₁]; rfl)
    simp only [Tx.run_bind_eq_ok] at h
    obtain ⟨_, db₃, hev, moved₂, db₄, ht₂, h⟩ := h
    obtain ⟨e, he, rfl⟩ := insertEvent_ok hev
    cases moved₂ with
    | none => simp at h
    | some queued' =>
      simp only [StateT.run_pure, Tx.run_pure_eq_ok] at h
      obtain ⟨rfl, rfl⟩ := h
      obtain ⟨r₂, hf₂, _, _, hr₂, rfl⟩ := transitionIntent_some ht₂
      have hr₂r : r₂ = reserved := by
        have := Table.find?_of_insert? hins₁ r₁.id
        have hk : key reserved = r₁.id := by rw [hr₁]; rfl
        simpa [Db.find, Db.setIntent, this, hk] using hf₂.symm
      subst hr₂r
      have hins₂ := Table.insert?_put queued' hins₁ (by rw [hr₂]; rfl)
      refine ⟨_, e, ?_, hins₂, he, rfl, hactive⟩
      rw [hr₂, hr₁]
      simp [TransitionOptions.written, IntentPatch.apply, hv, ← hu]

/-- **What a creation can do.** -/
theorem createInTransaction_ok {id : IntentId} {session : Option IntentSession}
    {options : CreateTradeIntentOptions} {res : CreateTradeIntentResult}
    (h : (createInTransaction now id input session options).run db = .ok (res, db')) :
    (res.created = false ∧ res.intent ∈ db.tradeIntents ∧ sameRequest input res.intent = true ∧
        db' = db) ∨
      ∃ user account t e, db.users.find? user.id = some user ∧ canReserve input user = true ∧
        res.created = true ∧ res.intent = queuedIntent now id input session user.id account ∧
        db.tradeIntents.insert? res.intent = some t ∧
        db.outboxEvents.insert? (pendingEvent now .tradingIntents id) = some e ∧
        db' = { db.post user (reserveRow user.id id) with tradeIntents := t, outboxEvents := e } ∧
        ∀ r ∈ db.tradeIntents, r.brokerAccountId = account → r.status.terminal = true := by
  simp only [createInTransaction, Tx.run_bind_eq_ok, Tx.run_get_eq_ok, DbTx.run_demand_eq_ok] at h
  obtain ⟨_, _, ⟨rfl, rfl⟩, user, _, ⟨_, rfl⟩, replay, _, hreplay, h⟩ := h
  obtain ⟨rfl, hreplay⟩ := findReplay_ok hreplay
  cases replay with
  | some r =>
    simp only [StateT.run_pure, Tx.run_pure_eq_ok] at h
    obtain ⟨rfl, rfl⟩ := h
    obtain ⟨hc, hm, _, _, hs⟩ := hreplay _ rfl
    exact .inl ⟨hc, hm, hs, rfl⟩
  | none =>
    simp only [Tx.run_bind_eq_ok, DbTx.run_require_eq_ok, Tx.run_get_eq_ok] at h
    obtain ⟨_, _, ⟨_, rfl⟩, _, _, ⟨rfl, rfl⟩, _, _, ⟨_, rfl⟩, account, _, hacc, h⟩ := h
    obtain ⟨rfl, _⟩ := resolveAccount_ok hacc
    obtain ⟨_, _, hstake, _, _, hres, _, _, hlock, _, _, hsession, queued, _, hq, h⟩ := h
    obtain rfl := requireStake_ok hstake
    obtain ⟨fresh, hfresh, hguard, rfl⟩ := reserveTokens_ok hres
    obtain rfl := lockAccount_ok hlock
    obtain rfl := lockSession_ok hsession
    simp only [StateT.run_pure, Tx.run_pure_eq_ok] at h
    obtain ⟨rfl, rfl⟩ := h
    obtain ⟨t, e, hrow, ht, he, rfl, hactive⟩ := insertQueued_ok (by rfl) (by rfl) (by rfl) hq
    have hid : fresh.id = user.id := Table.key_of_find? hfresh
    refine .inr ⟨fresh, account, t, e, ?_, hguard, rfl, ?_, ht, he, ?_, hactive⟩
    · rw [hid]
      exact hfresh
    · rw [hrow, hid]
      rfl
    · simp [Db.post, UserRow.posted, reserveRow, plannedIntent, hid]

end Specs

end Binarius
