import Mathlib.Tactic
import Binarius.Backend.Outbox
import Binarius.Db.IntentRuns

/-!
# Worker.World — the processes around one database
(apps/trading-worker/src/intents: processor.ts, reconciliation.ts, sweeper.ts; apps/backend/src/outbox)

The database is shared; a process is what it remembers between two of its statements.  A job is one
delivery of an intent's queue job to a worker, an attempt is one attempt of a reconciliation pass, and
a publisher's claim is the row lock it holds.  There are any number of each, in any number of processes;
any of them may stop for ever at any point.

An action is one atomic step: a committed transaction of one process, a call, an answer, or a loss.  An
action that is not enabled changes nothing.

* `World.act`: what each action does.
* `World.act_db`: **every action leaves the database as a run of transactions leaves it**.
-/

namespace Binarius

open Lib

/-! ## The results -/

/-- SubmitResult of the executor's port; `detail` is for logs only. -/
inductive SubmitResult
  | accepted (transport : TradeTransport) (trade : BrokerTrade)
  | rejected (reason : TradeIntentFailureReason)
  | unknown (reason : TradeIntentFailureReason)
  deriving DecidableEq, Repr

inductive ReconcileUnavailableReason
  | notConfigured
  | tokenUnavailable
  | brokerUnavailable
  | rateLimited
  | timeout
  | backendUnavailable
  | brokerContract
  | windowOpen
  | windowNotCovered
  | absenceUnconfirmed
  deriving DecidableEq, Repr

/-- ReconcileResult; an attempt that throws ends as `failed`. -/
inductive ReconcileResult
  | found (trade : BrokerTrade)
  | notFound
  | unresolved
  | ambiguous
  | unavailable (reason : ReconcileUnavailableReason)
  | failed
  deriving DecidableEq, Repr

/-! ## The processes -/

/-- One delivery of an intent's job (processIntentJob). -/
inductive Job
  /-- not delivered yet -/
  | waiting
  /-- the row was read queued -/
  | queued (intent : TradeIntentRow)
  /-- the row was read submitting -/
  | stale (id : IntentId)
  /-- the take was refused: the expiry, the late rejection and the paused one come next -/
  | refused (intent : TradeIntentRow)
  | notExpired (intent : TradeIntentRow)
  | notLate (intent : TradeIntentRow)
  /-- the take committed, the executor is not called yet -/
  | taken (row : TradeIntentRow)
  /-- `submit` was called -/
  | submitting (row : TradeIntentRow)
  /-- the executor's answer, or the deadline's -/
  | answered (row : TradeIntentRow) (result : SubmitResult)
  /-- an accepted trade that does not match the intent -/
  | mismatched (row : TradeIntentRow)
  /-- ended, or lost with its worker -/
  | done
  deriving DecidableEq, Repr

/-- One attempt of a reconciliation pass. -/
inductive Attempt
  | waiting
  /-- the claim committed, the broker is being asked -/
  | claimed (row : TradeIntentRow)
  | answered (row : TradeIntentRow) (result : ReconcileResult)
  /-- a found trade that does not match the intent -/
  | mismatched (row : TradeIntentRow)
  | done
  deriving DecidableEq, Repr

structure World where
  db : Db
  jobs : ℕ → Job
  attempts : ℕ → Attempt
  /-- the outbox rows publishers hold, as they claimed them -/
  claims : OutboxTopic × IntentId → Option OutboxEventRow
  /-- every call of `submit` so far, newest first -/
  submits : List IntentId
  /-- the attempt that made the intent's latest claim -/
  claimant : IntentId → Option ℕ
  /-- every conclusion of a reconciling intent so far, newest first -/
  conclusions : List IntentId

/-- No process has started. -/
def World.start (db : Db) : World where
  db := db
  jobs := fun _ => .waiting
  attempts := fun _ => .waiting
  claims := fun _ => none
  submits := []
  claimant := fun _ => none
  conclusions := []

namespace World

def setJob (w : World) (j : ℕ) (s : Job) : World := { w with jobs := Function.update w.jobs j s }

def setAttempt (w : World) (a : ℕ) (s : Attempt) : World :=
  { w with attempts := Function.update w.attempts a s }

def withDb (w : World) (db : Db) : World := { w with db := db }

/-- Run a job's transaction: its next state by what the transaction answered; a throw ends the job. -/
def jobTx {α : Type} (w : World) (j : ℕ) (t : DbTx α) (next : α → Job) : World :=
  match t.run w.db with
  | .ok (a, db) => (w.withDb db).setJob j (next a)
  | .error _ => w.setJob j .done

/-- Whether an intent is reconciling. -/
def reconciling (db : Db) (id : IntentId) : Bool :=
  (db.find id).any (fun r => r.status = .reconciling)

/-- Run an attempt's outcome transaction, recording the conclusion of its intent when it left
`reconciling`.  A mismatch is parked by a transaction of its own; any other throw ends the attempt. -/
def outcomeTx (w : World) (a : ℕ) (row : TradeIntentRow) (t : DbTx (Option TradeIntentRow)) : World :=
  match t.run w.db with
  | .ok (_, db) =>
    { (w.withDb db).setAttempt a .done with
      conclusions := if reconciling w.db row.id && !reconciling db row.id then row.id :: w.conclusions
        else w.conclusions }
  | .error (.mismatch _ _ _) => w.setAttempt a (.mismatched row)
  | .error _ => w.setAttempt a .done

end World

/-- The transactions other parts of the system commit: requests, the reconciliation job's hand-off,
settlements of accepted trades, the sweeper, tokens, and an operator's decision on a parked intent. -/
def Txn.outside : Txn → Bool
  | .createTradeIntent .. => true
  | .rejectIntent _ o => o.fromStatus = .manualReview
  | .settleIntent _ o => o.fromStatus = .accepted || o.fromStatus = .manualReview
  | .markIntentUnknown _ o => o.reason = .staleSubmitting && o.olderThanMs.isSome
  | .startReconciling .. => true
  | .adjustTokens .. => true
  | .creditStarPayment .. => true
  | .recordStarRefund .. => true
  | .addUser .. => true
  | .editUser .. => true
  | _ => false

inductive Action
  /-- a job reaches a worker, which reads the row -/
  | deliver (j : ℕ) (id : IntentId)
  /-- DEMO_ONLY: a real intent is rejected before the take -/
  | rejectDemoOnly (j : ℕ) (now : UnixMs)
  /-- the job is handed to the owner's queue -/
  | forward (j : ℕ)
  | take (j : ℕ) (now : UnixMs) (maxAgeMs : ℤ)
  | rejectExpired (j : ℕ) (now : UnixMs) (maxAgeMs : ℤ)
  | rejectLate (j : ℕ) (now : UnixMs)
  | rejectPaused (j : ℕ) (now : UnixMs)
  /-- the worker calls `executor.submit` -/
  | submit (j : ℕ)
  /-- the executor's result, its throw or the deadline -/
  | answer (j : ℕ) (result : SubmitResult)
  | persist (j : ℕ) (now : UnixMs)
  /-- a redelivered job of a submitting intent -/
  | markStale (j : ℕ) (now : UnixMs) (staleSubmittingMs : ℤ)
  /-- the worker dies, or gives the job up -/
  | loseJob (j : ℕ)
  | claim (a : ℕ) (now : UnixMs) (id : IntentId) (retryMs : ℤ)
  /-- the reconciler's result, its throw or the deadline -/
  | reconciled (a : ℕ) (result : ReconcileResult)
  | conclude (a : ℕ) (now : UnixMs)
  | loseAttempt (a : ℕ)
  | claimEvent (id : OutboxTopic × IntentId) (status : OutboxStatus)
  /-- the queue took the job -/
  | published (id : OutboxTopic × IntentId) (now : UnixMs)
  /-- the queue did not take it in time, or a published job is gone -/
  | notPublished (id : OutboxTopic × IntentId) (now : UnixMs) (maxAttempts : ℕ)
  | losePublisher (id : OutboxTopic × IntentId)
  /-- a transaction of another part of the system -/
  | transact (t : Txn)
  /-- accounts, snapshots, sessions, the switch or broker trades change -/
  | surroundings (s : Surroundings)

namespace World

/-- processIntentJob's reading of the row. -/
def delivered (db : Db) (id : IntentId) : Job :=
  match db.find id with
  | none => .done
  | some intent =>
    match intent.status with
    | .queued => .queued intent
    | .submitting => .stale id
    | _ => .done

/-- A take that was refused goes on to the rejections. -/
def afterTake (intent : TradeIntentRow) : Option TradeIntentRow → Job
  | some row => .taken row
  | none => .refused intent

/-- persistOutcome of an accepted trade: a mismatch is marked unknown by a transaction of its own. -/
def persistAccepted (w : World) (j : ℕ) (row : TradeIntentRow) (now : UnixMs) (transport : TradeTransport)
    (trade : BrokerTrade) : World :=
  match (markIntentAccepted now
      { id := row.id, expectedVersion := row.version, transport := some transport
        trade := trade }).run w.db with
  | .ok (_, db) => (w.withDb db).setJob j .done
  | .error (.mismatch _ _ _) => w.setJob j (.mismatched row)
  | .error _ => w.setJob j .done

/-- persistOutcome. -/
def persist (w : World) (j : ℕ) (now : UnixMs) : World :=
  match w.jobs j with
  | .answered row (.accepted transport trade) => w.persistAccepted j row now transport trade
  | .answered row (.rejected reason) =>
    w.jobTx j (rejectIntent now
      { id := row.id, fromStatus := .submitting, expectedVersion := some row.version
        reason := reason }) (fun _ => .done)
  | .answered row (.unknown reason) =>
    w.jobTx j (markIntentUnknown now
      { id := row.id, expectedVersion := some row.version, reason := reason }) (fun _ => .done)
  | .mismatched row =>
    w.jobTx j (markIntentUnknown now
      { id := row.id, expectedVersion := some row.version, reason := .tradeMismatch }) (fun _ => .done)
  | _ => w

/-- The pass's `persist`. -/
def conclude (w : World) (a : ℕ) (now : UnixMs) : World :=
  match w.attempts a with
  | .answered row (.found trade) => w.outcomeTx a row (concludeReconciled now row.id row.version trade)
  | .answered row .notFound =>
    w.outcomeTx a row (rejectIntent now
      { id := row.id, fromStatus := .reconciling, expectedVersion := some row.version
        reason := .reconciliationNotFound })
  | .answered row .ambiguous =>
    w.outcomeTx a row (haltAccountForManualReview now row.id row.version .reconciliationAmbiguous)
  | .answered row .unresolved =>
    w.outcomeTx a row (haltAccountForManualReview now row.id row.version .reconciliationNotFound)
  | .mismatched row =>
    w.outcomeTx a row (haltAccountForManualReview now row.id row.version .tradeMismatch)
  | .answered _ (.unavailable _) => w.setAttempt a .done
  | .answered _ .failed => w.setAttempt a .done
  | _ => w

/-- The claim of an attempt: the first write of it. -/
def claim (w : World) (a : ℕ) (now : UnixMs) (id : IntentId) (retryMs : ℤ) : World :=
  match w.attempts a with
  | .waiting =>
    match (claimReconciling now id retryMs).run w.db with
    | .ok (some row, db) =>
      { (w.withDb db).setAttempt a (.claimed row) with claimant := Function.update w.claimant id (some a) }
    | _ => w.setAttempt a .done
  | _ => w

/-- handleQueued, statement by statement. -/
def act (w : World) : Action → World
  | .deliver j id => if w.jobs j = .waiting then w.setJob j (delivered w.db id) else w
  | .rejectDemoOnly j now =>
    match w.jobs j with
    | .queued intent =>
      if intent.mode = .real then
        w.jobTx j (rejectIntent now
          { id := intent.id, fromStatus := .queued, expectedVersion := some intent.version
            reason := .demoOnly }) (fun _ => .done)
      else w
    | _ => w
  | .forward j =>
    match w.jobs j with
    | .queued _ => w.setJob j .done
    | _ => w
  | .take j now maxAgeMs =>
    match w.jobs j with
    | .queued intent =>
      w.jobTx j (takeIntent now
        { id := intent.id, expectedVersion := intent.version, maxAgeMs := maxAgeMs })
        (afterTake intent)
    | _ => w
  | .rejectExpired j now maxAgeMs =>
    match w.jobs j with
    | .refused intent =>
      w.jobTx j (rejectExpiredIntent now intent.id intent.version maxAgeMs)
        (fun res => if res.isSome then .done else .notExpired intent)
    | _ => w
  | .rejectLate j now =>
    match w.jobs j with
    | .notExpired intent =>
      w.jobTx j (rejectLateIntent now intent.id intent.version)
        (fun res => if res.isSome then .done else .notLate intent)
    | _ => w
  | .rejectPaused j now =>
    match w.jobs j with
    | .notLate intent => w.jobTx j (rejectPausedIntent now intent.id intent.version) (fun _ => .done)
    | _ => w
  | .submit j =>
    match w.jobs j with
    | .taken row => { w.setJob j (.submitting row) with submits := row.id :: w.submits }
    | _ => w
  | .answer j result =>
    match w.jobs j with
    | .submitting row => w.setJob j (.answered row result)
    | _ => w
  | .persist j now => w.persist j now
  | .markStale j now staleSubmittingMs =>
    match w.jobs j with
    | .stale id =>
      w.jobTx j (markIntentUnknown now
        { id := id, reason := .staleSubmitting, olderThanMs := some staleSubmittingMs })
        (fun _ => .done)
    | _ => w
  | .loseJob j => w.setJob j .done
  | .claim a now id retryMs => w.claim a now id retryMs
  | .reconciled a result =>
    match w.attempts a with
    | .claimed row => w.setAttempt a (.answered row result)
    | _ => w
  | .conclude a now => w.conclude a now
  | .loseAttempt a => w.setAttempt a .done
  | .claimEvent id status =>
    match w.claims id with
    | none => { w with claims := Function.update w.claims id (claimOutboxRow w.db id status) }
    | some _ => w
  | .published id now =>
    match w.claims id with
    | some row =>
      if row.status = .pending then
        { w.withDb ((markPublished now id).commit w.db) with claims := Function.update w.claims id none }
      else w
    | none => w
  | .notPublished id now maxAttempts =>
    match w.claims id with
    | some row =>
      { w.withDb ((recordDeliveryFailure now row (policyFor maxAttempts row.topic)).commit w.db) with
        claims := Function.update w.claims id none }
    | none => w
  | .losePublisher id => { w with claims := Function.update w.claims id none }
  | .transact t => if t.outside then w.withDb (t.commit w.db) else w
  | .surroundings s => w.withDb (w.db.withSurroundings { s with outboxEvents := w.db.outboxEvents })

/-! ### The database after an action -/

section Database

variable {w : World}

@[simp] theorem setJob_db (j : ℕ) (s : Job) : (w.setJob j s).db = w.db := rfl
@[simp] theorem setAttempt_db (a : ℕ) (s : Attempt) : (w.setAttempt a s).db = w.db := rfl
@[simp] theorem withDb_db (db : Db) : (w.withDb db).db = db := rfl

@[simp] theorem jobTx_db {α : Type} (j : ℕ) (t : DbTx α) (next : α → Job) :
    (w.jobTx j t next).db = t.commit w.db := by
  unfold jobTx Tx.commit
  split <;> simp_all

@[simp] theorem outcomeTx_db (a : ℕ) (row : TradeIntentRow) (t : DbTx (Option TradeIntentRow)) :
    (w.outcomeTx a row t).db = t.commit w.db := by
  unfold outcomeTx Tx.commit
  split <;> simp_all

@[simp] theorem persistAccepted_db (j : ℕ) (row : TradeIntentRow) (now : UnixMs)
    (transport : TradeTransport) (trade : BrokerTrade) :
    (w.persistAccepted j row now transport trade).db = (markIntentAccepted now
      { id := row.id, expectedVersion := row.version, transport := some transport
        trade := trade }).commit w.db := by
  unfold persistAccepted Tx.commit
  split <;> simp_all

theorem claim_db {a : ℕ} (h : w.attempts a = .waiting) (now : UnixMs) (id : IntentId) (retryMs : ℤ) :
    (w.claim a now id retryMs).db = (claimReconciling now id retryMs).commit w.db := by
  simp only [claim, h, Tx.commit]
  split
  · simp_all
  · -- a refused claim wrote nothing
    cases hrun : (claimReconciling now id retryMs).run w.db with
    | error e => rfl
    | ok p =>
      obtain ⟨res, db⟩ := p
      cases res with
      | some row => simp_all
      | none =>
        obtain ⟨_, hdb⟩ | ⟨_, _, _, _, hres, _⟩ := claimReconciling_ok hrun
        · exact hdb.symm
        · simp at hres

/-- The transactions an outbox failure commits: the row, and what giving up does. -/
def deliveryTxns (db : Db) (row : OutboxEventRow) (now : UnixMs) (maxAttempts : ℕ) : List Txn :=
  let policy := policyFor maxAttempts row.topic
  match (recordDeliveryFailure now row policy).run db with
  | .error _ => []
  | .ok _ =>
    let outboxEvents :=
      (updateEvent (row.topic, row.intentId) (failedEvent now policy row) db).outboxEvents
    let event := Txn.elsewhere { db.surroundings with outboxEvents := outboxEvents }
    if isExhausted policy row && row.topic = .tradingIntents then
      [event, .rejectIntent now { id := row.intentId, fromStatus := .queued, reason := .publishFailed }]
    else [event]

/-- The transactions an action commits. -/
def txns (w : World) : Action → List Txn
  | .rejectDemoOnly j now =>
    match w.jobs j with
    | .queued intent =>
      if intent.mode = .real then [.rejectIntent now
        { id := intent.id, fromStatus := .queued, expectedVersion := some intent.version
          reason := .demoOnly }]
      else []
    | _ => []
  | .take j now maxAgeMs =>
    match w.jobs j with
    | .queued intent => [.takeIntent now
        { id := intent.id, expectedVersion := intent.version, maxAgeMs := maxAgeMs }]
    | _ => []
  | .rejectExpired j now maxAgeMs =>
    match w.jobs j with
    | .refused intent => [.rejectIntent now
        { id := intent.id, fromStatus := .queued, expectedVersion := some intent.version
          reason := .expired, guard := fun row => decide (row.createdAt < now - maxAgeMs) }]
    | _ => []
  | .rejectLate j now =>
    match w.jobs j with
    | .notExpired intent => [.rejectIntent now
        { id := intent.id, fromStatus := .queued, expectedVersion := some intent.version
          reason := .entryWindowMissed
          guard := fun row => row.submitDeadlineAt.any (fun d => decide (d ≤ now)) }]
    | _ => []
  | .rejectPaused j now =>
    match w.jobs j with
    | .notLate intent => [.rejectIntent now
        { id := intent.id, fromStatus := .queued, expectedVersion := some intent.version
          reason := .tradingPaused }]
    | _ => []
  | .persist j now =>
    match w.jobs j with
    | .answered row (.accepted transport trade) => [.markIntentAccepted now
        { id := row.id, expectedVersion := row.version, transport := some transport, trade := trade }]
    | .answered row (.rejected reason) => [.rejectIntent now
        { id := row.id, fromStatus := .submitting, expectedVersion := some row.version
          reason := reason }]
    | .answered row (.unknown reason) => [.markIntentUnknown now
        { id := row.id, expectedVersion := some row.version, reason := reason }]
    | .mismatched row => [.markIntentUnknown now
        { id := row.id, expectedVersion := some row.version, reason := .tradeMismatch }]
    | _ => []
  | .markStale j now staleSubmittingMs =>
    match w.jobs j with
    | .stale id => [.markIntentUnknown now
        { id := id, reason := .staleSubmitting, olderThanMs := some staleSubmittingMs }]
    | _ => []
  | .claim a now id retryMs =>
    match w.attempts a with
    | .waiting => [.claimReconciling now id retryMs]
    | _ => []
  | .conclude a now =>
    match w.attempts a with
    | .answered row (.found trade) => [.concludeReconciled now row.id row.version trade]
    | .answered row .notFound => [.rejectIntent now
        { id := row.id, fromStatus := .reconciling, expectedVersion := some row.version
          reason := .reconciliationNotFound }]
    | .answered row .ambiguous =>
      [.haltAccountForManualReview now row.id row.version .reconciliationAmbiguous]
    | .answered row .unresolved =>
      [.haltAccountForManualReview now row.id row.version .reconciliationNotFound]
    | .mismatched row => [.haltAccountForManualReview now row.id row.version .tradeMismatch]
    | _ => []
  | .published id now =>
    match w.claims id with
    | some row =>
      if row.status = .pending then
        [.elsewhere { w.db.surroundings with
          outboxEvents := (updateEvent id (publishedEvent now) w.db).outboxEvents }]
      else []
    | none => []
  | .notPublished id now maxAttempts =>
    match w.claims id with
    | some row => deliveryTxns w.db row now maxAttempts
    | none => []
  | .transact t => if t.outside then [t] else []
  | .surroundings s => [.elsewhere { s with outboxEvents := w.db.outboxEvents }]
  | _ => []

theorem deliveryTxns_eq (db : Db) (row : OutboxEventRow) (now : UnixMs) (maxAttempts : ℕ) :
    (recordDeliveryFailure now row (policyFor maxAttempts row.topic)).commit db =
      commitAll db (deliveryTxns db row now maxAttempts) := by
  unfold deliveryTxns
  simp only []
  cases hrun : (recordDeliveryFailure now row (policyFor maxAttempts row.topic)).run db with
  | error e => exact Tx.commit_eq_of_error hrun
  | ok p =>
    obtain ⟨res, db'⟩ := p
    rw [Tx.commit_eq_of_ok hrun]
    obtain ⟨t, ht⟩ := updateEvent_eq db (row.topic, row.intentId)
      (failedEvent now (policyFor maxAttempts row.topic) row)
    obtain ⟨_, ⟨hex, rfl⟩ | ⟨hex, u, hgive⟩⟩ := recordDeliveryFailure_ok hrun
    · simp only [hex, Bool.false_and, Bool.false_eq_true, if_false]
      rw [ht]
      rfl
    · cases htopic : row.topic with
      | tradingIntents =>
        rw [htopic] at hgive ht hex
        obtain ⟨res, hrej⟩ := rejectUnpublished_ok hgive
        simp only [hex, Bool.true_and, decide_true, if_true, commitAll, run_cons, run_nil]
        rw [ht] at hrej ⊢
        exact (Tx.commit_eq_of_ok hrej).symm
      | tradingReconciliation =>
        rw [htopic] at hex
        simp [isExhausted, policyFor] at hex

/-- **Every action leaves the database as its transactions leave it.** -/
theorem act_db (w : World) (a : Action) : (w.act a).db = commitAll w.db (w.txns a) := by
  cases a with
  | deliver j id =>
    simp only [act, txns]
    split <;> rfl
  | rejectDemoOnly j now =>
    simp only [act, txns]
    split
    · split
      · exact jobTx_db _ _ _
      · rfl
    · rfl
  | forward j =>
    simp only [act, txns]
    split <;> rfl
  | take j now maxAgeMs =>
    simp only [act, txns]
    split
    · exact jobTx_db _ _ _
    · rfl
  | rejectExpired j now maxAgeMs =>
    simp only [act, txns]
    split
    · exact jobTx_db _ _ _
    · rfl
  | rejectLate j now =>
    simp only [act, txns]
    split
    · exact jobTx_db _ _ _
    · rfl
  | rejectPaused j now =>
    simp only [act, txns]
    split
    · exact jobTx_db _ _ _
    · rfl
  | submit j =>
    simp only [act, txns]
    split <;> rfl
  | answer j result =>
    simp only [act, txns]
    split <;> rfl
  | persist j now =>
    simp only [act, persist, txns]
    split
    · exact persistAccepted_db _ _ _ _ _
    · exact jobTx_db _ _ _
    · exact jobTx_db _ _ _
    · exact jobTx_db _ _ _
    · rfl
  | markStale j now staleSubmittingMs =>
    simp only [act, txns]
    split
    · exact jobTx_db _ _ _
    · rfl
  | loseJob j => rfl
  | claim a now id retryMs =>
    simp only [act, txns]
    split
    · rename_i h
      exact claim_db h now id retryMs
    · rename_i h
      unfold claim
      split
      · rename_i h'
        exact absurd h' h
      · rfl
  | reconciled a result =>
    simp only [act, txns]
    split <;> rfl
  | conclude a now =>
    simp only [act, conclude, txns]
    cases w.attempts a with
    | answered row result =>
      cases result with
      | unavailable reason => rfl
      | failed => rfl
      | _ => exact outcomeTx_db _ _ _
    | mismatched row => exact outcomeTx_db _ _ _
    | _ => rfl
  | loseAttempt a => rfl
  | claimEvent id status =>
    simp only [act, txns]
    split <;> rfl
  | published id now =>
    simp only [act, txns]
    split
    · split
      · obtain ⟨t, ht⟩ := updateEvent_eq w.db id (publishedEvent now)
        show updateEvent id (publishedEvent now) w.db = _
        rw [ht]
        rfl
      · rfl
    · rfl
  | notPublished id now maxAttempts =>
    simp only [act, txns]
    split
    · exact deliveryTxns_eq _ _ _ _
    · rfl
  | losePublisher id => rfl
  | transact t =>
    simp only [act, txns]
    split <;> rfl
  | surroundings s => rfl

theorem evolves_act (w : World) (a : Action) : Evolves w.db (w.act a).db := by
  rw [act_db]
  exact evolves_commitAll _ _

end Database

end World

end Binarius
