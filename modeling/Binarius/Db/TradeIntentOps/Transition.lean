import Mathlib.Tactic
import Binarius.Db.Schema

/-!
# Db.TradeIntentOps.Transition — the one CAS every status change goes through
(packages/db/src/trade-intent-ops.ts)

A transaction gets the database clock as `now`.  The `where` of a transition is its `guard`.

* `transitionIntent_eq_ok`: **what a transition can do** — write the matching row with one more
  version, or match nothing and change nothing.
* `takeIntent_ok`, `markIntentUnknown_ok`, `startReconciling_ok`, `claimReconciling_ok`,
  `haltAccountForManualReview_ok`: the same for each operation that moves no token.
-/

namespace Binarius

open Lib

structure IntentPatch where
  lastError : Option (Option TradeIntentFailureReason) := none
  transport : Option (Option TradeTransport) := none
  submittedAt : Option (Option UnixMs) := none
  tokensReserved : Option ℤ := none

/-- The row with the patch's columns set. -/
def IntentPatch.apply (p : IntentPatch) (row : TradeIntentRow) : TradeIntentRow :=
  { row with
    lastError := p.lastError.getD row.lastError
    transport := p.transport.getD row.transport
    submittedAt := p.submittedAt.getD row.submittedAt
    tokensReserved := p.tokensReserved.getD row.tokensReserved }

structure TransitionOptions where
  id : IntentId
  fromStatus : TradeIntentStatus
  toStatus : TradeIntentStatus
  /-- omitted by callers that guard on time instead; every transition still bumps it -/
  expectedVersion : Option ℕ := none
  patch : IntentPatch := {}
  guard : TradeIntentRow → Bool := fun _ => true

namespace TransitionOptions

/-- The predicate of the `UPDATE`. -/
def admits (o : TransitionOptions) (row : TradeIntentRow) : Bool :=
  row.status = o.fromStatus && o.expectedVersion.all (· = row.version) && o.guard row

/-- The row as the `UPDATE` leaves it. -/
def written (now : UnixMs) (o : TransitionOptions) (row : TradeIntentRow) : TradeIntentRow :=
  { o.patch.apply row with
    status := o.toStatus
    version := row.version + 1
    updatedAt := now }

section Written

variable {now : UnixMs} {o : TransitionOptions} {row : TradeIntentRow}

@[simp] theorem written_id : (o.written now row).id = row.id := rfl
@[simp] theorem written_status : (o.written now row).status = o.toStatus := rfl
@[simp] theorem written_version : (o.written now row).version = row.version + 1 := rfl
@[simp] theorem written_userId : (o.written now row).userId = row.userId := rfl
@[simp] theorem written_accountId : (o.written now row).brokerAccountId = row.brokerAccountId := rfl
@[simp] theorem written_mode : (o.written now row).mode = row.mode := rfl
@[simp] theorem written_claimedAt : (o.written now row).reconcileClaimedAt = row.reconcileClaimedAt := rfl
@[simp] theorem written_tokensReserved :
    (o.written now row).tokensReserved = o.patch.tokensReserved.getD row.tokensReserved := rfl
@[simp] theorem written_submittedAt :
    (o.written now row).submittedAt = o.patch.submittedAt.getD row.submittedAt := rfl

theorem admits_eq_true : o.admits row = true ↔
    row.status = o.fromStatus ∧ (∀ v, o.expectedVersion = some v → row.version = v) ∧
      o.guard row = true := by
  unfold TransitionOptions.admits
  cases o.expectedVersion with
  | none => simp
  | some v =>
    simp only [Option.all_some, Bool.and_eq_true, decide_eq_true_eq, Option.some.injEq, forall_eq',
      and_assoc]
    exact ⟨fun ⟨h1, h2, h3⟩ => ⟨h1, h2.symm, h3⟩, fun ⟨h1, h2, h3⟩ => ⟨h1, h2.symm, h3⟩⟩

end Written

end TransitionOptions

/-- The one compare-and-set every status change goes through. -/
def transitionIntent (now : UnixMs) (o : TransitionOptions) : DbTx (Option TradeIntentRow) := do
  DbTx.require (canTransition o.fromStatus o.toStatus) (.illegalTransition o.fromStatus o.toStatus)
  let db ← get
  match db.tradeIntents.updateAt o.id o.admits (o.written now) with
  | none => return none
  | some (row, tradeIntents) =>
    set { db with tradeIntents := tradeIntents }
    return some row

section Transition

variable {now : UnixMs} {db db' : Db} {res : Option TradeIntentRow}

/-- **What a transition can do.** -/
theorem transitionIntent_eq_ok {o : TransitionOptions} :
    (transitionIntent now o).run db = .ok (res, db') ↔
      canTransition o.fromStatus o.toStatus = true ∧
        ((∃ row, db.find o.id = some row ∧ o.admits row = true ∧ res = some (o.written now row) ∧
            db' = db.setIntent (o.written now row)) ∨
          ((∀ row, db.find o.id = some row → o.admits row = false) ∧ res = none ∧ db' = db)) := by
  simp only [transitionIntent, Tx.run_bind_eq_ok, DbTx.run_require_eq_ok, Tx.run_get_eq_ok]
  cases hu : db.tradeIntents.updateAt o.id o.admits (o.written now) with
  | none =>
    have hno := Table.updateAt_eq_none.mp hu
    constructor
    · rintro ⟨_, _, ⟨hc, rfl⟩, _, _, ⟨rfl, rfl⟩, h⟩
      rw [hu] at h
      simp only [StateT.run_pure, Tx.run_pure_eq_ok] at h
      exact ⟨hc, .inr ⟨hno, h.1.symm, h.2.symm⟩⟩
    · rintro ⟨hc, ⟨row, hf, hm, _⟩ | ⟨_, rfl, rfl⟩⟩
      · have := hno row hf
        simp [hm] at this
      · refine ⟨(), db', ⟨hc, rfl⟩, db', db', ⟨rfl, rfl⟩, ?_⟩
        rw [hu]
        simp
  | some p =>
    obtain ⟨row', t⟩ := p
    obtain ⟨row, hf, hm, rfl, rfl⟩ := Table.updateAt_eq_some.mp hu
    constructor
    · rintro ⟨_, _, ⟨hc, rfl⟩, _, _, ⟨rfl, rfl⟩, h⟩
      rw [hu] at h
      simp only [Tx.run_bind_eq_ok, Tx.run_set_eq_ok, StateT.run_pure, Tx.run_pure_eq_ok] at h
      obtain ⟨_, _, rfl, rfl, rfl⟩ := h
      exact ⟨hc, .inl ⟨row, hf, hm, rfl, rfl⟩⟩
    · rintro ⟨hc, ⟨row₂, hf₂, _, rfl, rfl⟩ | ⟨hno, _⟩⟩
      · have hrow : row₂ = row := by simpa [Db.find, hf] using hf₂.symm
        subst hrow
        refine ⟨(), db, ⟨hc, rfl⟩, db, db, ⟨rfl, rfl⟩, ?_⟩
        rw [hu]
        simp [Db.setIntent]
      · have := hno row hf
        simp [hm] at this

/-- A transition that answers a row wrote it. -/
theorem transitionIntent_some {o : TransitionOptions} {row' : TradeIntentRow}
    (h : (transitionIntent now o).run db = .ok (some row', db')) :
    ∃ row, db.find o.id = some row ∧ canTransition o.fromStatus o.toStatus = true ∧
      o.admits row = true ∧ row' = o.written now row ∧ db' = db.setIntent row' := by
  obtain ⟨hc, ⟨row, hf, hm, hres, hdb⟩ | ⟨_, hres, _⟩⟩ := transitionIntent_eq_ok.mp h
  · simp only [Option.some.injEq] at hres
    exact ⟨row, hf, hc, hm, hres, hres ▸ hdb⟩
  · simp at hres

/-- A transition that answers nothing changed nothing. -/
theorem transitionIntent_none {o : TransitionOptions}
    (h : (transitionIntent now o).run db = .ok (none, db')) : db' = db := by
  obtain ⟨_, ⟨_, _, _, hres, _⟩ | ⟨_, _, hdb⟩⟩ := transitionIntent_eq_ok.mp h
  · simp at hres
  · exact hdb

end Transition

/-! ## The worker's take -/

/-- `exists (select 1 from trading_switch where trading_enabled)`: a missing row reads as closed. -/
def tradingOpen (db : Db) : Bool := db.tradingSwitch = some true

structure TakeIntentOptions where
  id : IntentId
  expectedVersion : ℕ
  maxAgeMs : ℤ

/-- The terms of a take beside the CAS: the age, the entry window and the switch. -/
def takeable (now : UnixMs) (db : Db) (maxAgeMs : ℤ) (row : TradeIntentRow) : Bool :=
  decide (now - maxAgeMs ≤ row.createdAt) && row.submitDeadlineAt.all (fun d => decide (now < d)) &&
    tradingOpen db

/-- queued → submitting. -/
def takeIntent (now : UnixMs) (o : TakeIntentOptions) : DbTx (Option TradeIntentRow) := do
  let db ← get
  transitionIntent now
    { id := o.id, fromStatus := .queued, toStatus := .submitting
      expectedVersion := some o.expectedVersion
      patch := { submittedAt := some (some now) }
      guard := takeable now db o.maxAgeMs }

/-! ## Unknown and reconciling -/

structure MarkUnknownOptions where
  id : IntentId
  reason : TradeIntentFailureReason
  expectedVersion : Option ℕ := none
  /-- sweeper: only an intent that has been submitting longer than this -/
  olderThanMs : Option ℤ := none

/-- An outbox row as its insert leaves it. -/
def pendingEvent (now : UnixMs) (topic : OutboxTopic) (id : IntentId) : OutboxEventRow where
  topic := topic
  intentId := id
  status := .pending
  attempts := 0
  availableAt := now
  publishedAt := none
  lastError := none

/-- `submitted_at < now() - ms`; a NULL matches nothing. -/
def submittedBefore (t : UnixMs) (row : TradeIntentRow) : Bool :=
  row.submittedAt.any (fun s => decide (s < t))

/-- `onConflictDoNothing` on `(topic, intent_id)`. -/
def insertEventOrIgnore (event : OutboxEventRow) (db : Db) : Db :=
  match db.outboxEvents.insert? event with
  | some outboxEvents => { db with outboxEvents := outboxEvents }
  | none => db

/-- submitting → unknown, with the reconciliation outbox row. -/
def markIntentUnknown (now : UnixMs) (o : MarkUnknownOptions) : DbTx (Option TradeIntentRow) := do
  let some row ← transitionIntent now
    { id := o.id, fromStatus := .submitting, toStatus := .unknown
      expectedVersion := o.expectedVersion
      patch := { lastError := some (some o.reason) }
      guard := fun row => o.olderThanMs.all (fun ms => submittedBefore (now - ms) row) }
    | return none
  DbTx.write (insertEventOrIgnore (pendingEvent now .tradingReconciliation o.id))
  return some row

/-- unknown → reconciling; `reconcile_claimed_at` stays NULL. -/
def startReconciling (now : UnixMs) (id : IntentId) (expectedVersion : ℕ) :
    DbTx (Option TradeIntentRow) :=
  transitionIntent now
    { id := id, fromStatus := .unknown, toStatus := .reconciling
      expectedVersion := some expectedVersion }

/-- The lease: never claimed, or claimed longer than `retryMs` ago. -/
def reconcileLeaseExpired (now : UnixMs) (retryMs : ℤ) (row : TradeIntentRow) : Bool :=
  row.reconcileClaimedAt.all (fun c => decide (c < now - retryMs))

/-- A claimed row: no status in the SET list, but one more version. -/
def claimed (now : UnixMs) (row : TradeIntentRow) : TradeIntentRow :=
  { row with reconcileClaimedAt := some now, version := row.version + 1, updatedAt := now }

/-- The one `UPDATE` of an intent that is not a transition. -/
def claimReconciling (now : UnixMs) (id : IntentId) (retryMs : ℤ) : DbTx (Option TradeIntentRow) := do
  let db ← get
  match db.tradeIntents.updateAt id
      (fun row => row.status = .reconciling && reconcileLeaseExpired now retryMs row) (claimed now) with
  | none => return none
  | some (row, tradeIntents) =>
    set { db with tradeIntents := tradeIntents }
    return some row

/-! ## Manual review -/

/-- reconciling → manual_review; the reserve is kept. -/
def markIntentManualReview (now : UnixMs) (id : IntentId) (expectedVersion : ℕ)
    (reason : TradeIntentFailureReason) : DbTx (Option TradeIntentRow) :=
  transitionIntent now
    { id := id, fromStatus := .reconciling, toStatus := .manualReview
      expectedVersion := some expectedVersion
      patch := { lastError := some (some reason) } }

/-- ManualReviewReason; HALT_REASON_FOR keeps the name, so the halt's own reasons spell both. -/
def AccountHaltReason.failureReason : AccountHaltReason → TradeIntentFailureReason
  | .reconciliationAmbiguous => .reconciliationAmbiguous
  | .reconciliationNotFound => .reconciliationNotFound
  | .tradeMismatch => .tradeMismatch

/-- The account with its halt. -/
def halted (reason : AccountHaltReason) (account : BrokerAccountRow) : BrokerAccountRow :=
  { account with tradingHalted := true, haltedReason := some reason }

/-- reconciling → manual_review and the account's halt in one transaction. -/
def haltAccountForManualReview (now : UnixMs) (id : IntentId) (expectedVersion : ℕ)
    (reason : AccountHaltReason) : DbTx (Option TradeIntentRow) := do
  let db ← get
  let some intent := db.find id | return none
  let some account := db.brokerAccounts.find? intent.brokerAccountId | return none
  let some row ← markIntentManualReview now id expectedVersion reason.failureReason | return none
  DbTx.write (fun db => { db with brokerAccounts := db.brokerAccounts.put (halted reason account) })
  return some row

/-! ## What the operations can do -/

section Specs

variable {now : UnixMs} {db db' : Db} {res : Option TradeIntentRow}

theorem takeIntent_ok {o : TakeIntentOptions} (h : (takeIntent now o).run db = .ok (res, db')) :
    (res = none ∧ db' = db) ∨
      ∃ row row', db.find o.id = some row ∧ row.status = .queued ∧ row.version = o.expectedVersion ∧
        takeable now db o.maxAgeMs row = true ∧ res = some row' ∧
        row' = { row with
          status := .submitting, version := row.version + 1, submittedAt := some now, updatedAt := now } ∧
        db' = db.setIntent row' := by
  simp only [takeIntent, Tx.run_bind_eq_ok, Tx.run_get_eq_ok] at h
  obtain ⟨_, _, ⟨rfl, rfl⟩, h⟩ := h
  cases res with
  | none => exact .inl ⟨rfl, transitionIntent_none h⟩
  | some row' =>
    obtain ⟨row, hf, _, hm, hrow, hdb⟩ := transitionIntent_some h
    obtain ⟨hs, hv, hg⟩ := TransitionOptions.admits_eq_true.mp hm
    exact .inr ⟨row, row', hf, hs, hv _ rfl, hg, rfl, hrow, hdb⟩

theorem markIntentUnknown_ok {o : MarkUnknownOptions}
    (h : (markIntentUnknown now o).run db = .ok (res, db')) :
    (res = none ∧ db' = db) ∨
      ∃ row row', db.find o.id = some row ∧ row.status = .submitting ∧
        (∀ v, o.expectedVersion = some v → row.version = v) ∧ res = some row' ∧
        row' = { row with
          status := .unknown, version := row.version + 1, lastError := some o.reason, updatedAt := now } ∧
        db' = insertEventOrIgnore (pendingEvent now .tradingReconciliation o.id) (db.setIntent row') := by
  simp only [markIntentUnknown, Tx.run_bind_eq_ok] at h
  obtain ⟨moved, db₁, ht, h⟩ := h
  cases moved with
  | none =>
    simp only [StateT.run_pure, Tx.run_pure_eq_ok] at h
    obtain ⟨rfl, rfl⟩ := h
    exact .inl ⟨rfl, transitionIntent_none ht⟩
  | some row' =>
    obtain ⟨row, hf, _, hm, hrow, rfl⟩ := transitionIntent_some ht
    obtain ⟨hs, hv, _⟩ := TransitionOptions.admits_eq_true.mp hm
    simp only [Tx.run_bind_eq_ok, DbTx.run_write_eq_ok, StateT.run_pure, Tx.run_pure_eq_ok] at h
    obtain ⟨_, _, rfl, rfl, rfl⟩ := h
    exact .inr ⟨row, row', hf, hs, hv, rfl, hrow, rfl⟩

theorem startReconciling_ok {id : IntentId} {v : ℕ}
    (h : (startReconciling now id v).run db = .ok (res, db')) :
    (res = none ∧ db' = db) ∨
      ∃ row row', db.find id = some row ∧ row.status = .unknown ∧ row.version = v ∧ res = some row' ∧
        row' = { row with status := .reconciling, version := row.version + 1, updatedAt := now } ∧
        db' = db.setIntent row' := by
  cases res with
  | none => exact .inl ⟨rfl, transitionIntent_none h⟩
  | some row' =>
    obtain ⟨row, hf, _, hm, hrow, hdb⟩ := transitionIntent_some h
    obtain ⟨hs, hv, _⟩ := TransitionOptions.admits_eq_true.mp hm
    exact .inr ⟨row, row', hf, hs, hv _ rfl, rfl, hrow, hdb⟩

theorem claimReconciling_ok {id : IntentId} {retryMs : ℤ}
    (h : (claimReconciling now id retryMs).run db = .ok (res, db')) :
    (res = none ∧ db' = db) ∨
      ∃ row, db.find id = some row ∧ row.status = .reconciling ∧
        reconcileLeaseExpired now retryMs row = true ∧ res = some (claimed now row) ∧
        db' = db.setIntent (claimed now row) := by
  simp only [claimReconciling, Tx.run_bind_eq_ok, Tx.run_get_eq_ok] at h
  obtain ⟨_, _, ⟨rfl, rfl⟩, h⟩ := h
  split at h
  · simp only [StateT.run_pure, Tx.run_pure_eq_ok] at h
    exact .inl ⟨h.1.symm, h.2.symm⟩
  · rename_i row' tradeIntents hu
    simp only [Tx.run_bind_eq_ok, Tx.run_set_eq_ok, StateT.run_pure, Tx.run_pure_eq_ok] at h
    obtain ⟨_, _, rfl, rfl, rfl⟩ := h
    obtain ⟨row, hf, hg, rfl, rfl⟩ := Table.updateAt_eq_some.mp hu
    simp only [Bool.and_eq_true, decide_eq_true_eq] at hg
    exact .inr ⟨row, hf, hg.1, hg.2, rfl, rfl⟩

theorem haltAccountForManualReview_ok {id : IntentId} {v : ℕ} {reason : AccountHaltReason}
    (h : (haltAccountForManualReview now id v reason).run db = .ok (res, db')) :
    (res = none ∧ db' = db) ∨
      ∃ row account row', db.find id = some row ∧ row.status = .reconciling ∧ row.version = v ∧
        db.brokerAccounts.find? row.brokerAccountId = some account ∧ res = some row' ∧
        row' = { row with
          status := .manualReview, version := row.version + 1
          lastError := some reason.failureReason, updatedAt := now } ∧
        db' = { db.setIntent row' with
          brokerAccounts := db.brokerAccounts.put (halted reason account) } := by
  simp only [haltAccountForManualReview, Tx.run_bind_eq_ok, Tx.run_get_eq_ok] at h
  obtain ⟨_, _, ⟨rfl, rfl⟩, h⟩ := h
  cases hf : db.find id with
  | none =>
    simp only [hf, StateT.run_pure, Tx.run_pure_eq_ok] at h
    exact .inl ⟨h.1.symm, h.2.symm⟩
  | some intent =>
    simp only [hf] at h
    cases ha : db.brokerAccounts.find? intent.brokerAccountId with
    | none =>
      simp only [ha, StateT.run_pure, Tx.run_pure_eq_ok] at h
      exact .inl ⟨h.1.symm, h.2.symm⟩
    | some account =>
      simp only [ha, Tx.run_bind_eq_ok] at h
      obtain ⟨moved, db₁, ht, h⟩ := h
      cases moved with
      | none =>
        simp only [StateT.run_pure, Tx.run_pure_eq_ok] at h
        obtain ⟨rfl, rfl⟩ := h
        exact .inl ⟨rfl, transitionIntent_none ht⟩
      | some row' =>
        obtain ⟨row, hf₂, _, hm, hrow, rfl⟩ := transitionIntent_some ht
        have hint : intent = row := by simpa [hf] using hf₂
        subst hint
        obtain ⟨hs, hv, _⟩ := TransitionOptions.admits_eq_true.mp hm
        simp only [Tx.run_bind_eq_ok, DbTx.run_write_eq_ok, StateT.run_pure, Tx.run_pure_eq_ok] at h
        obtain ⟨_, _, rfl, rfl, rfl⟩ := h
        exact .inr ⟨intent, account, row', rfl, hs, hv _ rfl, ha, rfl, hrow, rfl⟩

end Specs

end Binarius
