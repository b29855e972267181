import Mathlib.Tactic
import Binarius.Db.TradeIntentOps.Settle

/-!
# Backend.Outbox — the outbox store's transitions and the publisher's policy
(apps/backend/src/outbox: store.ts, publisher.ts)

A publisher claims a row `FOR UPDATE SKIP LOCKED`, asks the queue, and writes what came of it in the
transaction that holds the claim: the row it writes is the one it claimed.

* `recordDeliveryFailure_ok`: **one more failed delivery** — back to pending, or failed together with
  what the policy gives up.
-/

namespace Binarius

open Lib

structure DeliveryPolicy where
  /-- absent: never give up -/
  maxAttempts : Option ℕ
  backoffMs : ℕ → ℤ
  /-- runs in the same transaction as the exhaustion -/
  onExhausted : UnixMs → OutboxEventRow → DbTx Unit

def maxBackoffMs : ℤ := 16000

def backoffMs (attempts : ℕ) : ℤ := min maxBackoffMs (1000 * 2 ^ (attempts - 1))

/-- What giving up on a trading-intents row means: a still queued intent is rejected. -/
def rejectUnpublished (now : UnixMs) (row : OutboxEventRow) : DbTx Unit := do
  let _ ← rejectIntent now
    { id := row.intentId, fromStatus := .queued, reason := .publishFailed }
  return ()

/-- trading-intents gives up after `maxAttempts`; a reconciliation row is retried for as long as it
takes. -/
def policyFor (maxAttempts : ℕ) : OutboxTopic → DeliveryPolicy
  | .tradingIntents =>
    { maxAttempts := some maxAttempts, backoffMs := backoffMs, onExhausted := rejectUnpublished }
  | .tradingReconciliation =>
    { maxAttempts := none, backoffMs := backoffMs, onExhausted := fun _ _ => return () }

/-- The row a claim reads, of the status it asks for. -/
def claimOutboxRow (db : Db) (id : OutboxTopic × IntentId) (status : OutboxStatus) :
    Option OutboxEventRow :=
  (db.outboxEvents.find? id).filter (fun row => row.status = status)

def publishedEvent (now : UnixMs) (row : OutboxEventRow) : OutboxEventRow :=
  { row with status := .published, publishedAt := some now, lastError := none }

/-- `UPDATE outbox_events … WHERE id`: no row, no write. -/
def updateEvent (id : OutboxTopic × IntentId) (f : OutboxEventRow → OutboxEventRow) (db : Db) : Db :=
  match db.outboxEvents.updateAt id (fun _ => true) f with
  | some (_, outboxEvents) => { db with outboxEvents := outboxEvents }
  | none => db

def markPublished (now : UnixMs) (id : OutboxTopic × IntentId) : DbTx Unit :=
  DbTx.write (updateEvent id (publishedEvent now))

/-- The delivery is given up at this failure. -/
def isExhausted (policy : DeliveryPolicy) (row : OutboxEventRow) : Bool :=
  policy.maxAttempts.any (fun n => decide (n ≤ row.attempts + 1))

/-- The row after one more failed delivery of the claimed one. -/
def failedEvent (now : UnixMs) (policy : DeliveryPolicy) (claimed row : OutboxEventRow) : OutboxEventRow :=
  { row with
    attempts := claimed.attempts + 1
    status := if isExhausted policy claimed then .failed else .pending
    availableAt := if isExhausted policy claimed then row.availableAt
      else now + policy.backoffMs (claimed.attempts + 1)
    lastError := some .publishFailed }

/-- One more failed delivery for a claimed row. -/
def recordDeliveryFailure (now : UnixMs) (row : OutboxEventRow) (policy : DeliveryPolicy) : DbTx Bool := do
  DbTx.write (updateEvent (row.topic, row.intentId) (failedEvent now policy row))
  DbTx.onlyIf (isExhausted policy row) (policy.onExhausted now row)
  return isExhausted policy row

section Specs

variable {now : UnixMs} {db db' : Db}

/-- The outbox after the update of one row. -/
theorem updateEvent_find (db : Db) (id : OutboxTopic × IntentId) (f : OutboxEventRow → OutboxEventRow)
    (hf : ∀ r, key (f r) = key r) (k : OutboxTopic × IntentId) :
    (updateEvent id f db).outboxEvents.find? k =
      if id = k then (db.outboxEvents.find? k).map f else db.outboxEvents.find? k := by
  unfold updateEvent
  cases h : db.outboxEvents.updateAt id (fun _ => true) f with
  | none =>
    have hnone := Table.updateAt_eq_none.mp h
    by_cases hid : id = k
    · subst hid
      cases hfind : db.outboxEvents.find? id with
      | none => simp
      | some r =>
        have := hnone r hfind
        simp at this
    · simp [hid]
  | some p =>
    obtain ⟨r', t⟩ := p
    obtain ⟨r, hr, _, rfl, rfl⟩ := Table.updateAt_eq_some.mp h
    have hkey : key (f r) = id := (hf r).trans (Table.key_of_find? hr)
    have hfound : db.outboxEvents.find? (key (f r)) = some r := by rw [hkey]; exact hr
    rw [Table.find?_put_of_find? hfound, hkey]
    by_cases hid : id = k
    · subst hid
      simp [hr]
    · simp [hid]

/-- The update touches the outbox alone. -/
theorem updateEvent_eq (db : Db) (id : OutboxTopic × IntentId) (f : OutboxEventRow → OutboxEventRow) :
    ∃ t, updateEvent id f db = { db with outboxEvents := t } := by
  unfold updateEvent
  split
  · exact ⟨_, rfl⟩
  · exact ⟨db.outboxEvents, rfl⟩

/-- **One more failed delivery.** -/
theorem recordDeliveryFailure_ok {row : OutboxEventRow} {policy : DeliveryPolicy} {res : Bool}
    (h : (recordDeliveryFailure now row policy).run db = .ok (res, db')) :
    res = isExhausted policy row ∧
      ((isExhausted policy row = false ∧
          db' = updateEvent (row.topic, row.intentId) (failedEvent now policy row) db) ∨
        (isExhausted policy row = true ∧ ∃ u, (policy.onExhausted now row).run
          (updateEvent (row.topic, row.intentId) (failedEvent now policy row) db) = .ok (u, db'))) := by
  simp only [recordDeliveryFailure, Tx.run_bind_eq_ok, DbTx.run_write_eq_ok, DbTx.run_onlyIf_eq_ok,
    StateT.run_pure, Tx.run_pure_eq_ok] at h
  obtain ⟨_, _, rfl, _, _, hmove, rfl, rfl⟩ := h
  refine ⟨rfl, ?_⟩
  rcases hmove with ⟨hex, hrun⟩ | ⟨hex, rfl⟩
  · exact .inr ⟨hex, _, hrun⟩
  · exact .inl ⟨by simpa using hex, rfl⟩

theorem rejectUnpublished_ok {row : OutboxEventRow} {u : Unit}
    (h : (rejectUnpublished now row).run db = .ok (u, db')) :
    ∃ res, (rejectIntent now
      { id := row.intentId, fromStatus := .queued, reason := .publishFailed }).run db =
        .ok (res, db') := by
  simp only [rejectUnpublished, Tx.run_bind_eq_ok, StateT.run_pure, Tx.run_pure_eq_ok] at h
  obtain ⟨res, _, hrun, _, rfl⟩ := h
  exact ⟨res, hrun⟩

end Specs

end Binarius
