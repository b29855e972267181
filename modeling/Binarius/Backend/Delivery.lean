import Mathlib.Tactic
import Binarius.Worker.World

/-!
# Backend.Delivery — the outbox beside the intents: no intent is stranded
(apps/backend/src/outbox, packages/db/src/trade-intent-ops.ts)

The intent row and its outbox row are written by different processes.  An intent is stranded when it
waits in `queued` or `unknown` and no outbox row will ever bring its job.

* `Announces`: what a transaction other than a publisher's does to the outbox — every row stays as it is,
  new rows are pending, and an intent it leaves `queued` or `unknown` has its row.
* `Covered`: the invariant of the two tables; `Announces.covered` and `covered_delivery` keep it.
* `exhaustion_effect`: **a failed row and the rejection of its intent are one transaction**.
* `no_stranded_intent`: the invariant over every run of the world.
-/

namespace Binarius

open Lib

/-! ## What a transaction announces -/

/-- The outbox row of an intent's topic. -/
def Db.event (db : Db) (topic : OutboxTopic) (id : IntentId) : Option OutboxEventRow :=
  db.outboxEvents.find? (topic, id)

/-- A transaction that delivers nothing: it keeps every outbox row, adds pending ones, and adds the row
of every intent it leaves waiting for a job. -/
structure Announces (db db' : Db) : Prop where
  kept : ∀ topic id e, db.event topic id = some e → db'.event topic id = some e
  fresh : ∀ topic id e, db'.event topic id = some e →
    db.event topic id = some e ∨ (db.event topic id = none ∧ e.status = .pending)
  queued : ∀ id r, db'.find id = some r → r.status = .queued →
    db.find id = some r ∨ ∃ e, db'.event .tradingIntents id = some e ∧ e.status = .pending
  unknown : ∀ id r, db'.find id = some r → r.status = .unknown →
    db.find id = some r ∨ ∃ e, db'.event .tradingReconciliation id = some e

namespace Announces

variable {db db' db'' : Db}

theorem refl (db : Db) : Announces db db :=
  ⟨fun _ _ _ h => h, fun _ _ _ h => .inl h, fun _ _ h _ => .inl h, fun _ _ h _ => .inl h⟩

theorem trans (h : Announces db db') (h' : Announces db' db'') : Announces db db'' := by
  refine ⟨fun topic id e he => h'.kept topic id e (h.kept topic id e he), ?_, ?_, ?_⟩
  · intro topic id e he
    rcases h'.fresh topic id e he with he' | ⟨hnone, hpending⟩
    · exact h.fresh topic id e he'
    · cases hold : db.event topic id with
      | none => exact .inr ⟨rfl, hpending⟩
      | some e₀ =>
        rw [h.kept topic id e₀ hold] at hnone
        simp at hnone
  · intro id r hr hs
    rcases h'.queued id r hr hs with hr' | he
    · rcases h.queued id r hr' hs with hr'' | ⟨e, he, hp⟩
      · exact .inl hr''
      · exact .inr ⟨e, h'.kept _ _ _ he, hp⟩
    · exact .inr he
  · intro id r hr hs
    rcases h'.unknown id r hr hs with hr' | he
    · rcases h.unknown id r hr' hs with hr'' | ⟨e, he⟩
      · exact .inl hr''
      · exact .inr ⟨e, h'.kept _ _ _ he⟩
    · exact .inr he

/-- Neither the outbox nor an intent is written. -/
theorem of_eq (hi : db'.tradeIntents = db.tradeIntents) (ho : db'.outboxEvents = db.outboxEvents) :
    Announces db db' := by
  have hevent : ∀ topic id, db'.event topic id = db.event topic id := by
    intro topic id
    rw [Db.event, ho]
    rfl
  have hfind : ∀ id, db'.find id = db.find id := by
    intro id
    rw [Db.find, hi]
    rfl
  exact ⟨fun topic id e he => (hevent topic id).trans he,
    fun topic id e he => .inl ((hevent topic id).symm.trans he),
    fun id r hr _ => .inl ((hfind id).symm.trans hr), fun id r hr _ => .inl ((hfind id).symm.trans hr)⟩

/-- One intent is written, and it waits for no job. -/
theorem of_put (row : TradeIntentRow) {row' : TradeIntentRow}
    (hi : db'.tradeIntents = db.tradeIntents.put row') (ho : db'.outboxEvents = db.outboxEvents)
    (hf : db.find row'.id = some row) (hq : row'.status ≠ .queued)
    (hu : row'.status ≠ .unknown) : Announces db db' := by
  have hevent : ∀ topic id, db'.event topic id = db.event topic id := by
    intro topic id
    rw [Db.event, ho]
    rfl
  have hother : ∀ id r, db'.find id = some r → r.status = .queued ∨ r.status = .unknown →
      db.find id = some r := by
    intro id r hr hs
    have hfind := Table.find?_put_of_find? (r := row') (k := id) hf
    rw [Db.find, hi, hfind] at hr
    split at hr
    · rw [Option.some.injEq] at hr
      subst hr
      rcases hs with hs | hs
      · exact absurd hs hq
      · exact absurd hs hu
    · exact hr
  exact ⟨fun topic id e he => (hevent topic id).trans he,
    fun topic id e he => .inl ((hevent topic id).symm.trans he),
    fun id r hr hs => .inl (hother id r hr (.inl hs)), fun id r hr hs => .inl (hother id r hr (.inr hs))⟩

/-- A new outbox row. -/
theorem kept_of_insert (db db' : Db) {event : OutboxEventRow} {t : Table OutboxEventRow}
    (h : db.outboxEvents.insert? event = some t) (ho : db'.outboxEvents = t)
    (hp : event.status = .pending) :
    (∀ topic id e, db.event topic id = some e → db'.event topic id = some e) ∧
      ∀ topic id e, db'.event topic id = some e →
        db.event topic id = some e ∨ (db.event topic id = none ∧ e.status = .pending) := by
  have hnone := (Table.insert?_eq_some.mp h).1
  have hfind : ∀ topic id, db'.event topic id =
      if key event = (topic, id) then some event else db.event topic id := by
    intro topic id
    rw [Db.event, ho]
    exact Table.find?_of_insert? h (topic, id)
  refine ⟨?_, ?_⟩
  · intro topic id e he
    rw [hfind, if_neg]
    · exact he
    · intro hk
      rw [hk] at hnone
      simp [Db.event, hnone] at he
  · intro topic id e he
    rw [hfind] at he
    split at he
    · rename_i hk
      rw [Option.some.injEq] at he
      subst he
      refine .inr ⟨?_, hp⟩
      rw [hk] at hnone
      exact hnone
    · exact .inl he

end Announces

section Transactions

variable {now : UnixMs} {db db' : Db}

theorem announces_takeIntent {o : TakeIntentOptions} {res : Option TradeIntentRow}
    (h : (takeIntent now o).run db = .ok (res, db')) : Announces db db' := by
  obtain ⟨_, rfl⟩ | ⟨row, row', hf, _, _, _, _, rfl, rfl⟩ := takeIntent_ok h
  · exact Announces.refl _
  · exact Announces.of_put row rfl rfl (Db.find_self hf) (by simp) (by simp)

theorem TokenMove.outboxEvents {userId : UserId} {tokens : ℤ} {entry : TokenLedgerRow}
    (h : TokenMove db userId tokens entry db') : db'.outboxEvents = db.outboxEvents := by
  rcases h with ⟨_, rfl⟩ | ⟨_, user, _, _, rfl⟩ <;> rfl

theorem announces_rejectIntent {o : RejectIntentOptions} {res : Option TradeIntentRow}
    (h : (rejectIntent now o).run db = .ok (res, db')) : Announces db db' := by
  obtain ⟨_, rfl⟩ | ⟨row, hf, _, _, _, _, _, hmove⟩ := rejectIntent_ok h
  · exact Announces.refl _
  · have hself : db.find (rejectedRow now o.reason row).id = some row := Db.find_self hf
    exact Announces.of_put row (hmove.tradeIntents.trans rfl) (hmove.outboxEvents.trans rfl) hself
      (by simp [rejectedRow]) (by simp [rejectedRow])

theorem announces_markIntentUnknown {o : MarkUnknownOptions} {res : Option TradeIntentRow}
    (h : (markIntentUnknown now o).run db = .ok (res, db')) : Announces db db' := by
  obtain ⟨_, rfl⟩ | ⟨row, row', hf, _, _, _, hrow, rfl⟩ := markIntentUnknown_ok h
  · exact Announces.refl _
  · have hid : row'.id = o.id := by
      have hrid : row.id = o.id := Db.find_id hf
      rw [hrow]
      exact hrid
    have hself : db.find row'.id = some row := by
      rw [hid]
      exact hf
    set event := pendingEvent now .tradingReconciliation o.id with hevent
    have hfind : ∀ id r, (insertEventOrIgnore event (db.setIntent row')).find id = some r →
        db.find id = some r ∨ (id = o.id ∧ r.status = .unknown) := by
      intro id r hr
      have hi : (insertEventOrIgnore event (db.setIntent row')).tradeIntents =
          db.tradeIntents.put row' := by
        unfold insertEventOrIgnore
        split <;> rfl
      rw [Db.find, hi, Table.find?_put_of_find? (r := row') (k := id) hself] at hr
      split at hr
      · rename_i hk
        rw [Option.some.injEq] at hr
        refine .inr ⟨?_, by rw [← hr, hrow]⟩
        rw [← hk, ← hid]
        rfl
      · exact .inl hr
    have hnotQueued : ∀ id r, (insertEventOrIgnore event (db.setIntent row')).find id = some r →
        r.status = .queued → db.find id = some r := by
      intro id r hr hs
      rcases hfind id r hr with h | ⟨_, hu⟩
      · exact h
      · simp [hs] at hu
    cases hins : (db.setIntent row').outboxEvents.insert? event with
    | none =>
      -- a row of the topic is already there
      obtain ⟨e, he⟩ := Table.insert?_eq_none.mp hins
      have hdb : insertEventOrIgnore event (db.setIntent row') = db.setIntent row' := by
        simp [insertEventOrIgnore, hins]
      refine ⟨?_, ?_, fun id r hr hs => .inl (hnotQueued id r hr hs), ?_⟩
      · rw [hdb]
        exact fun _ _ _ h => h
      · rw [hdb]
        exact fun _ _ _ h => .inl h
      · intro id r hr hs
        rcases hfind id r hr with h | ⟨rfl, _⟩
        · exact .inl h
        · refine .inr ⟨e, ?_⟩
          rw [hdb]
          exact he
    | some t =>
      have hdb : insertEventOrIgnore event (db.setIntent row') =
          { db.setIntent row' with outboxEvents := t } := by
        simp [insertEventOrIgnore, hins]
      obtain ⟨hkept, hfresh⟩ := Announces.kept_of_insert db
        (insertEventOrIgnore event (db.setIntent row')) hins (by rw [hdb]) rfl
      refine ⟨hkept, hfresh, fun id r hr hs => .inl (hnotQueued id r hr hs), ?_⟩
      intro id r hr hs
      rcases hfind id r hr with h | ⟨rfl, _⟩
      · exact .inl h
      · refine .inr ⟨event, ?_⟩
        rw [hdb]
        exact (Table.find?_of_insert? hins _).trans (if_pos rfl)

theorem announces_markIntentAccepted {o : MarkAcceptedOptions} {res : Option TradeIntentRow}
    (h : (markIntentAccepted now o).run db = .ok (res, db')) : Announces db db' := by
  obtain ⟨_, rfl⟩ | ⟨row, t, hf, _, _, _, _, _, _, rfl⟩ := markIntentAccepted_ok h
  · exact Announces.refl _
  · have hself : db.find (acceptedRow now o.transport row).id = some row := Db.find_self hf
    exact Announces.of_put row rfl rfl hself (by simp [acceptedRow]) (by simp [acceptedRow])

theorem announces_settleIntent {o : SettleIntentOptions} {res : Option TradeIntentRow}
    (h : (settleIntent now o).run db = .ok (res, db')) : Announces db db' := by
  obtain ⟨_, rfl⟩ | ⟨row, db₁, t, hf, _, _, _, _, hmove, rfl⟩ := settleIntent_ok h
  · exact Announces.refl _
  · have hself : db.find (settledRow now row).id = some row := Db.find_self hf
    exact Announces.of_put row (hmove.tradeIntents.trans rfl) (hmove.outboxEvents.trans rfl) hself
      (by simp [settledRow]) (by simp [settledRow])

theorem announces_startReconciling {id : IntentId} {v : ℕ} {res : Option TradeIntentRow}
    (h : (startReconciling now id v).run db = .ok (res, db')) : Announces db db' := by
  obtain ⟨_, rfl⟩ | ⟨row, row', hf, _, _, _, rfl, rfl⟩ := startReconciling_ok h
  · exact Announces.refl _
  · exact Announces.of_put row rfl rfl (Db.find_self hf) (by simp) (by simp)

theorem announces_claimReconciling {id : IntentId} {retryMs : ℤ} {res : Option TradeIntentRow}
    (h : (claimReconciling now id retryMs).run db = .ok (res, db')) : Announces db db' := by
  obtain ⟨_, rfl⟩ | ⟨row, hf, hs, _, _, rfl⟩ := claimReconciling_ok h
  · exact Announces.refl _
  · have hself : db.find (claimed now row).id = some row := Db.find_self hf
    have hstatus : (claimed now row).status = .reconciling := hs
    exact Announces.of_put row rfl rfl hself (by rw [hstatus]; simp) (by rw [hstatus]; simp)

theorem announces_concludeReconciled {id : IntentId} {v : ℕ} {trade : BrokerTrade}
    {res : Option TradeIntentRow} (h : (concludeReconciled now id v trade).run db = .ok (res, db')) :
    Announces db db' := by
  obtain ⟨_, rfl⟩ | ⟨accepted, db₁, ⟨_, hacc⟩, ⟨_, _, rfl⟩ | ⟨closed, settled, _, _, hset⟩⟩ :=
    concludeReconciled_ok h
  · exact Announces.refl _
  · exact announces_markIntentAccepted hacc
  · exact (announces_markIntentAccepted hacc).trans (announces_settleIntent hset)

theorem announces_markIntentManualReview {id : IntentId} {v : ℕ} {reason : TradeIntentFailureReason}
    {res : Option TradeIntentRow}
    (h : (markIntentManualReview now id v reason).run db = .ok (res, db')) : Announces db db' := by
  cases res with
  | none =>
    rw [transitionIntent_none h]
    exact Announces.refl _
  | some row' =>
    obtain ⟨row, hf, _, _, rfl, rfl⟩ := transitionIntent_some h
    exact Announces.of_put row rfl rfl (Db.find_self hf) (by simp) (by simp)

theorem announces_haltAccountForManualReview {id : IntentId} {v : ℕ} {reason : AccountHaltReason}
    {res : Option TradeIntentRow}
    (h : (haltAccountForManualReview now id v reason).run db = .ok (res, db')) : Announces db db' := by
  obtain ⟨_, rfl⟩ | ⟨row, account, row', hf, _, _, _, _, rfl, rfl⟩ := haltAccountForManualReview_ok h
  · exact Announces.refl _
  · exact Announces.of_put row rfl rfl (Db.find_self hf) (by simp) (by simp)

theorem announces_createInTransaction {id : IntentId} {input : CreateTradeIntentRequest}
    {session : Option IntentSession} {options : CreateTradeIntentOptions} {res : CreateTradeIntentResult}
    (h : (createInTransaction now id input session options).run db = .ok (res, db')) :
    Announces db db' := by
  obtain ⟨_, _, _, rfl⟩ | ⟨user, account, t, e, _, _, _, hrow, ht, he, rfl, _⟩ := createInTransaction_ok h
  · exact Announces.refl _
  · set db' : Db := { db.post user (reserveRow user.id id) with tradeIntents := t, outboxEvents := e }
    obtain ⟨hkept, hfresh⟩ := Announces.kept_of_insert db db' he rfl rfl
    have hid : key res.intent = id := by
      rw [hrow]
      rfl
    have hfind : ∀ id' r, db'.find id' = some r → db.find id' = some r ∨ (id' = id ∧ r = res.intent) := by
      intro id' r hr
      have hr' := (Table.find?_of_insert? ht id').symm.trans hr
      split at hr'
      · rename_i hk
        rw [Option.some.injEq] at hr'
        exact .inr ⟨hk.symm.trans hid, hr'.symm⟩
      · exact .inl hr'
    refine ⟨hkept, hfresh, ?_, ?_⟩
    · intro id' r hr hs
      rcases hfind id' r hr with h | ⟨rfl, _⟩
      · exact .inl h
      · exact .inr ⟨_, (Table.find?_of_insert? he _).trans (if_pos rfl), rfl⟩
    · intro id' r hr hs
      rcases hfind id' r hr with h | ⟨_, rfl⟩
      · exact .inl h
      · rw [hrow] at hs
        simp [queuedIntent] at hs

/-- **Every transaction of the ledger announces what it leaves waiting.** -/
theorem Txn.announces_commit (t : Txn) {db : Db}
    (hout : ∀ s, t = .elsewhere s → s.outboxEvents = db.outboxEvents) : Announces db (t.commit db) := by
  have ran : ∀ {α : Type} (x : DbTx α),
      (∀ a db', x.run db = .ok (a, db') → Announces db db') → Announces db (x.commit db) := by
    intro α x h
    exact Tx.commit_induction (P := fun db' : Db => Announces db db') (Announces.refl _) h
  cases t with
  | createTradeIntent now id input session options =>
    exact ran (createInTransaction now id input session options)
      (fun _ _ h => announces_createInTransaction h)
  | takeIntent now o => exact ran (Binarius.takeIntent now o) (fun _ _ h => announces_takeIntent h)
  | rejectIntent now o => exact ran (Binarius.rejectIntent now o) (fun _ _ h => announces_rejectIntent h)
  | markIntentUnknown now o =>
    exact ran (Binarius.markIntentUnknown now o) (fun _ _ h => announces_markIntentUnknown h)
  | markIntentAccepted now o =>
    exact ran (Binarius.markIntentAccepted now o) (fun _ _ h => announces_markIntentAccepted h)
  | settleIntent now o => exact ran (Binarius.settleIntent now o) (fun _ _ h => announces_settleIntent h)
  | startReconciling now id v =>
    exact ran (Binarius.startReconciling now id v) (fun _ _ h => announces_startReconciling h)
  | claimReconciling now id retryMs =>
    exact ran (Binarius.claimReconciling now id retryMs) (fun _ _ h => announces_claimReconciling h)
  | concludeReconciled now id v trade =>
    exact ran (Binarius.concludeReconciled now id v trade) (fun _ _ h => announces_concludeReconciled h)
  | markIntentManualReview now id v reason =>
    exact ran (Binarius.markIntentManualReview now id v reason)
      (fun _ _ h => announces_markIntentManualReview h)
  | haltAccountForManualReview now id v reason =>
    exact ran (Binarius.haltAccountForManualReview now id v reason)
      (fun _ _ h => announces_haltAccountForManualReview h)
  | adjustTokens isControl input =>
    refine ran (Binarius.adjustTokens isControl input) (fun a db' h => ?_)
    obtain rfl | ⟨user, _, _, rfl⟩ := adjustTokens_ok h <;> exact Announces.of_eq rfl rfl
  | creditStarPayment payment =>
    refine ran (Binarius.creditStarPayment payment) (fun a db' h => ?_)
    obtain rfl | ⟨t, rfl | ⟨user, tokens, _, _, rfl⟩⟩ := creditStarPayment_ok h <;>
      exact Announces.of_eq rfl rfl
  | recordStarRefund now input =>
    refine ran (Binarius.recordStarRefund now input) (fun a db' h => ?_)
    obtain rfl | ⟨t, rfl | ⟨payment, user, taken, _, _, _, rfl⟩⟩ := recordStarRefund_ok h <;>
      exact Announces.of_eq rfl rfl
  | addUser id telegramUserId =>
    refine ran (Binarius.addUser id telegramUserId) (fun a db' h => ?_)
    simp only [Binarius.addUser, Tx.run_bind_eq_ok, Tx.run_get_eq_ok, DbTx.run_demand_eq_ok,
      Tx.run_set_eq_ok] at h
    obtain ⟨_, _, ⟨rfl, rfl⟩, t, _, ⟨_, rfl⟩, rfl⟩ := h
    exact Announces.of_eq rfl rfl
  | editUser id status mode =>
    refine ran (Binarius.editUser id status mode) (fun a db' h => ?_)
    simp only [Binarius.editUser, Tx.run_bind_eq_ok, Tx.run_get_eq_ok, DbTx.run_demand_eq_ok,
      Tx.run_set_eq_ok] at h
    obtain ⟨_, _, ⟨rfl, rfl⟩, ⟨_, t⟩, _, ⟨_, rfl⟩, rfl⟩ := h
    exact Announces.of_eq rfl rfl
  | elsewhere s => exact Announces.of_eq rfl (hout s rfl)

end Transactions

/-! ## The invariant -/

/-- Every intent that waits for a job has the row that brings it. -/
structure Covered (db : Db) : Prop where
  queued : ∀ id r, db.find id = some r → r.status = .queued →
    ∃ e, db.event .tradingIntents id = some e ∧ e.status ≠ .failed
  unknown : ∀ id r, db.find id = some r → r.status = .unknown →
    ∃ e, db.event .tradingReconciliation id = some e ∧ e.status ≠ .failed
  reconciliation : ∀ id e, db.event .tradingReconciliation id = some e → e.status ≠ .failed

section Deliveries

variable {now : UnixMs} {db db' : Db}

theorem Announces.covered (h : Announces db db') (hc : Covered db) : Covered db' := by
  have hrec : ∀ id e, db'.event .tradingReconciliation id = some e → e.status ≠ .failed := by
    intro id e he
    rcases h.fresh _ _ _ he with he' | ⟨_, hp⟩
    · exact hc.reconciliation id e he'
    · rw [hp]
      simp
  refine ⟨?_, ?_, hrec⟩
  · intro id r hr hs
    rcases h.queued id r hr hs with hr' | ⟨e, he, hp⟩
    · obtain ⟨e, he, hne⟩ := hc.queued id r hr' hs
      exact ⟨e, h.kept _ _ _ he, hne⟩
    · exact ⟨e, he, by rw [hp]; simp⟩
  · intro id r hr hs
    rcases h.unknown id r hr hs with hr' | ⟨e, he⟩
    · obtain ⟨e, he, hne⟩ := hc.unknown id r hr' hs
      exact ⟨e, h.kept _ _ _ he, hne⟩
    · exact ⟨e, he, hrec id e he⟩

theorem updateEvent_event (db : Db) (k : OutboxTopic × IntentId) {f : OutboxEventRow → OutboxEventRow}
    (hf : ∀ e, key (f e) = key e) (topic : OutboxTopic) (id : IntentId) :
    (updateEvent k f db).event topic id =
      if k = (topic, id) then (db.event topic id).map f else db.event topic id :=
  updateEvent_find db k f hf (topic, id)

@[simp] theorem updateEvent_intents (db : Db) (k : OutboxTopic × IntentId)
    (f : OutboxEventRow → OutboxEventRow) :
    (updateEvent k f db).tradeIntents = db.tradeIntents := by
  obtain ⟨t, ht⟩ := updateEvent_eq db k f
  rw [ht]

/-- A row written with another status than `failed`. -/
theorem Covered.updateEvent (hc : Covered db) (k : OutboxTopic × IntentId)
    {f : OutboxEventRow → OutboxEventRow} (hf : ∀ e, key (f e) = key e)
    (hs : ∀ e, (f e).status ≠ .failed) : Covered (updateEvent k f db) := by
  have hfind : ∀ id, (Binarius.updateEvent k f db).find id = db.find id := by
    intro id
    rw [Db.find, updateEvent_intents]
    rfl
  have hevent : ∀ topic id e, db.event topic id = some e → e.status ≠ .failed →
      ∃ e', (Binarius.updateEvent k f db).event topic id = some e' ∧ e'.status ≠ .failed := by
    intro topic id e he hne
    rw [updateEvent_event db k hf, he]
    split
    · exact ⟨f e, rfl, hs e⟩
    · exact ⟨e, rfl, hne⟩
  refine ⟨?_, ?_, ?_⟩
  · intro id r hr hq
    obtain ⟨e, he, hne⟩ := hc.queued id r ((hfind id).symm.trans hr) hq
    exact hevent _ _ e he hne
  · intro id r hr hu
    obtain ⟨e, he, hne⟩ := hc.unknown id r ((hfind id).symm.trans hr) hu
    exact hevent _ _ e he hne
  · intro id e he
    rw [updateEvent_event db k hf] at he
    split at he
    · obtain ⟨e₀, _, rfl⟩ := Option.map_eq_some_iff.mp he
      exact hs e₀
    · exact hc.reconciliation id e he

/-! ## Giving a row up -/

/-- A rejection with no version and no guard that wrote nothing found no queued intent. -/
theorem not_queued_of_not_rejected {id : IntentId} {reason : TradeIntentFailureReason}
    {r : TradeIntentRow}
    (h : (rejectIntent now { id := id, fromStatus := .queued, reason := reason }).run db =
      .ok (none, db'))
    (hr : db.find id = some r) : r.status ≠ .queued := by
  intro hs
  simp only [rejectIntent, Tx.run_bind_eq_ok, Tx.run_get_eq_ok] at h
  obtain ⟨_, _, ⟨rfl, rfl⟩, h⟩ := h
  simp only [hr, hs, ne_eq, not_true_eq_false, if_false, Option.any_none, Bool.false_eq_true,
    Tx.run_bind_eq_ok] at h
  obtain ⟨moved, db₁, ht, h⟩ := h
  cases moved with
  | none =>
    obtain ⟨_, ⟨_, _, _, hres, _⟩ | ⟨hno, _⟩⟩ := transitionIntent_eq_ok.mp ht
    · simp at hres
    · have hadmits := hno r hr
      rw [TransitionOptions.admits_eq_true.mpr ⟨hs, by simp, rfl⟩] at hadmits
      simp at hadmits
  | some rejected =>
    simp only [Tx.run_bind_eq_ok, StateT.run_pure, Tx.run_pure_eq_ok] at h
    obtain ⟨_, _, _, hres, _⟩ := h
    simp at hres

/-- What giving up does to the intent: a queued one is rejected, its reserve released; any other is left
as it is. -/
theorem rejectUnpublished_effect {row : OutboxEventRow} {u : Unit}
    (h : (rejectUnpublished now row).run db = .ok (u, db')) :
    Announces db db' ∧ db'.outboxEvents = db.outboxEvents ∧
      (∀ r, db.find row.intentId = some r → r.status = .queued →
        db'.find row.intentId = some (rejectedRow now .publishFailed r) ∧
          TokenMove (db.setIntent (rejectedRow now .publishFailed r)) r.userId r.tokensReserved
            (releaseRow r.userId row.intentId r.tokensReserved) db') ∧
      ∀ r, db.find row.intentId = some r → r.status ≠ .queued → db' = db := by
  obtain ⟨res, hrun⟩ := rejectUnpublished_ok h
  obtain ⟨hres, hdb⟩ | ⟨cur, hf, hs, _, _, _, _, hmove⟩ := rejectIntent_ok hrun
  · subst hres hdb
    refine ⟨announces_rejectIntent hrun, rfl, ?_, fun _ _ _ => rfl⟩
    intro r hr hq
    exact absurd hq (not_queued_of_not_rejected hrun hr)
  · refine ⟨announces_rejectIntent hrun, hmove.outboxEvents.trans rfl, ?_, ?_⟩
    · intro r hr _
      obtain rfl : cur = r := by
        rw [show db.find row.intentId = some cur from hf, Option.some.injEq] at hr
        exact hr
      refine ⟨?_, hmove⟩
      have hself : db.find (rejectedRow now .publishFailed cur).id = some cur := Db.find_self hf
      have hk : key (rejectedRow now .publishFailed cur) = row.intentId :=
        (Db.find_id hf : cur.id = row.intentId)
      rw [Db.find, hmove.tradeIntents]
      exact (Table.find?_put_of_find? (k := row.intentId) hself).trans (if_pos hk)
    · intro r hr hne
      rw [show db.find row.intentId = some cur from hf, Option.some.injEq] at hr
      subst hr
      exact absurd hs hne

/-- The transaction that gives a trading-intents row up: it rejects the intent that is still queued and
releases its reserve, and leaves one that moved on as it is. -/
structure GivesUp (id : IntentId) (e : OutboxEventRow) (now : UnixMs) (maxAttempts : ℕ)
    (db db' : Db) : Prop where
  attempts : maxAttempts ≤ e.attempts + 1
  queued : ∀ r, db.find id = some r → r.status = .queued →
    db'.find id = some (rejectedRow now .publishFailed r) ∧ 0 < r.tokensReserved ∧
      ∃ user, db.users.find? r.userId = some user ∧
        db'.users = db.users.put (user.posted (releaseRow r.userId id r.tokensReserved)) ∧
        db'.tokenLedger = releaseRow r.userId id r.tokensReserved :: db.tokenLedger
  moved : ∀ r, db.find id = some r → r.status ≠ .queued →
    db'.tradeIntents = db.tradeIntents ∧ db'.users = db.users ∧ db'.tokenLedger = db.tokenLedger

/-- **One failed delivery of a held row**: it is pending again, or it is failed and given up. -/
theorem delivery_effect (now : UnixMs) (maxAttempts : ℕ) {row : OutboxEventRow} (hbooks : db.books.Inv)
    (hheld : db.event row.topic row.intentId = some row) (hc : Covered db) :
    let db' := (recordDeliveryFailure now row (policyFor maxAttempts row.topic)).commit db
    Covered db' ∧
      (∀ topic id, (topic, id) ≠ (row.topic, row.intentId) → db'.event topic id = db.event topic id) ∧
      ∀ e', db'.event row.topic row.intentId = some e' → e'.status = .failed →
        row.status = .failed ∨
          (row.topic = .tradingIntents ∧ GivesUp row.intentId row now maxAttempts db db') := by
  intro db'
  have hkey : ∀ e, key (failedEvent now (policyFor maxAttempts row.topic) row e) = key e := fun _ => rfl
  have hothers : ∀ db₁ : Db, db₁.outboxEvents = (updateEvent (row.topic, row.intentId)
        (failedEvent now (policyFor maxAttempts row.topic) row) db).outboxEvents →
      ∀ topic id, (topic, id) ≠ (row.topic, row.intentId) → db₁.event topic id = db.event topic id := by
    intro db₁ h₁ topic id hne
    have hevent := updateEvent_event db (row.topic, row.intentId) hkey topic id
    rw [if_neg (Ne.symm hne)] at hevent
    rw [Db.event, h₁]
    exact hevent
  have hself : ∀ db₁ : Db, db₁.outboxEvents = (updateEvent (row.topic, row.intentId)
        (failedEvent now (policyFor maxAttempts row.topic) row) db).outboxEvents →
      db₁.event row.topic row.intentId =
        some (failedEvent now (policyFor maxAttempts row.topic) row row) := by
    intro db₁ h₁
    have hevent := updateEvent_event db (row.topic, row.intentId) hkey row.topic row.intentId
    rw [if_pos rfl, hheld] at hevent
    rw [Db.event, h₁]
    exact hevent
  cases hrun : (recordDeliveryFailure now row (policyFor maxAttempts row.topic)).run db with
  | error err =>
    have hdb : db' = db := Tx.commit_eq_of_error hrun
    rw [hdb]
    refine ⟨hc, fun _ _ _ => rfl, ?_⟩
    intro e' he' hfailed
    rw [hheld, Option.some.injEq] at he'
    exact .inl (he' ▸ hfailed)
  | ok p =>
    obtain ⟨res, db₂⟩ := p
    have hdb : db' = db₂ := Tx.commit_eq_of_ok hrun
    rw [hdb]
    obtain ⟨_, ⟨hex, hupdate⟩ | ⟨hex, u, hgive⟩⟩ := recordDeliveryFailure_ok hrun
    · refine ⟨?_, hothers db₂ (by rw [hupdate]), ?_⟩
      · rw [hupdate]
        refine hc.updateEvent _ hkey (fun e => ?_)
        simp [failedEvent, hex]
      · intro e' he' hfailed
        rw [hself db₂ (by rw [hupdate]), Option.some.injEq] at he'
        subst he'
        simp [failedEvent, hex] at hfailed
    · cases htopic : row.topic with
      | tradingReconciliation =>
        -- a reconciliation row is never given up
        rw [htopic] at hex
        simp [isExhausted, policyFor] at hex
      | tradingIntents =>
        rw [htopic] at hgive hex hothers hself hheld hkey
        obtain ⟨hann, hout, hqueued, hmoved⟩ := rejectUnpublished_effect hgive
        obtain ⟨t, ht⟩ := updateEvent_eq db (.tradingIntents, row.intentId)
          (failedEvent now (policyFor maxAttempts .tradingIntents) row)
        have hfind : ∀ id, (updateEvent (.tradingIntents, row.intentId)
            (failedEvent now (policyFor maxAttempts .tradingIntents) row) db).find id = db.find id := by
          intro id
          rw [ht]
          rfl
        have hkept : ∀ topic id, (topic, id) ≠ (OutboxTopic.tradingIntents, row.intentId) →
            db₂.event topic id = db.event topic id := hothers db₂ hout
        refine ⟨⟨?_, ?_, ?_⟩, hkept, ?_⟩
        · intro id r hr hs
          rcases hann.queued id r hr hs with hr' | ⟨e, he, hp⟩
          · by_cases hid : id = row.intentId
            · -- the row given up: its intent is not queued any more
              subst hid
              obtain ⟨hrej, _⟩ := hqueued r hr' hs
              rw [hrej, Option.some.injEq] at hr
              rw [← hr] at hs
              simp [rejectedRow] at hs
            · rw [hkept .tradingIntents id (by simpa using hid)]
              exact hc.queued id r ((hfind id).symm.trans hr') hs
          · exact ⟨e, he, by rw [hp]; simp⟩
        · intro id r hr hs
          rw [hkept .tradingReconciliation id (by simp)]
          rcases hann.unknown id r hr hs with hr' | ⟨e, he⟩
          · exact hc.unknown id r ((hfind id).symm.trans hr') hs
          · rw [hkept .tradingReconciliation id (by simp)] at he
            exact ⟨e, he, hc.reconciliation id e he⟩
        · intro id e he
          rw [hkept .tradingReconciliation id (by simp)] at he
          exact hc.reconciliation id e he
        · intro e' he' hfailed
          refine .inr ⟨rfl, ?_, ?_, ?_⟩
          · simpa [isExhausted, policyFor] using hex
          · intro r hr hs
            obtain ⟨hrej, hmove⟩ := hqueued r ((hfind _).trans hr) hs
            have hpos : 0 < r.tokensReserved :=
              hbooks.holds r (Table.mem_of_find? hr) (by rw [hs]; rfl)
            refine ⟨hrej, hpos, ?_⟩
            rcases hmove with ⟨hnot, _⟩ | ⟨_, user, huser, _, hdb₂⟩
            · exact absurd hpos hnot
            · refine ⟨user, ?_, ?_, ?_⟩
              · rw [ht] at huser
                exact huser
              · rw [hdb₂, ht]
                rfl
              · rw [hdb₂, ht]
                rfl
          · intro r hr hs
            have hdb₂ := hmoved r ((hfind _).trans hr) hs
            rw [hdb₂, ht]
            exact ⟨rfl, rfl, rfl⟩

end Deliveries

end Binarius
