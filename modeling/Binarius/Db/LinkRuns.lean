import Mathlib.Tactic
import Binarius.Db.ClosedDeliveries

/-!
# Db.LinkRuns — the links of broker trades and intents, over every run of the transactions
(packages/db/src/trade-intent-ops.ts, packages/db/src/token-ops.ts)

* `LinksOk.moved`: an intent that is neither accepted nor settled moves without a trade.
* `LinksOk.settleIntent`: a settlement closes the linked trade, or inserts its own.
* `LinksOk.commit`: **every transaction keeps the links**; `linksOk_commitAll`: so does every run.
* `Settlements.starts_commitAll`: what a run leaves is where the deliveries can start.
-/

namespace Binarius

open Lib

section Commits

variable {now : UnixMs} {db db' : Db} {res : Option TradeIntentRow}

/-! ## The writes -/

/-- Accepted and settled intents stay, and the broker trades too. -/
theorem LinksOk.frame (h : LinksOk db) (htrades : db'.brokerTrades = db.brokerTrades)
    (hfind : ∀ id row, db.find id = some row → row.status = .accepted ∨ row.status = .settled →
      db'.find id = some row) : LinksOk db' := by
  have hlinked : ∀ k id, db'.LinkedTo k id → db.LinkedTo k id := by
    rintro k id ⟨l, hl, hid⟩
    rw [htrades] at hl
    exact ⟨l, hl, hid⟩
  refine ⟨fun k k' id hk hk' => h.unique k k' id (hlinked k id hk) (hlinked k' id hk'), fun k l id hl hid => ?_⟩
  rw [htrades] at hl
  obtain ⟨row, hrow, hcase⟩ := h.status k l id hl hid
  exact ⟨row, hfind id row hrow (hcase.imp And.left And.left), hcase⟩

theorem LinksOk.of_tables (h : LinksOk db) (hintents : db'.tradeIntents = db.tradeIntents)
    (htrades : db'.brokerTrades = db.brokerTrades) : LinksOk db' := by
  refine h.frame htrades (fun id row hrow _ => ?_)
  rw [Db.find, hintents]
  exact hrow

/-- An intent that is neither accepted nor settled moves. -/
theorem LinksOk.moved (h : LinksOk db) {id : IntentId} {row row' : TradeIntentRow} (hrow : db.find id = some row)
    (hnot : row.status ≠ .accepted ∧ row.status ≠ .settled)
    (hintents : db'.tradeIntents = db.tradeIntents.put row') (hid : row'.id = row.id)
    (htrades : db'.brokerTrades = db.brokerTrades) : LinksOk db' := by
  refine h.frame htrades (fun i r hr hstatus => ?_)
  rw [find_put_intent (Db.find_self hrow) hid hintents i, if_neg]
  · exact hr
  · intro hi
    rw [← hi, Db.find_self hrow] at hr
    obtain rfl := Option.some.inj hr
    exact hstatus.elim hnot.1 hnot.2

theorem not_linked_of_canTransition {a b : TradeIntentStatus} (h : canTransition a b = true)
    (hb : b ≠ .settled) : a ≠ .accepted ∧ a ≠ .settled := by
  revert h hb
  cases a <;> cases b <;> decide

theorem LinksOk.insertEventOrIgnore (h : LinksOk db) (e : OutboxEventRow) :
    LinksOk (insertEventOrIgnore e db) := by
  unfold Binarius.insertEventOrIgnore
  split
  · exact h.of_tables rfl rfl
  · exact h

theorem LinksOk.markIntentAccepted (h : LinksOk db) {o : MarkAcceptedOptions}
    (hrun : (markIntentAccepted now o).run db = .ok (res, db')) : LinksOk db' := by
  obtain ⟨-, rfl⟩ | ⟨row, t, hrow, -, hcan, -, -, -, hinsert, rfl⟩ := markIntentAccepted_ok hrun
  · exact h
  have hself : db.find row.id = some row := Db.find_self hrow
  obtain ⟨haccepted, hsettled⟩ := not_linked_of_canTransition hcan (by decide)
  refine @LinksOk.written db _ h row (acceptedRow now o.transport row) (tradeRow row o.trade) rfl
    (.inl ⟨rfl, rfl⟩) (fun k hk => ?_) (find_put_intent hself rfl rfl) (Table.find?_of_insert? hinsert)
  exact ((h.linked_status hk hself).elim haccepted hsettled).elim

/-- **A settlement keeps the links**: it closes the linked trade, or inserts its own. -/
theorem LinksOk.settleIntent (h : LinksOk db) {o : SettleIntentOptions}
    (hrun : (settleIntent now o).run db = .ok (res, db')) : LinksOk db' := by
  obtain ⟨-, rfl⟩ | ⟨row, db₁, u, hrow, -, -, -, -, hmove, hclose⟩ := settleIntent_closes hrun
  · exact h
  have hself : db.find row.id = some row := Db.find_self hrow
  have hid : row.id = o.id := Db.find_id hrow
  have htrades : db₁.brokerTrades = db.brokerTrades := hmove.brokerTrades
  have hintents : db₁.tradeIntents = db.tradeIntents.put (settledRow now row) := hmove.tradeIntents
  cases hfound : db.brokerTrades.rows.find? (fun r => r.intentId = some o.id) with
  | none =>
    rw [hfound] at hclose
    obtain ⟨t, hinsert, rfl⟩ := insertTrade_ok hclose
    rw [htrades] at hinsert
    refine @LinksOk.written db _ h row (settledRow now row)
      (closedRow (tradeRow row o.trade.trade) o.trade.close) rfl (.inr ⟨rfl, rfl⟩) (fun k hk => ?_)
      (find_put_intent hself rfl hintents) (Table.find?_of_insert? hinsert)
    obtain ⟨l, hl, hlink⟩ := hk
    have hno := List.find?_eq_none.mp hfound l (Table.mem_of_find? hl)
    rw [hid] at hlink
    exact (hno (by simpa using hlink)).elim
  | some l =>
    rw [hfound] at hclose
    obtain rfl := DbTx.run_write_eq_ok.mp hclose
    have hlink : l.intentId = some row.id := by
      rw [hid]
      simpa using List.find?_some hfound
    have hl : db.brokerTrades.find? (key l) = some l := Table.find?_of_mem (List.mem_of_find?_eq_some hfound)
    refine @LinksOk.written db _ h row (settledRow now row) (closedRow l o.trade.close) hlink
      (.inr ⟨rfl, rfl⟩) (fun k hk => h.unique k (key l) row.id hk ⟨l, hl, hlink⟩)
      (find_put_intent hself rfl hintents) ?_
    rw [htrades]
    exact @Table.find?_put_of_find? _ _ _ _ db.brokerTrades (closedRow l o.trade.close) l hl

/-- A new intent has no trade. -/
theorem LinksOk.createInTransaction (h : LinksOk db) {id : IntentId} {input : CreateTradeIntentRequest}
    {session : Option IntentSession} {options : CreateTradeIntentOptions} {result : CreateTradeIntentResult}
    (hrun : (createInTransaction now id input session options).run db = .ok (result, db')) : LinksOk db' := by
  obtain ⟨-, -, -, rfl⟩ | ⟨user, account, t, e, -, -, -, -, hinsert, -, rfl, -⟩ := createInTransaction_ok hrun
  · exact h
  · exact h.frame rfl (fun i row hrow _ => Table.find?_of_insert?_of_find? hinsert hrow)

/-! ## Transaction by transaction -/

/-- The other writers leave the broker trades alone. -/
def Txn.KeepsTrades (db : Db) (t : Txn) : Prop := ∀ s, t = .elsewhere s → s.brokerTrades = db.brokerTrades

theorem LinksOk.of_commit {α : Type} {t : DbTx α} (h : LinksOk db)
    (hrun : ∀ a db', t.run db = .ok (a, db') → LinksOk db') : LinksOk (t.commit db) :=
  Tx.commit_induction (P := fun db' : Db => LinksOk db') h hrun

/-- **Every transaction keeps the links.** -/
theorem LinksOk.commit (h : LinksOk db) {t : Txn} (ht : t.KeepsTrades db) : LinksOk (t.commit db) := by
  cases t with
  | createTradeIntent now id input session options =>
    exact h.of_commit (fun _ _ hrun => h.createInTransaction hrun)
  | elsewhere s => exact h.of_tables rfl (ht s rfl)
  | takeIntent now o =>
    refine h.of_commit (fun _ db' hrun => ?_)
    obtain ⟨-, rfl⟩ | ⟨row, row', hrow, hstatus, -, -, -, rfl, rfl⟩ := takeIntent_ok hrun
    · exact h
    · exact h.moved hrow (by rw [hstatus]; decide) rfl rfl rfl
  | rejectIntent now o =>
    refine h.of_commit (fun _ db' hrun => ?_)
    obtain ⟨-, rfl⟩ | ⟨row, hrow, -, hcan, -, -, -, hmove⟩ := rejectIntent_ok hrun
    · exact h
    · exact h.moved hrow (not_linked_of_canTransition hcan (by decide)) hmove.tradeIntents rfl
        hmove.brokerTrades
  | markIntentUnknown now o =>
    refine h.of_commit (fun _ db' hrun => ?_)
    obtain ⟨-, rfl⟩ | ⟨row, row', hrow, hstatus, -, -, hwritten, rfl⟩ := markIntentUnknown_ok hrun
    · exact h
    · have hmoved : LinksOk (db.setIntent row') :=
        h.moved hrow (by rw [hstatus]; decide) rfl (by rw [hwritten]) rfl
      exact hmoved.insertEventOrIgnore _
  | markIntentAccepted now o => exact h.of_commit (fun _ _ hrun => h.markIntentAccepted hrun)
  | settleIntent now o => exact h.of_commit (fun _ _ hrun => h.settleIntent hrun)
  | startReconciling now id v =>
    refine h.of_commit (fun _ db' hrun => ?_)
    obtain ⟨-, rfl⟩ | ⟨row, row', hrow, hstatus, -, -, rfl, rfl⟩ := startReconciling_ok hrun
    · exact h
    · exact h.moved hrow (by rw [hstatus]; decide) rfl rfl rfl
  | claimReconciling now id retryMs =>
    refine h.of_commit (fun _ db' hrun => ?_)
    obtain ⟨-, rfl⟩ | ⟨row, hrow, hstatus, -, -, rfl⟩ := claimReconciling_ok hrun
    · exact h
    · exact h.moved hrow (by rw [hstatus]; decide) rfl rfl rfl
  | concludeReconciled now id v trade =>
    refine h.of_commit (fun _ db' hrun => ?_)
    obtain ⟨-, rfl⟩ | ⟨accepted, db₁, ⟨_, hacc⟩, ⟨-, -, rfl⟩ | ⟨closed, settled, -, -, hset⟩⟩ :=
      concludeReconciled_ok hrun
    · exact h
    · exact h.markIntentAccepted hacc
    · exact (h.markIntentAccepted hacc).settleIntent hset
  | markIntentManualReview now id v reason =>
    refine h.of_commit (fun res db' hrun => ?_)
    cases res with
    | none =>
      rw [transitionIntent_none hrun]
      exact h
    | some row' =>
      obtain ⟨row, hrow, hcan, hadmits, rfl, rfl⟩ := transitionIntent_some hrun
      have hstatus : row.status = .reconciling := (TransitionOptions.admits_eq_true.mp hadmits).1
      exact h.moved hrow (by rw [hstatus]; decide) rfl rfl rfl
  | haltAccountForManualReview now id v reason =>
    refine h.of_commit (fun _ db' hrun => ?_)
    obtain ⟨-, rfl⟩ | ⟨row, account, row', hrow, hstatus, -, -, -, hwritten, rfl⟩ :=
      haltAccountForManualReview_ok hrun
    · exact h
    · exact h.moved hrow (by rw [hstatus]; decide) rfl (by rw [hwritten]) rfl
  | adjustTokens isControl input =>
    refine h.of_commit (fun _ db' hrun => ?_)
    obtain rfl | ⟨user, -, -, rfl⟩ := adjustTokens_ok hrun
    · exact h
    · exact h.of_tables rfl rfl
  | creditStarPayment payment =>
    refine h.of_commit (fun _ db' hrun => ?_)
    obtain rfl | ⟨t, rfl | ⟨user, tokens, -, -, rfl⟩⟩ := creditStarPayment_ok hrun
    · exact h
    · exact h.of_tables rfl rfl
    · exact h.of_tables rfl rfl
  | recordStarRefund now input =>
    refine h.of_commit (fun _ db' hrun => ?_)
    obtain rfl | ⟨t, rfl | ⟨payment, user, taken, -, -, -, rfl⟩⟩ := recordStarRefund_ok hrun
    · exact h
    · exact h.of_tables rfl rfl
    · exact h.of_tables rfl rfl
  | addUser id telegramUserId =>
    refine h.of_commit (fun _ db' hrun => ?_)
    simp only [addUser, Tx.run_bind_eq_ok, Tx.run_get_eq_ok, DbTx.run_demand_eq_ok, Tx.run_set_eq_ok] at hrun
    obtain ⟨_, _, ⟨rfl, rfl⟩, t, _, ⟨_, rfl⟩, rfl⟩ := hrun
    exact h.of_tables rfl rfl
  | editUser id status mode =>
    refine h.of_commit (fun _ db' hrun => ?_)
    simp only [editUser, Tx.run_bind_eq_ok, Tx.run_get_eq_ok, DbTx.run_demand_eq_ok, Tx.run_set_eq_ok] at hrun
    obtain ⟨_, _, ⟨rfl, rfl⟩, ⟨_, t⟩, _, ⟨_, rfl⟩, rfl⟩ := hrun
    exact h.of_tables rfl rfl

end Commits

/-! ## Every run -/

/-- **From a database without broker trades the links hold after every run.** -/
theorem linksOk_commitAll {db : Db} (hempty : db.brokerTrades.rows = []) {ts : List Txn}
    (hts : RunOk Txn.commit Txn.KeepsTrades db ts) : LinksOk (commitAll db ts) :=
  hts.induction (LinksOk.of_empty hempty) (fun _ _ hkeeps h => h.commit hkeeps)

/-- **What a run leaves is where the deliveries can start.** -/
theorem Settlements.starts_commitAll {db : Db} (hstart : db.StartsEmpty) (hempty : db.brokerTrades.rows = [])
    {ts : List Txn} (hts : RunOk Txn.commit Txn.KeepsTrades db ts) (calls : ℕ → SettleCall)
    (hcalls : ∀ j, (calls j).phase = .reading ∧ (calls j).outcomes = []) :
    Starts ⟨commitAll db ts, calls, []⟩ where
  books := ledger_invariant hstart ts
  links := linksOk_commitAll hempty hts
  calls := hcalls
  conclusions := rfl

end Binarius
