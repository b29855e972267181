import Mathlib.Tactic
import Binarius.Db.IntentRuns
import Binarius.Backend.SessionSteps

/-!
# Backend.SessionTrades — a session's trades, as its notices read them
(packages/db/src/session-notice-ops.ts: `settledCountSql`, `openTradeSql`, `finishedSql`)

The settled trades stand in the cursor's order, by creation time and id.

* `Advances`: what a transaction other than a session's creation does to the intents of every session:
  each keeps its place, id and creation time, and a terminal one keeps everything.
  `advances_of_other` proves it transaction by transaction.
* `SessionTrades`: only a session's newest intent can be live, and the creation times grow.
* `SessionTrades.settledTrades_grow`: **the settled trades only grow at the end**, so the cursor's
  order is the order of settlement.
-/

namespace Binarius

open Lib

/-! ## What the notices read -/

/-- The intent has a broker trade. -/
def Db.linked (db : Db) (id : IntentId) : Bool :=
  db.brokerTrades.rows.any (fun t => t.intentId = some id)

/-- The intent's broker trade is open. -/
def Db.tradeOpen (db : Db) (id : IntentId) : Bool :=
  db.brokerTrades.rows.any (fun t => t.intentId = some id && t.status = .open)

/-- A settled intent with its broker trade. -/
def Db.isSettledTrade (db : Db) (r : TradeIntentRow) : Bool := r.status = .settled && db.linked r.id

/-- An accepted intent whose broker trade is open. -/
def Db.isOpenTrade (db : Db) (r : TradeIntentRow) : Bool := r.status = .accepted && db.tradeOpen r.id

/-- A session's intents `ORDER BY created_at, id`. -/
def Db.orderedIntents (db : Db) (s : SessionId) : List TradeIntentRow :=
  (db.sessionIntents s).insertionSort createdBefore

/-- The settled trades of a session, in the cursor's order. -/
def Db.settledTrades (db : Db) (s : SessionId) : List IntentId :=
  ((db.orderedIntents s).filter db.isSettledTrade).map TradeIntentRow.id

/-- `openTradeSql`: the newest open trade. -/
def Db.openTrade (db : Db) (s : SessionId) : Option IntentId :=
  ((db.orderedIntents s).filter db.isOpenTrade).getLast?.map TradeIntentRow.id

/-- No intent of the session is outside the terminal statuses. -/
def Db.allTerminal (db : Db) (s : SessionId) : Bool := (db.sessionIntents s).all (fun r => r.status.terminal)

/-- `finishedSql`: stopped, and nothing of it can move. -/
def Db.sessionFinished (db : Db) (s : SessionId) : Bool :=
  (db.tradingSessions.find? s).any (fun row => row.status = .stopped) && db.allTerminal s

/-! ## What a transaction does to an intent -/

/-- An intent keeps its place in the cursor's order; a terminal one keeps everything. -/
structure Moved (db db' : Db) (r r' : TradeIntentRow) : Prop where
  id : r'.id = r.id
  account : r'.brokerAccountId = r.brokerAccountId
  createdAt : r'.createdAt = r.createdAt
  requestId : r'.clientRequestId = r.clientRequestId
  terminal : r.status.terminal = true → r' = r ∧ db'.linked r.id = db.linked r.id

/-- Every session keeps its intents, each moved. -/
def Advances (db db' : Db) : Prop :=
  ∀ s, ∃ f : TradeIntentRow → TradeIntentRow, db'.sessionIntents s = (db.sessionIntents s).map f ∧
    ∀ r ∈ db.sessionIntents s, Moved db db' r (f r)

theorem Moved.trans {db db' db'' : Db} {r r' r'' : TradeIntentRow} (h : Moved db db' r r')
    (h' : Moved db' db'' r' r'') : Moved db db'' r r'' := by
  refine ⟨h'.id.trans h.id, h'.account.trans h.account, h'.createdAt.trans h.createdAt,
    h'.requestId.trans h.requestId, fun hr => ?_⟩
  obtain ⟨rfl, hlink⟩ := h.terminal hr
  obtain ⟨rfl, hlink'⟩ := h'.terminal hr
  exact ⟨rfl, hlink'.trans hlink⟩

namespace Advances

variable {db db' db'' : Db}

/-- The intents and the broker trades are untouched. -/
theorem of_tables (hintents : db'.tradeIntents = db.tradeIntents)
    (htrades : db'.brokerTrades = db.brokerTrades) : Advances db db' := by
  intro s
  refine ⟨id, ?_, fun r _ => ⟨rfl, rfl, rfl, rfl, fun _ => ⟨rfl, ?_⟩⟩⟩
  · rw [Db.sessionIntents, hintents, List.map_id, Db.sessionIntents]
  · show db'.brokerTrades.rows.any _ = db.brokerTrades.rows.any _
    rw [htrades]

theorem refl (db : Db) : Advances db db := of_tables rfl rfl

theorem trans (h : Advances db db') (h' : Advances db' db'') : Advances db db'' := by
  intro s
  obtain ⟨f, hf, hmoved⟩ := h s
  obtain ⟨g, hg, hmoved'⟩ := h' s
  refine ⟨g ∘ f, by rw [hg, hf, List.map_map], fun r hr => ?_⟩
  have hfr : f r ∈ db'.sessionIntents s := by
    rw [hf]
    exact List.mem_map_of_mem hr
  exact (hmoved r hr).trans (hmoved' (f r) hfr)

/-- A live intent's row written over itself; the broker trades of other intents stay. -/
theorem of_put {row : TradeIntentRow} (row' : TradeIntentRow) (hf : db.find row'.id = some row)
    (hlive : row.status.terminal = false) (hsession : row'.tradingSessionId = row.tradingSessionId)
    (hacc : row'.brokerAccountId = row.brokerAccountId) (hcreated : row'.createdAt = row.createdAt)
    (hrequest : row'.clientRequestId = row.clientRequestId)
    (hintents : db'.tradeIntents = db.tradeIntents.put row')
    (hlinks : ∀ id, id ≠ row.id → db'.linked id = db.linked id) : Advances db db' := by
  have hid : row.id = row'.id := Db.find_id hf
  intro s
  refine ⟨fun r => if r.id = row'.id then row' else r, ?_, fun r hr => ?_⟩
  · show db'.tradeIntents.rows.filter _ = (db.tradeIntents.rows.filter _).map _
    rw [hintents]
    show (db.tradeIntents.rows.map (fun r => if r.id = row'.id then row' else r)).filter _ = _
    rw [List.filter_map]
    refine congrArg _ (List.filter_congr (fun r hr => ?_))
    show decide ((if r.id = row'.id then row' else r).tradingSessionId = some s) =
      decide (r.tradingSessionId = some s)
    split
    · rename_i hkey
      have hrow : r = row := Table.eq_of_key hr (Table.mem_of_find? hf) (hkey.trans hid.symm)
      rw [hrow, hsession]
    · rfl
  · have hmem : r ∈ db.tradeIntents := List.mem_of_mem_filter hr
    show Moved db db' r (if r.id = row'.id then row' else r)
    split
    · rename_i hkey
      have hrow : r = row := Table.eq_of_key hmem (Table.mem_of_find? hf) (hkey.trans hid.symm)
      subst hrow
      refine ⟨hid.symm, hacc, hcreated, hrequest, fun hterm => ?_⟩
      rw [hlive] at hterm
      exact nomatch hterm
    · rename_i hkey
      refine ⟨rfl, rfl, rfl, rfl, fun _ => ⟨rfl, hlinks r.id ?_⟩⟩
      rw [hid]
      exact hkey

theorem of_tokenMove {userId : UserId} {tokens : ℤ} {entry : TokenLedgerRow}
    (h : TokenMove db userId tokens entry db') : Advances db db' := by
  rcases h with ⟨_, rfl⟩ | ⟨_, user, _, _, rfl⟩
  · exact refl _
  · exact of_tables rfl rfl

theorem of_commit {α : Type} {t : DbTx α} (h : ∀ a db', t.run db = .ok (a, db') → Advances db db') :
    Advances db (t.commit db) :=
  Tx.commit_induction (P := fun db' : Db => Advances db db') (refl db) h

end Advances

/-! ## The links of an intent -/

section Links

variable {now : UnixMs} {db db' : Db}

/-- A broker trade inserted for an intent is no other's. -/
theorem linked_of_insert {row : BrokerTradeRow} {t : Table BrokerTradeRow} {id other : IntentId}
    (h : db.brokerTrades.insert? row = some t) (hrow : row.intentId = some id) (hne : other ≠ id) :
    t.rows.any (fun r => r.intentId = some other) = db.linked other := by
  rw [(Table.insert?_eq_some.mp h).2, List.any_cons]
  have hno : decide (row.intentId = some other) = false := by
    rw [hrow]
    simp [Ne.symm hne]
  rw [hno, Bool.false_or]
  rfl

theorem closeTrade_links {current : TradeIntentRow} {trade : ClosedTrade} {u : Unit} {other : IntentId}
    (h : (closeTrade current (db.brokerTrades.rows.find? (fun r => r.intentId = some current.id)) trade).run db =
      .ok (u, db')) (hne : other ≠ current.id) : db'.linked other = db.linked other := by
  unfold closeTrade at h
  split at h
  · rename_i l hl
    obtain rfl := (DbTx.run_write_eq_ok.mp h)
    have hlink : l.intentId = some current.id := by simpa using List.find?_some hl
    show ((db.brokerTrades.rows.map _).any _) = db.brokerTrades.rows.any _
    rw [List.any_map]
    have hsame : ∀ r ∈ db.brokerTrades.rows,
        (if key r = key (closedRow l trade.close) then closedRow l trade.close else r).intentId = r.intentId := by
      intro r hr
      split
      · rename_i hkey
        have hrl : r = l := Table.eq_of_key hr (List.mem_of_find?_eq_some hl) hkey
        rw [hrl]
        rfl
      · rfl
    rw [Bool.eq_iff_iff, List.any_eq_true, List.any_eq_true]
    constructor
    · rintro ⟨r, hr, hlinked⟩
      refine ⟨r, hr, ?_⟩
      rw [← hsame r hr]
      exact hlinked
    · rintro ⟨r, hr, hlinked⟩
      refine ⟨r, hr, ?_⟩
      rw [← hsame r hr] at hlinked
      exact hlinked
  · obtain ⟨t, ht, rfl⟩ := insertTrade_ok h
    exact linked_of_insert ht rfl hne

/-- A settlement links no other intent. -/
theorem settleIntent_links {o : SettleIntentOptions} {res : Option TradeIntentRow} {other : IntentId}
    (h : (settleIntent now o).run db = .ok (res, db')) (hne : other ≠ o.id) :
    db'.linked other = db.linked other := by
  obtain ⟨-, rfl⟩ | ⟨row, db₁, u, hf, -, -, -, -, hmove, hclose⟩ := settleIntent_closes h
  · rfl
  · have hid : row.id = o.id := Db.find_id hf
    have htrades : db₁.brokerTrades = db.brokerTrades := hmove.brokerTrades
    have hlinked : (closeTrade row (db₁.brokerTrades.rows.find? (fun r => r.intentId = some row.id))
        o.trade).run db₁ = .ok (u, db') := by
      rw [htrades, hid]
      exact hclose
    refine (closeTrade_links hlinked (by rw [hid]; exact hne)).trans ?_
    show db₁.brokerTrades.rows.any _ = _
    rw [htrades]
    rfl

end Links

/-! ## Transaction by transaction -/

namespace Advances

variable {now : UnixMs} {db db' : Db}

theorem markIntentAccepted {o : MarkAcceptedOptions} {res : Option TradeIntentRow}
    (h : (markIntentAccepted now o).run db = .ok (res, db')) : Advances db db' := by
  obtain ⟨_, rfl⟩ | ⟨row, t, hf, _, hcan, _, _, _, ht, rfl⟩ := markIntentAccepted_ok h
  · exact refl _
  · have hself : db.find (acceptedRow now o.transport row).id = some row := Db.find_self hf
    exact of_put (acceptedRow now o.transport row) hself (not_terminal_of_canTransition hcan) rfl rfl rfl
      rfl rfl (fun id hne => linked_of_insert ht rfl hne)

theorem settleIntent {o : SettleIntentOptions} {res : Option TradeIntentRow}
    (h : (settleIntent now o).run db = .ok (res, db')) : Advances db db' := by
  obtain ⟨_, rfl⟩ | ⟨row, db₁, t, hf, _, hcan, _, _, hmove, hdb⟩ := settleIntent_ok h
  · exact refl _
  · have hself : db.find (settledRow now row).id = some row := Db.find_self hf
    have hintents : db'.tradeIntents = db.tradeIntents.put (settledRow now row) := by
      rw [hdb]
      exact hmove.tradeIntents
    refine of_put (settledRow now row) hself (not_terminal_of_canTransition hcan) rfl rfl rfl rfl hintents
      (fun id hne => settleIntent_links h ?_)
    rw [← Db.find_id hf]
    exact hne

/-- One transition that touches no broker trade. -/
theorem of_setIntent {row : TradeIntentRow} (row' : TradeIntentRow) {id : IntentId} (hf : db.find id = some row)
    (hlive : row.status.terminal = false) (hid : row'.id = row.id)
    (hsession : row'.tradingSessionId = row.tradingSessionId)
    (hacc : row'.brokerAccountId = row.brokerAccountId) (hcreated : row'.createdAt = row.createdAt)
    (hrequest : row'.clientRequestId = row.clientRequestId) : Advances db (db.setIntent row') := by
  have hself : db.find row'.id = some row := by
    rw [hid]
    exact Db.find_self hf
  exact of_put row' hself hlive hsession hacc hcreated hrequest rfl (fun _ _ => rfl)

theorem insertEventOrIgnore (e : OutboxEventRow) (db : Db) : Advances db (insertEventOrIgnore e db) := by
  unfold Binarius.insertEventOrIgnore
  split
  · exact of_tables rfl rfl
  · exact refl _

end Advances

/-- **Every other transaction keeps every session's intents in their places**, and the terminal ones as
they are. -/
theorem advances_of_other {t : Txn} (ht : t.Other) (db : Db) : Advances db (t.commit db) := by
  cases t with
  | createTradeIntent now id input session options => exact ht.elim
  | elsewhere s => exact ht.elim
  | takeIntent now o =>
    refine Advances.of_commit (fun _ db' h => ?_)
    obtain ⟨_, rfl⟩ | ⟨row, row', hf, hs, _, _, _, rfl, rfl⟩ := takeIntent_ok h
    · exact .refl _
    · exact .of_setIntent _ hf (by rw [hs]; rfl) rfl rfl rfl rfl rfl
  | rejectIntent now o =>
    refine Advances.of_commit (fun _ db' h => ?_)
    obtain ⟨_, rfl⟩ | ⟨row, hf, _, hcan, _, _, _, hmove⟩ := rejectIntent_ok h
    · exact .refl _
    · have hput := Advances.of_setIntent (rejectedRow now o.reason row) hf (not_terminal_of_canTransition hcan)
        rfl rfl rfl rfl rfl
      exact hput.trans (.of_tokenMove hmove)
  | markIntentUnknown now o =>
    refine Advances.of_commit (fun _ db' h => ?_)
    obtain ⟨_, rfl⟩ | ⟨row, row', hf, hs, _, _, hrow, rfl⟩ := markIntentUnknown_ok h
    · exact .refl _
    · have hput := Advances.of_setIntent row' hf (by rw [hs]; rfl) (by rw [hrow]) (by rw [hrow]) (by rw [hrow])
        (by rw [hrow]) (by rw [hrow])
      exact hput.trans (.insertEventOrIgnore _ _)
  | markIntentAccepted now o => exact Advances.of_commit (fun _ _ h => .markIntentAccepted h)
  | settleIntent now o => exact Advances.of_commit (fun _ _ h => .settleIntent h)
  | startReconciling now id v =>
    refine Advances.of_commit (fun _ db' h => ?_)
    obtain ⟨_, rfl⟩ | ⟨row, row', hf, hs, _, _, rfl, rfl⟩ := startReconciling_ok h
    · exact .refl _
    · exact .of_setIntent _ hf (by rw [hs]; rfl) rfl rfl rfl rfl rfl
  | claimReconciling now id retryMs =>
    refine Advances.of_commit (fun _ db' h => ?_)
    obtain ⟨_, rfl⟩ | ⟨row, hf, hs, _, _, rfl⟩ := claimReconciling_ok h
    · exact .refl _
    · exact .of_setIntent (claimed now row) hf (by rw [hs]; rfl) rfl rfl rfl rfl rfl
  | concludeReconciled now id v trade =>
    refine Advances.of_commit (fun _ db' h => ?_)
    obtain ⟨_, rfl⟩ | ⟨accepted, db₁, ⟨_, hacc⟩, ⟨_, _, rfl⟩ | ⟨closed, settled, _, _, hset⟩⟩ :=
      concludeReconciled_ok h
    · exact .refl _
    · exact .markIntentAccepted hacc
    · exact (Advances.markIntentAccepted hacc).trans (.settleIntent hset)
  | markIntentManualReview now id v reason =>
    refine Advances.of_commit (fun res db' h => ?_)
    cases res with
    | none =>
      rw [transitionIntent_none h]
      exact .refl _
    | some row' =>
      obtain ⟨row, hf, hcan, hm, rfl, rfl⟩ := transitionIntent_some h
      obtain ⟨hs, _, _⟩ := TransitionOptions.admits_eq_true.mp hm
      exact .of_setIntent _ hf (by rw [hs]; exact not_terminal_of_canTransition hcan) rfl rfl rfl rfl rfl
  | haltAccountForManualReview now id v reason =>
    refine Advances.of_commit (fun _ db' h => ?_)
    obtain ⟨_, rfl⟩ | ⟨row, account, row', hf, hs, _, _, _, hrow, rfl⟩ := haltAccountForManualReview_ok h
    · exact .refl _
    · have hput := Advances.of_setIntent row' hf (by rw [hs]; rfl) (by rw [hrow]) (by rw [hrow]) (by rw [hrow])
        (by rw [hrow]) (by rw [hrow])
      exact hput.trans (.of_tables rfl rfl)
  | adjustTokens isControl input =>
    refine Advances.of_commit (fun _ db' h => ?_)
    obtain rfl | ⟨user, _, _, rfl⟩ := adjustTokens_ok h
    · exact .refl _
    · exact .of_tables rfl rfl
  | creditStarPayment payment =>
    refine Advances.of_commit (fun _ db' h => ?_)
    obtain rfl | ⟨t, rfl | ⟨user, tokens, _, _, rfl⟩⟩ := creditStarPayment_ok h
    · exact .refl _
    · exact .of_tables rfl rfl
    · exact .of_tables rfl rfl
  | recordStarRefund now input =>
    refine Advances.of_commit (fun _ db' h => ?_)
    obtain rfl | ⟨t, rfl | ⟨payment, user, taken, _, _, _, rfl⟩⟩ := recordStarRefund_ok h
    · exact .refl _
    · exact .of_tables rfl rfl
    · exact .of_tables rfl rfl
  | addUser id telegramUserId =>
    refine Advances.of_commit (fun _ db' h => ?_)
    simp only [addUser, Tx.run_bind_eq_ok, Tx.run_get_eq_ok, DbTx.run_demand_eq_ok, Tx.run_set_eq_ok] at h
    obtain ⟨_, _, ⟨rfl, rfl⟩, t, _, ⟨_, rfl⟩, rfl⟩ := h
    exact .of_tables rfl rfl
  | editUser id status mode =>
    refine Advances.of_commit (fun _ db' h => ?_)
    simp only [editUser, Tx.run_bind_eq_ok, Tx.run_get_eq_ok, DbTx.run_demand_eq_ok, Tx.run_set_eq_ok] at h
    obtain ⟨_, _, ⟨rfl, rfl⟩, ⟨_, t⟩, _, ⟨_, rfl⟩, rfl⟩ := h
    exact .of_tables rfl rfl

/-! ## The intents of every session -/

/-- A session's intents, newest first: only the newest can be live, the creation times grow, and all are
the session's account's. -/
structure SessionTrades (db : Db) : Prop where
  tail : ∀ s, ∀ r ∈ (db.sessionIntents s).tail, r.status.terminal = true
  order : ∀ s, (db.sessionIntents s).Pairwise (fun a b => b.createdAt < a.createdAt)
  account : ∀ s, ∀ r ∈ db.sessionIntents s, ∃ session, db.tradingSessions.find? s = some session ∧
    session.brokerAccountId = r.brokerAccountId

/-- A session's creation, at the time it is stamped with. -/
structure CreatesAt (db db' : Db) (s : SessionId) (step : ℕ) (now : UnixMs) : Prop where
  creates : Creates db db' s step
  stamp : ∀ r, db'.tradeIntents.rows = r :: db.tradeIntents.rows → r.createdAt = now ∧ r.status = .queued
  trades : db'.brokerTrades = db.brokerTrades

namespace SessionTrades

variable {db db' : Db} {s : SessionId}

theorem advances (hdb : SessionTrades db) (h : Advances db db') (hkeeps : Keeps db db') :
    SessionTrades db' := by
  constructor
  · intro s r' hr'
    obtain ⟨f, hf, hmoved⟩ := h s
    rw [hf, ← List.map_tail] at hr'
    obtain ⟨r, hr, rfl⟩ := List.mem_map.mp hr'
    have hterm := hdb.tail s r hr
    rw [((hmoved r (List.mem_of_mem_tail hr)).terminal hterm).1]
    exact hterm
  · intro s
    obtain ⟨f, hf, hmoved⟩ := h s
    rw [hf, List.pairwise_map]
    refine (hdb.order s).imp_of_mem (fun {a b} ha hb hlt => ?_)
    rw [(hmoved a ha).createdAt, (hmoved b hb).createdAt]
    exact hlt
  · intro s r' hr'
    obtain ⟨f, hf, hmoved⟩ := h s
    rw [hf] at hr'
    obtain ⟨r, hr, rfl⟩ := List.mem_map.mp hr'
    obtain ⟨session, hsession, hacc⟩ := hdb.account s r hr
    obtain ⟨session', hsession', hacc', _⟩ := hkeeps.sessions s session hsession
    exact ⟨session', hsession', hacc'.trans (hacc.trans (hmoved r hr).account.symm)⟩

/-- A creation puts its row in front of its session's intents. -/
theorem sessionIntents_creates {step : ℕ} {now : UnixMs} (h : CreatesAt db db' s step now) :
    ∃ r, (r.createdAt = now ∧ r.status = .queued ∧ r.clientRequestId = sessionRequestId s step) ∧
      db'.sessionIntents s = r :: db.sessionIntents s ∧
      (∀ s', s' ≠ s → db'.sessionIntents s' = db.sessionIntents s') ∧
      (∃ session, db.tradingSessions.find? s = some session ∧ session.brokerAccountId = r.brokerAccountId) ∧
      ∀ other ∈ db.tradeIntents, other.brokerAccountId = r.brokerAccountId → other.status.terminal = true := by
  obtain ⟨r, hrows, hsession, hrequest, ⟨session, _, hfind, _, hacc, _⟩, hlive, _⟩ := h.creates.row
  obtain ⟨hstamp, hqueued⟩ := h.stamp r hrows
  refine ⟨r, ⟨hstamp, hqueued, hrequest⟩, ?_, fun s' hne => ?_, ⟨session, hfind, hacc⟩, hlive⟩
  · rw [Db.sessionIntents, hrows, List.filter_cons, if_pos (decide_eq_true hsession), Db.sessionIntents]
  · have hno : ¬ decide (r.tradingSessionId = some s') = true := by
      intro hs'
      exact hne (Option.some.inj ((of_decide_eq_true hs').symm.trans hsession))
    rw [Db.sessionIntents, hrows, List.filter_cons, if_neg hno, Db.sessionIntents]

theorem create (hdb : SessionTrades db) {step : ℕ} {now : UnixMs} (h : CreatesAt db db' s step now)
    (hnow : ∀ r ∈ db.sessionIntents s, r.createdAt < now) : SessionTrades db' := by
  obtain ⟨r, ⟨hstamp, _, _⟩, hself, hother, ⟨session, hfind, hacc⟩, hlive⟩ := sessionIntents_creates h
  have hterm : ∀ old ∈ db.sessionIntents s, old.status.terminal = true := by
    intro old hold
    obtain ⟨session', hfind', hacc'⟩ := hdb.account s old hold
    obtain rfl : session' = session := Option.some.inj (hfind'.symm.trans hfind)
    exact hlive old (List.mem_of_mem_filter hold) (hacc'.symm.trans hacc)
  constructor
  · intro s' old hold
    by_cases hs : s' = s
    · subst hs
      rw [hself, List.tail_cons] at hold
      exact hterm old hold
    · rw [hother s' hs] at hold
      exact hdb.tail s' old hold
  · intro s'
    by_cases hs : s' = s
    · subst hs
      rw [hself, List.pairwise_cons]
      refine ⟨fun old hold => ?_, hdb.order s'⟩
      rw [hstamp]
      exact hnow old hold
    · rw [hother s' hs]
      exact hdb.order s'
  · intro s' x hx
    rw [h.creates.sessions]
    by_cases hs : s' = s
    · subst hs
      rw [hself] at hx
      rcases List.mem_cons.mp hx with rfl | hx
      · exact ⟨session, hfind, hacc⟩
      · exact hdb.account s' x hx
    · rw [hother s' hs] at hx
      exact hdb.account s' x hx

/-! ### The cursor's order -/

/-- A row later than all the others is inserted behind them. -/
theorem orderedInsert_last (a : TradeIntentRow) (l : List TradeIntentRow)
    (h : ∀ b ∈ l, b.createdAt < a.createdAt) : l.orderedInsert createdBefore a = l ++ [a] := by
  induction l with
  | nil => rfl
  | cons b l ih =>
    have hb : b.createdAt < a.createdAt := h b List.mem_cons_self
    have hno : ¬ createdBefore a b := by
      rintro (hlt | ⟨heq, _⟩)
      · exact lt_asymm hlt hb
      · exact hb.ne' heq
    rw [List.orderedInsert_cons, if_neg hno, ih (fun x hx => h x (List.mem_cons_of_mem b hx))]
    rfl

theorem insertionSort_reverse (l : List TradeIntentRow)
    (h : l.Pairwise (fun a b => b.createdAt < a.createdAt)) : l.insertionSort createdBefore = l.reverse := by
  induction l with
  | nil => rfl
  | cons a l ih =>
    obtain ⟨ha, hl⟩ := List.pairwise_cons.mp h
    rw [List.insertionSort_cons, ih hl, List.reverse_cons]
    exact orderedInsert_last a l.reverse (fun b hb => ha b (List.mem_reverse.mp hb))

/-- The cursor's order is the order of creation. -/
theorem orderedIntents_eq (hdb : SessionTrades db) (s : SessionId) :
    db.orderedIntents s = (db.sessionIntents s).reverse :=
  insertionSort_reverse _ (hdb.order s)

theorem settledTrades_eq (hdb : SessionTrades db) (s : SessionId) :
    db.settledTrades s = (((db.sessionIntents s).filter db.isSettledTrade).map TradeIntentRow.id).reverse := by
  rw [Db.settledTrades, hdb.orderedIntents_eq, List.filter_reverse, List.map_reverse]

/-- A transaction leaves the settled ones of terminal intents as they are. -/
theorem settled_terminal {rows : List TradeIntentRow} {f : TradeIntentRow → TradeIntentRow}
    (hterm : ∀ r ∈ rows, r.status.terminal = true) (hmoved : ∀ r ∈ rows, Moved db db' r (f r)) :
    (rows.map f).filter db'.isSettledTrade = rows.filter db.isSettledTrade := by
  induction rows with
  | nil => rfl
  | cons r rows ih =>
    obtain ⟨hfr, hlink⟩ := (hmoved r List.mem_cons_self).terminal (hterm r List.mem_cons_self)
    have hsame : db'.isSettledTrade (f r) = db.isSettledTrade r := by
      rw [hfr, Db.isSettledTrade, hlink, Db.isSettledTrade]
    have htail := ih (fun x hx => hterm x (List.mem_cons_of_mem r hx))
      (fun x hx => hmoved x (List.mem_cons_of_mem r hx))
    rw [List.map_cons, List.filter_cons, List.filter_cons, hsame, htail, hfr]

theorem not_settled_of_live {r : TradeIntentRow} (h : r.status.terminal = false) : db.isSettledTrade r = false := by
  rw [Db.isSettledTrade, Bool.and_eq_false_iff]
  refine .inl (decide_eq_false (fun hs => ?_))
  rw [hs] at h
  exact nomatch h

/-- **The settled trades only grow at the end.** -/
theorem settledTrades_grow (hdb : SessionTrades db) (h : Advances db db') (hkeeps : Keeps db db')
    (s : SessionId) : db.settledTrades s <+: db'.settledTrades s := by
  rw [hdb.settledTrades_eq, (hdb.advances h hkeeps).settledTrades_eq, List.reverse_prefix]
  obtain ⟨f, hf, hmoved⟩ := h s
  have htail := hdb.tail s
  rw [hf]
  cases hrows : db.sessionIntents s with
  | nil => exact List.suffix_rfl
  | cons r rest =>
    rw [hrows] at hmoved htail
    have hrest := settled_terminal htail (fun x hx => hmoved x (List.mem_cons_of_mem r hx))
    rw [List.map_cons, List.filter_cons, List.filter_cons, List.tail_cons] at *
    rw [hrest]
    -- the newest intent: a terminal one is as it was, a live one was no settled trade
    by_cases hr : r.status.terminal = true
    · obtain ⟨hfr, hlink⟩ := (hmoved r List.mem_cons_self).terminal hr
      have hsame : db'.isSettledTrade (f r) = db.isSettledTrade r := by
        rw [hfr, Db.isSettledTrade, hlink, Db.isSettledTrade]
      rw [hsame, hfr]
    · rw [not_settled_of_live (Bool.not_eq_true _ ▸ hr), if_neg Bool.false_ne_true]
      split
      · exact List.suffix_cons _ _
      · exact List.suffix_rfl

/-- A creation settles nothing. -/
theorem settledTrades_create (hdb : SessionTrades db) (hdb' : SessionTrades db') {s' : SessionId} {step : ℕ}
    {now : UnixMs} (h : CreatesAt db db' s' step now) (s : SessionId) :
    db'.settledTrades s = db.settledTrades s := by
  obtain ⟨r, ⟨_, hqueued, _⟩, hself, hother, _⟩ := sessionIntents_creates h
  have hsame : db'.isSettledTrade = db.isSettledTrade := by
    funext x
    rw [Db.isSettledTrade, Db.linked, h.trades]
    rfl
  rw [hdb.settledTrades_eq, hdb'.settledTrades_eq, hsame]
  by_cases hs : s = s'
  · subst hs
    have hno : db.isSettledTrade r = false := not_settled_of_live (by rw [hqueued]; rfl)
    rw [hself, List.filter_cons, hno, if_neg Bool.false_ne_true]
  · rw [hother s hs]

/-- **A finished session stays finished, with the settled trades it has.** -/
theorem finished_stays (hdb : SessionTrades db) (h : Advances db db') (hkeeps : Keeps db db')
    {s : SessionId} (hfin : db.sessionFinished s = true) :
    db'.sessionFinished s = true ∧ db'.settledTrades s = db.settledTrades s := by
  obtain ⟨hstopped, hall⟩ := Bool.and_eq_true_iff.mp hfin
  have hterm : ∀ r ∈ db.sessionIntents s, r.status.terminal = true := List.all_eq_true.mp hall
  obtain ⟨f, hf, hmoved⟩ := h s
  constructor
  · rw [Db.sessionFinished, Bool.and_eq_true]
    constructor
    · obtain ⟨session, hfind, hstatus⟩ := Option.any_eq_true _ _ |>.mp hstopped
      obtain ⟨session', hfind', _, hstays⟩ := hkeeps.sessions s session hfind
      have hstatus' : session.status = .stopped := of_decide_eq_true hstatus
      rw [hfind', Option.any_some, decide_eq_true_eq, hstays (by rw [hstatus']; simp), hstatus']
    · rw [Db.allTerminal, hf, List.all_eq_true]
      intro r' hr'
      obtain ⟨r, hr, rfl⟩ := List.mem_map.mp hr'
      rw [((hmoved r hr).terminal (hterm r hr)).1]
      exact hterm r hr
  · rw [hdb.settledTrades_eq, (hdb.advances h hkeeps).settledTrades_eq, hf, settled_terminal hterm hmoved]

/-! ### Open trades -/

theorem openTrade_some {s : SessionId} {id : IntentId} (h : db.openTrade s = some id) :
    ∃ r ∈ db.sessionIntents s, r.id = id ∧ r.status = .accepted := by
  obtain ⟨r, hr, rfl⟩ := Option.map_eq_some_iff.mp h
  obtain ⟨hmem, hopen⟩ := List.mem_filter.mp (List.mem_of_getLast? hr)
  have hin : r ∈ db.sessionIntents s := (List.mem_insertionSort createdBefore).mp hmem
  rw [Db.isOpenTrade, Bool.and_eq_true, decide_eq_true_eq] at hopen
  exact ⟨r, hin, rfl, hopen.1⟩

/-- A live intent of a session is its newest. -/
theorem newest_of_live (hdb : SessionTrades db) {s : SessionId} {r : TradeIntentRow}
    (hr : r ∈ db.sessionIntents s) (hlive : r.status.terminal = false) :
    ∃ rest, db.sessionIntents s = r :: rest := by
  have htail := hdb.tail s
  cases hrows : db.sessionIntents s with
  | nil =>
    rw [hrows] at hr
    exact nomatch hr
  | cons x rest =>
    rw [hrows] at hr htail
    rcases List.mem_cons.mp hr with rfl | hr
    · exact ⟨rest, rfl⟩
    · have hterm := htail r hr
      rw [hlive] at hterm
      exact nomatch hterm

end SessionTrades

end Binarius
