import Mathlib.Tactic
import Binarius.Db.Ledger

/-!
# Db.IntentRuns — what any committed transaction can do to one intent

* `Later`: a row as some later transactions left it — its terms unchanged, its version and its rank
  never smaller, and not queued unless it is the same row.
* `Txn.evolves_commit`: **every commit takes every row to a later one**, so no row is ever brought back
  to `queued`; and the only transaction that writes an intent's release row is a rejection of that
  intent.
* `Txn.frame_commit`: **a transaction touches only a row of its source status**.
-/

namespace Binarius

open Lib

/-- A row of an intent as later transactions left it. -/
structure Later (r r' : TradeIntentRow) : Prop where
  id_eq : r'.id = r.id
  account_eq : r'.brokerAccountId = r.brokerAccountId
  version_lt : r' = r ∨ r.version < r'.version
  rank_le : r.status.rank ≤ r'.status.rank
  not_requeued : r'.status = .queued → r' = r

namespace Later

variable {r r' r'' : TradeIntentRow}

theorem refl (r : TradeIntentRow) : Later r r := ⟨rfl, rfl, .inl rfl, le_refl _, fun _ => rfl⟩

theorem trans (h : Later r r') (h' : Later r' r'') : Later r r'' := by
  refine ⟨h'.id_eq.trans h.id_eq, h'.account_eq.trans h.account_eq, ?_, h.rank_le.trans h'.rank_le, ?_⟩
  · rcases h'.version_lt with rfl | hlt
    · exact h.version_lt
    · rcases h.version_lt with rfl | hlt'
      · exact .inr hlt
      · exact .inr (hlt'.trans hlt)
  · intro hq
    obtain rfl := h'.not_requeued hq
    exact h.not_requeued hq

theorem version_le (h : Later r r') : r.version ≤ r'.version := by
  rcases h.version_lt with rfl | hlt
  · exact le_refl _
  · exact hlt.le

/-- A row of the same version is the same row. -/
theorem eq_of_version (h : Later r r') (hv : r'.version = r.version) : r' = r := by
  rcases h.version_lt with heq | hlt
  · exact heq
  · omega

/-- One edge of the transition graph, other than the one into `queued`. -/
theorem of_transition (hid : r'.id = r.id) (hacc : r'.brokerAccountId = r.brokerAccountId)
    (hv : r'.version = r.version + 1) (hc : canTransition r.status r'.status = true)
    (hq : r'.status ≠ .queued) : Later r r' :=
  ⟨hid, hacc, .inr (by omega), (canTransition_rank_lt hc).le, fun h => absurd h hq⟩

end Later

/-- Every row of the first state is there in the second, the same or a later one. -/
def Evolves (db db' : Db) : Prop :=
  ∀ id r, db.find id = some r → ∃ r', db'.find id = some r' ∧ Later r r'

namespace Evolves

variable {db db' db'' : Db}

theorem refl (db : Db) : Evolves db db := fun _ r h => ⟨r, h, Later.refl r⟩

theorem trans (h : Evolves db db') (h' : Evolves db' db'') : Evolves db db'' := by
  intro id r hr
  obtain ⟨r', hr', hl⟩ := h id r hr
  obtain ⟨r'', hr'', hl'⟩ := h' id r' hr'
  exact ⟨r'', hr'', hl.trans hl'⟩

theorem of_intents_eq (h : db'.tradeIntents = db.tradeIntents) : Evolves db db' := by
  intro id r hr
  exact ⟨r, by rw [Db.find, h]; exact hr, Later.refl r⟩

/-- One row written over an earlier one. -/
theorem of_put (row : TradeIntentRow) {row' : TradeIntentRow} (ht : db'.tradeIntents = db.tradeIntents.put row')
    (hf : db.find row'.id = some row) (hl : Later row row') : Evolves db db' := by
  intro id r hr
  have hfind := Table.find?_put_of_find? (r := row') (k := id) hf
  rw [Db.find, ht, hfind]
  by_cases hid : key row' = id
  · rw [if_pos hid]
    have hrow : r = row := by
      have hr' : db.find row'.id = some r := by
        rw [← hr, ← hid]
        rfl
      simpa [hf, eq_comm] using hr'
    subst hrow
    exact ⟨row', rfl, hl⟩
  · rw [if_neg hid]
    exact ⟨r, hr, Later.refl r⟩

/-- A new row beside the old ones. -/
theorem of_insert {row : TradeIntentRow} {t : Table TradeIntentRow}
    (hi : db.tradeIntents.insert? row = some t) (ht : db'.tradeIntents = t) : Evolves db db' := by
  intro id r hr
  rw [Db.find, ht, Table.find?_of_insert? hi]
  by_cases hid : key row = id
  · have hnone := (Table.insert?_eq_some.mp hi).1
    rw [hid] at hnone
    simp [Db.find, hnone] at hr
  · rw [if_neg hid]
    exact ⟨r, hr, Later.refl r⟩

end Evolves

/-! ## The release rows of an intent -/

def isReleaseOf (id : IntentId) (e : TokenLedgerRow) : Bool := e.kind = .release && e.intentId = some id

/-- How often the reserve of an intent was released. -/
def Db.releases (db : Db) (id : IntentId) : ℕ := db.tokenLedger.countP (isReleaseOf id)

section Transactions

variable {now : UnixMs} {db db' : Db}

theorem TokenMove.tradeIntents {userId : UserId} {tokens : ℤ} {entry : TokenLedgerRow}
    (h : TokenMove db userId tokens entry db') : db'.tradeIntents = db.tradeIntents := by
  rcases h with ⟨_, rfl⟩ | ⟨_, user, _, _, rfl⟩ <;> rfl

theorem TokenMove.brokerTrades {userId : UserId} {tokens : ℤ} {entry : TokenLedgerRow}
    (h : TokenMove db userId tokens entry db') : db'.brokerTrades = db.brokerTrades := by
  rcases h with ⟨_, rfl⟩ | ⟨_, user, _, _, rfl⟩ <;> rfl

theorem TokenMove.releases_eq {userId : UserId} {tokens : ℤ} {entry : TokenLedgerRow} {id : IntentId}
    (h : TokenMove db userId tokens entry db') (he : isReleaseOf id entry = false) :
    db'.releases id = db.releases id := by
  rcases h with ⟨_, rfl⟩ | ⟨_, user, _, _, rfl⟩
  · rfl
  · simp [Db.releases, Db.post, he]

theorem evolves_takeIntent {o : TakeIntentOptions} {res : Option TradeIntentRow}
    (h : (takeIntent now o).run db = .ok (res, db')) :
    Evolves db db' ∧ db'.tokenLedger = db.tokenLedger := by
  obtain ⟨_, rfl⟩ | ⟨row, row', hf, hs, _, _, _, rfl, rfl⟩ := takeIntent_ok h
  · exact ⟨Evolves.refl _, rfl⟩
  · refine ⟨Evolves.of_put row rfl (Db.find_self hf) (Later.of_transition rfl rfl rfl ?_ (by simp)), rfl⟩
    rw [hs]
    rfl

theorem evolves_rejectIntent {o : RejectIntentOptions} {res : Option TradeIntentRow}
    (h : (rejectIntent now o).run db = .ok (res, db')) :
    Evolves db db' ∧ ∀ id, db'.releases id = db.releases id ∨
      (o.id = id ∧ ∃ row, db.find id = some row ∧ row.status = o.fromStatus ∧
        res = some (rejectedRow now o.reason row) ∧ db'.find id = res) := by
  obtain ⟨_, rfl⟩ | ⟨row, hf, hs, hc, _, _, hres, hmove⟩ := rejectIntent_ok h
  · exact ⟨Evolves.refl _, fun _ => .inl rfl⟩
  · have hself : db.find (rejectedRow now o.reason row).id = some row := Db.find_self hf
    refine ⟨Evolves.of_put row (hmove.tradeIntents.trans rfl) hself
      (Later.of_transition rfl rfl rfl hc (by simp [rejectedRow])), ?_⟩
    intro id
    by_cases hid : o.id = id
    · subst hid
      refine .inr ⟨rfl, row, hf, hs, hres, ?_⟩
      have hfind := Table.find?_put_of_find? (r := rejectedRow now o.reason row) (k := o.id) hself
      have hk : key (rejectedRow now o.reason row) = o.id := (Db.find_id hf : row.id = o.id)
      rw [hres, Db.find, hmove.tradeIntents]
      exact hfind.trans (if_pos hk)
    · exact .inl ((hmove.releases_eq (by simp [isReleaseOf, releaseRow, hid])).trans rfl)

theorem evolves_markIntentUnknown {o : MarkUnknownOptions} {res : Option TradeIntentRow}
    (h : (markIntentUnknown now o).run db = .ok (res, db')) :
    Evolves db db' ∧ db'.tokenLedger = db.tokenLedger := by
  obtain ⟨_, rfl⟩ | ⟨row, row', hf, hs, _, _, rfl, rfl⟩ := markIntentUnknown_ok h
  · exact ⟨Evolves.refl _, rfl⟩
  · have hkeep : ∀ (e : OutboxEventRow) (db : Db),
        (insertEventOrIgnore e db).tradeIntents = db.tradeIntents ∧
          (insertEventOrIgnore e db).tokenLedger = db.tokenLedger := by
      intro e db
      unfold insertEventOrIgnore
      split <;> exact ⟨rfl, rfl⟩
    refine ⟨Evolves.of_put row ((hkeep _ _).1.trans rfl) (Db.find_self hf)
      (Later.of_transition rfl rfl rfl ?_ (by simp)), (hkeep _ _).2.trans rfl⟩
    rw [hs]
    rfl

theorem evolves_markIntentAccepted {o : MarkAcceptedOptions} {res : Option TradeIntentRow}
    (h : (markIntentAccepted now o).run db = .ok (res, db')) :
    Evolves db db' ∧ db'.tokenLedger = db.tokenLedger := by
  obtain ⟨_, rfl⟩ | ⟨row, t, hf, _, hc, _, _, _, _, rfl⟩ := markIntentAccepted_ok h
  · exact ⟨Evolves.refl _, rfl⟩
  · have hself : db.find (acceptedRow now o.transport row).id = some row := Db.find_self hf
    exact ⟨Evolves.of_put row rfl hself (Later.of_transition rfl rfl rfl hc (by simp [acceptedRow])), rfl⟩

theorem evolves_settleIntent {o : SettleIntentOptions} {res : Option TradeIntentRow}
    (h : (settleIntent now o).run db = .ok (res, db')) :
    Evolves db db' ∧ ∀ id, db'.releases id = db.releases id := by
  obtain ⟨_, rfl⟩ | ⟨row, db₁, t, hf, _, hc, _, _, hmove, rfl⟩ := settleIntent_ok h
  · exact ⟨Evolves.refl _, fun _ => rfl⟩
  · have hself : db.find (settledRow now row).id = some row := Db.find_self hf
    refine ⟨Evolves.of_put row (hmove.tradeIntents.trans rfl) hself
      (Later.of_transition rfl rfl rfl hc (by simp [settledRow])), ?_⟩
    intro id
    exact (hmove.releases_eq (by simp [isReleaseOf, settleRow])).trans rfl

theorem evolves_startReconciling {id : IntentId} {v : ℕ} {res : Option TradeIntentRow}
    (h : (startReconciling now id v).run db = .ok (res, db')) :
    Evolves db db' ∧ db'.tokenLedger = db.tokenLedger := by
  obtain ⟨_, rfl⟩ | ⟨row, row', hf, hs, _, _, rfl, rfl⟩ := startReconciling_ok h
  · exact ⟨Evolves.refl _, rfl⟩
  · refine ⟨Evolves.of_put row rfl (Db.find_self hf) (Later.of_transition rfl rfl rfl ?_ (by simp)), rfl⟩
    rw [hs]
    rfl

theorem evolves_claimReconciling {id : IntentId} {retryMs : ℤ} {res : Option TradeIntentRow}
    (h : (claimReconciling now id retryMs).run db = .ok (res, db')) :
    Evolves db db' ∧ db'.tokenLedger = db.tokenLedger := by
  obtain ⟨_, rfl⟩ | ⟨row, hf, hs, _, _, rfl⟩ := claimReconciling_ok h
  · exact ⟨Evolves.refl _, rfl⟩
  · have hself : db.find (claimed now row).id = some row := Db.find_self hf
    refine ⟨Evolves.of_put row rfl hself ⟨rfl, rfl, .inr (Nat.lt_succ_self _), le_refl _, ?_⟩, rfl⟩
    intro hq
    have hne : row.status = .queued := hq
    simp [hs] at hne

theorem evolves_concludeReconciled {id : IntentId} {v : ℕ} {trade : BrokerTrade}
    {res : Option TradeIntentRow} (h : (concludeReconciled now id v trade).run db = .ok (res, db')) :
    Evolves db db' ∧ ∀ id, db'.releases id = db.releases id := by
  obtain ⟨_, rfl⟩ | ⟨accepted, db₁, ⟨_, hacc⟩, ⟨_, _, rfl⟩ | ⟨closed, settled, _, _, hset⟩⟩ :=
    concludeReconciled_ok h
  · exact ⟨Evolves.refl _, fun _ => rfl⟩
  · obtain ⟨hev, hledger⟩ := evolves_markIntentAccepted hacc
    exact ⟨hev, fun id => by simp [Db.releases, hledger]⟩
  · obtain ⟨hev, hledger⟩ := evolves_markIntentAccepted hacc
    obtain ⟨hev', hrel⟩ := evolves_settleIntent hset
    exact ⟨hev.trans hev', fun id => by rw [hrel]; simp [Db.releases, hledger]⟩

theorem evolves_markIntentManualReview {id : IntentId} {v : ℕ} {reason : TradeIntentFailureReason}
    {res : Option TradeIntentRow}
    (h : (markIntentManualReview now id v reason).run db = .ok (res, db')) :
    Evolves db db' ∧ db'.tokenLedger = db.tokenLedger := by
  cases res with
  | none =>
    rw [transitionIntent_none h]
    exact ⟨Evolves.refl _, rfl⟩
  | some row' =>
    obtain ⟨row, hf, hc, hm, rfl, rfl⟩ := transitionIntent_some h
    obtain ⟨hs, _, _⟩ := TransitionOptions.admits_eq_true.mp hm
    refine ⟨Evolves.of_put row rfl (Db.find_self hf) (Later.of_transition rfl rfl rfl ?_ (by simp)), rfl⟩
    rw [hs]
    rfl

theorem evolves_haltAccountForManualReview {id : IntentId} {v : ℕ} {reason : AccountHaltReason}
    {res : Option TradeIntentRow}
    (h : (haltAccountForManualReview now id v reason).run db = .ok (res, db')) :
    Evolves db db' ∧ db'.tokenLedger = db.tokenLedger := by
  obtain ⟨_, rfl⟩ | ⟨row, account, row', hf, hs, _, _, _, rfl, rfl⟩ := haltAccountForManualReview_ok h
  · exact ⟨Evolves.refl _, rfl⟩
  · refine ⟨Evolves.of_put row rfl (Db.find_self hf) (Later.of_transition rfl rfl rfl ?_ (by simp)), rfl⟩
    rw [hs]
    rfl

theorem evolves_createInTransaction {id : IntentId} {input : CreateTradeIntentRequest}
    {session : Option IntentSession} {options : CreateTradeIntentOptions} {res : CreateTradeIntentResult}
    (h : (createInTransaction now id input session options).run db = .ok (res, db')) :
    Evolves db db' ∧ ∀ id, db'.releases id = db.releases id := by
  obtain ⟨_, _, _, rfl⟩ | ⟨user, account, t, e, _, _, _, _, ht, _, rfl, _⟩ := createInTransaction_ok h
  · exact ⟨Evolves.refl _, fun _ => rfl⟩
  · exact ⟨Evolves.of_insert ht rfl, fun id => by simp [Db.releases, Db.post, isReleaseOf, reserveRow]⟩

theorem evolves_of_user_write (h : db'.tradeIntents = db.tradeIntents) {entry : TokenLedgerRow}
    (hledger : db'.tokenLedger = db.tokenLedger ∨ db'.tokenLedger = entry :: db.tokenLedger)
    (he : entry.kind ≠ .release) : Evolves db db' ∧ ∀ id, db'.releases id = db.releases id := by
  refine ⟨Evolves.of_intents_eq h, fun id => ?_⟩
  rcases hledger with hl | hl <;> simp [Db.releases, hl, isReleaseOf, he]

theorem evolves_adjustTokens {isControl : Char → Bool} {input : AdjustTokensInput}
    {res : AdjustTokensResult} (h : (adjustTokens isControl input).run db = .ok (res, db')) :
    Evolves db db' ∧ ∀ id, db'.releases id = db.releases id := by
  have he : (adjustmentRow input).kind ≠ .release := by simp [adjustmentRow]
  obtain rfl | ⟨user, _, _, rfl⟩ := adjustTokens_ok h
  · exact evolves_of_user_write rfl (.inl rfl) he
  · exact evolves_of_user_write rfl (.inr rfl) he

theorem evolves_creditStarPayment {payment : StarPaymentInput} {res : StarPaymentCredit}
    (h : (creditStarPayment payment).run db = .ok (res, db')) :
    Evolves db db' ∧ ∀ id, db'.releases id = db.releases id := by
  have he : ∀ tokens, (purchaseRow payment tokens).kind ≠ .release := by simp [purchaseRow]
  obtain rfl | ⟨t, rfl | ⟨user, tokens, _, _, rfl⟩⟩ := creditStarPayment_ok h
  · exact evolves_of_user_write rfl (.inl rfl) (he 0)
  · exact evolves_of_user_write rfl (.inl rfl) (he 0)
  · exact evolves_of_user_write rfl (.inr rfl) (he tokens)

theorem evolves_recordStarRefund {input : StarRefundInput} {res : StarRefundRecord}
    (h : (recordStarRefund now input).run db = .ok (res, db')) :
    Evolves db db' ∧ ∀ id, db'.releases id = db.releases id := by
  obtain rfl | ⟨t, rfl | ⟨payment, user, taken, _, _, _, rfl⟩⟩ := recordStarRefund_ok h
  · exact ⟨Evolves.refl _, fun _ => rfl⟩
  · exact ⟨Evolves.of_intents_eq rfl, fun _ => rfl⟩
  · exact ⟨Evolves.of_intents_eq rfl, fun id => by
      simp [Db.releases, Db.post, isReleaseOf, refundRow]⟩

theorem evolves_addUser {id : UserId} {telegramUserId : ℕ} {u : Unit}
    (h : (addUser id telegramUserId).run db = .ok (u, db')) :
    Evolves db db' ∧ db'.tokenLedger = db.tokenLedger := by
  simp only [addUser, Tx.run_bind_eq_ok, Tx.run_get_eq_ok, DbTx.run_demand_eq_ok, Tx.run_set_eq_ok] at h
  obtain ⟨_, _, ⟨rfl, rfl⟩, t, _, ⟨_, rfl⟩, rfl⟩ := h
  exact ⟨Evolves.of_intents_eq rfl, rfl⟩

theorem evolves_editUser {id : UserId} {status : UserStatus} {mode : TradeMode} {u : Unit}
    (h : (editUser id status mode).run db = .ok (u, db')) :
    Evolves db db' ∧ db'.tokenLedger = db.tokenLedger := by
  simp only [editUser, Tx.run_bind_eq_ok, Tx.run_get_eq_ok, DbTx.run_demand_eq_ok, Tx.run_set_eq_ok] at h
  obtain ⟨_, _, ⟨rfl, rfl⟩, ⟨_, t⟩, _, ⟨_, rfl⟩, rfl⟩ := h
  exact ⟨Evolves.of_intents_eq rfl, rfl⟩

theorem releases_eq_of_ledger (h : db'.tokenLedger = db.tokenLedger) (id : IntentId) :
    db'.releases id = db.releases id := by
  simp [Db.releases, h]

/-- **Every commit takes every row to a later one**, and the only transaction that writes an intent's
release row is a rejection of that intent. -/
theorem Txn.evolves_commit (t : Txn) (db : Db) :
    Evolves db (t.commit db) ∧ ∀ id, (t.commit db).releases id = db.releases id ∨
      ∃ now o row, t = .rejectIntent now o ∧ o.id = id ∧ db.find id = some row ∧
        row.status = o.fromStatus ∧ (t.commit db).find id = some (rejectedRow now o.reason row) := by
  have quiet : ∀ {α : Type} (x : DbTx α),
      (∀ a db', x.run db = .ok (a, db') → Evolves db db' ∧ ∀ id, db'.releases id = db.releases id) →
      Evolves db (x.commit db) ∧ ∀ id, (x.commit db).releases id = db.releases id := by
    intro α x h
    exact Tx.commit_induction (P := fun db' : Db => Evolves db db' ∧ ∀ id, db'.releases id = db.releases id)
      ⟨Evolves.refl _, fun _ => rfl⟩ h
  have still : ∀ {α : Type} (x : DbTx α),
      (∀ a db', x.run db = .ok (a, db') → Evolves db db' ∧ db'.tokenLedger = db.tokenLedger) →
      Evolves db (x.commit db) ∧ ∀ id, (x.commit db).releases id = db.releases id :=
    fun x h => quiet x (fun a db' hx => ⟨(h a db' hx).1, releases_eq_of_ledger (h a db' hx).2⟩)
  cases t with
  | rejectIntent now o =>
    cases hrun : (Binarius.rejectIntent now o).run db with
    | error e =>
      have hdb : (Txn.rejectIntent now o).commit db = db := Tx.commit_eq_of_error hrun
      rw [hdb]
      exact ⟨Evolves.refl _, fun _ => .inl rfl⟩
    | ok p =>
      obtain ⟨res, db'⟩ := p
      have hdb : (Txn.rejectIntent now o).commit db = db' := Tx.commit_eq_of_ok hrun
      rw [hdb]
      obtain ⟨hev, hrel⟩ := evolves_rejectIntent hrun
      refine ⟨hev, fun id => ?_⟩
      rcases hrel id with h | ⟨hid, row, hf, hs, rfl, hf'⟩
      · exact .inl h
      · exact .inr ⟨now, o, row, rfl, hid, hf, hs, hf'⟩
  | createTradeIntent now id input session options =>
    obtain ⟨h1, h2⟩ := quiet (createInTransaction now id input session options)
      (fun _ _ h => evolves_createInTransaction h)
    exact ⟨h1, fun id => .inl (h2 id)⟩
  | takeIntent now o =>
    obtain ⟨h1, h2⟩ := still (Binarius.takeIntent now o) (fun _ _ h => evolves_takeIntent h)
    exact ⟨h1, fun id => .inl (h2 id)⟩
  | markIntentUnknown now o =>
    obtain ⟨h1, h2⟩ := still (Binarius.markIntentUnknown now o) (fun _ _ h => evolves_markIntentUnknown h)
    exact ⟨h1, fun id => .inl (h2 id)⟩
  | markIntentAccepted now o =>
    obtain ⟨h1, h2⟩ := still (Binarius.markIntentAccepted now o)
      (fun _ _ h => evolves_markIntentAccepted h)
    exact ⟨h1, fun id => .inl (h2 id)⟩
  | settleIntent now o =>
    obtain ⟨h1, h2⟩ := quiet (Binarius.settleIntent now o) (fun _ _ h => evolves_settleIntent h)
    exact ⟨h1, fun id => .inl (h2 id)⟩
  | startReconciling now id v =>
    obtain ⟨h1, h2⟩ := still (Binarius.startReconciling now id v) (fun _ _ h => evolves_startReconciling h)
    exact ⟨h1, fun id => .inl (h2 id)⟩
  | claimReconciling now id retryMs =>
    obtain ⟨h1, h2⟩ := still (Binarius.claimReconciling now id retryMs)
      (fun _ _ h => evolves_claimReconciling h)
    exact ⟨h1, fun id => .inl (h2 id)⟩
  | concludeReconciled now id v trade =>
    obtain ⟨h1, h2⟩ := quiet (Binarius.concludeReconciled now id v trade)
      (fun _ _ h => evolves_concludeReconciled h)
    exact ⟨h1, fun id => .inl (h2 id)⟩
  | markIntentManualReview now id v reason =>
    obtain ⟨h1, h2⟩ := still (Binarius.markIntentManualReview now id v reason)
      (fun _ _ h => evolves_markIntentManualReview h)
    exact ⟨h1, fun id => .inl (h2 id)⟩
  | haltAccountForManualReview now id v reason =>
    obtain ⟨h1, h2⟩ := still (Binarius.haltAccountForManualReview now id v reason)
      (fun _ _ h => evolves_haltAccountForManualReview h)
    exact ⟨h1, fun id => .inl (h2 id)⟩
  | adjustTokens isControl input =>
    obtain ⟨h1, h2⟩ := quiet (Binarius.adjustTokens isControl input) (fun _ _ h => evolves_adjustTokens h)
    exact ⟨h1, fun id => .inl (h2 id)⟩
  | creditStarPayment payment =>
    obtain ⟨h1, h2⟩ := quiet (Binarius.creditStarPayment payment)
      (fun _ _ h => evolves_creditStarPayment h)
    exact ⟨h1, fun id => .inl (h2 id)⟩
  | recordStarRefund now input =>
    obtain ⟨h1, h2⟩ := quiet (Binarius.recordStarRefund now input) (fun _ _ h => evolves_recordStarRefund h)
    exact ⟨h1, fun id => .inl (h2 id)⟩
  | addUser id telegramUserId =>
    obtain ⟨h1, h2⟩ := still (Binarius.addUser id telegramUserId) (fun _ _ h => evolves_addUser h)
    exact ⟨h1, fun id => .inl (h2 id)⟩
  | editUser id status mode =>
    obtain ⟨h1, h2⟩ := still (Binarius.editUser id status mode) (fun _ _ h => evolves_editUser h)
    exact ⟨h1, fun id => .inl (h2 id)⟩
  | elsewhere s => exact ⟨Evolves.of_intents_eq rfl, fun _ => .inl rfl⟩

theorem evolves_commitAll (ts : List Txn) (db : Db) : Evolves db (commitAll db ts) := by
  induction ts generalizing db with
  | nil => exact Evolves.refl db
  | cons t ts ih => exact (t.evolves_commit db).1.trans (ih _)

/-! ## The row a transaction touches -/

/-- A row whose status is not that of the row written over is unchanged. -/
theorem find_put_frame {row row' r : TradeIntentRow} {id : IntentId}
    (ht : db'.tradeIntents = db.tradeIntents.put row') (hf : db.find row'.id = some row)
    (hr : db.find id = some r) (hne : r.status ≠ row.status) : db'.find id = some r := by
  have hfind := Table.find?_put_of_find? (r := row') (k := id) hf
  rw [Db.find, ht, hfind]
  by_cases hid : key row' = id
  · have hr' : db.find row'.id = some r := by
      rw [← hr, ← hid]
      rfl
    rw [hf, Option.some.injEq] at hr'
    exact absurd (by rw [hr']) hne
  · rw [if_neg hid]
    exact hr

/-- The status a transaction moves an intent from. -/
def Txn.source : Txn → Option TradeIntentStatus
  | .takeIntent .. => some .queued
  | .rejectIntent _ o => some o.fromStatus
  | .markIntentUnknown .. => some .submitting
  | .markIntentAccepted _ o => some o.fromStatus
  | .settleIntent _ o => some o.fromStatus
  | .startReconciling .. => some .unknown
  | .claimReconciling .. => some .reconciling
  | .concludeReconciled .. => some .reconciling
  | .markIntentManualReview .. => some .reconciling
  | .haltAccountForManualReview .. => some .reconciling
  | _ => none

theorem frame_rejectIntent {o : RejectIntentOptions} {res : Option TradeIntentRow} {id : IntentId}
    {r : TradeIntentRow} (h : (rejectIntent now o).run db = .ok (res, db')) (hr : db.find id = some r)
    (hne : r.status ≠ o.fromStatus) : db'.find id = some r := by
  obtain ⟨_, rfl⟩ | ⟨row, hf, hs, _, _, _, _, hmove⟩ := rejectIntent_ok h
  · exact hr
  · have hself : db.find (rejectedRow now o.reason row).id = some row := Db.find_self hf
    exact find_put_frame (hmove.tradeIntents.trans rfl) hself hr (hs ▸ hne)

theorem frame_markIntentAccepted {o : MarkAcceptedOptions} {res : Option TradeIntentRow} {id : IntentId}
    {r : TradeIntentRow} (h : (markIntentAccepted now o).run db = .ok (res, db'))
    (hr : db.find id = some r) (hne : r.status ≠ o.fromStatus) : db'.find id = some r := by
  obtain ⟨_, rfl⟩ | ⟨row, t, hf, hs, _, _, _, _, _, rfl⟩ := markIntentAccepted_ok h
  · exact hr
  · have hself : db.find (acceptedRow now o.transport row).id = some row := Db.find_self hf
    exact find_put_frame rfl hself hr (hs ▸ hne)

theorem frame_settleIntent {o : SettleIntentOptions} {res : Option TradeIntentRow} {id : IntentId}
    {r : TradeIntentRow} (h : (settleIntent now o).run db = .ok (res, db')) (hr : db.find id = some r)
    (hne : r.status ≠ o.fromStatus) : db'.find id = some r := by
  obtain ⟨_, rfl⟩ | ⟨row, db₁, t, hf, hs, _, _, _, hmove, rfl⟩ := settleIntent_ok h
  · exact hr
  · have hself : db.find (settledRow now row).id = some row := Db.find_self hf
    exact find_put_frame (hmove.tradeIntents.trans rfl) hself hr (hs ▸ hne)

/-- **A transaction touches only a row of its source status.** -/
theorem Txn.frame_commit (t : Txn) {db : Db} {id : IntentId} {r : TradeIntentRow}
    (hr : db.find id = some r) (hsource : t.source ≠ some r.status) : (t.commit db).find id = some r := by
  have ran : ∀ {α : Type} (x : DbTx α),
      (∀ a db', x.run db = .ok (a, db') → db'.find id = some r) → (x.commit db).find id = some r := by
    intro α x h
    exact Tx.commit_induction (P := fun db' : Db => db'.find id = some r) hr h
  have untouched : ∀ {db' : Db}, db'.tradeIntents = db.tradeIntents → db'.find id = some r := by
    intro db' h
    rw [Db.find, h]
    exact hr
  have away : ∀ {s : TradeIntentStatus}, t.source = some s → r.status ≠ s := by
    rintro s hs rfl
    exact hsource hs
  cases t with
  | createTradeIntent now id' input session options =>
    refine ran (createInTransaction now id' input session options) (fun a db' h => ?_)
    obtain ⟨_, _, _, rfl⟩ | ⟨user, account, t, e, _, _, _, _, ht, _, rfl, _⟩ := createInTransaction_ok h
    · exact hr
    · have hnone := (Table.insert?_eq_some.mp ht).1
      refine (Table.find?_of_insert? ht id).trans ?_
      split
      · rename_i hid
        rw [hid] at hnone
        simp [Db.find, hnone] at hr
      · exact hr
  | takeIntent now o =>
    refine ran (Binarius.takeIntent now o) (fun a db' h => ?_)
    obtain ⟨_, rfl⟩ | ⟨row, row', hf, hs, _, _, _, hrow, rfl⟩ := takeIntent_ok h
    · exact hr
    · exact find_put_frame rfl (by rw [hrow]; exact Db.find_self hf) hr (hs ▸ away rfl)
  | rejectIntent now o =>
    exact ran (Binarius.rejectIntent now o) (fun a db' h => frame_rejectIntent h hr (away rfl))
  | markIntentUnknown now o =>
    refine ran (Binarius.markIntentUnknown now o) (fun a db' h => ?_)
    obtain ⟨_, rfl⟩ | ⟨row, row', hf, hs, _, _, hrow, rfl⟩ := markIntentUnknown_ok h
    · exact hr
    · have hput : (insertEventOrIgnore (pendingEvent now .tradingReconciliation o.id)
          (db.setIntent row')).tradeIntents = db.tradeIntents.put row' := by
        unfold insertEventOrIgnore
        split <;> rfl
      exact find_put_frame hput (by rw [hrow]; exact Db.find_self hf) hr (hs ▸ away rfl)
  | markIntentAccepted now o =>
    exact ran (Binarius.markIntentAccepted now o) (fun a db' h => frame_markIntentAccepted h hr (away rfl))
  | settleIntent now o =>
    exact ran (Binarius.settleIntent now o) (fun a db' h => frame_settleIntent h hr (away rfl))
  | startReconciling now id' v =>
    refine ran (Binarius.startReconciling now id' v) (fun a db' h => ?_)
    obtain ⟨_, rfl⟩ | ⟨row, row', hf, hs, _, _, hrow, rfl⟩ := startReconciling_ok h
    · exact hr
    · exact find_put_frame rfl (by rw [hrow]; exact Db.find_self hf) hr (hs ▸ away rfl)
  | claimReconciling now id' retryMs =>
    refine ran (Binarius.claimReconciling now id' retryMs) (fun a db' h => ?_)
    obtain ⟨_, rfl⟩ | ⟨row, hf, hs, _, _, rfl⟩ := claimReconciling_ok h
    · exact hr
    · have hself : db.find (claimed now row).id = some row := Db.find_self hf
      exact find_put_frame rfl hself hr (hs ▸ away rfl)
  | concludeReconciled now id' v trade =>
    refine ran (Binarius.concludeReconciled now id' v trade) (fun a db' h => ?_)
    obtain ⟨_, rfl⟩ | ⟨accepted, db₁, ⟨_, hacc⟩, ⟨_, _, rfl⟩ | ⟨closed, settled, _, _, hset⟩⟩ :=
      concludeReconciled_ok h
    · exact hr
    · exact frame_markIntentAccepted hacc hr (away rfl)
    · -- the accepted row is the one settled next: no other row is accepted at its id
      have h₁ := frame_markIntentAccepted hacc hr (away rfl)
      obtain ⟨hnone, _⟩ | ⟨row, t, hf, hs, _, _, _, hres, _, rfl⟩ := markIntentAccepted_ok hacc
      · simp at hnone
      · obtain ⟨hn, _⟩ | ⟨row₂, db₂, t₂, hf₂, _, _, _, _, hmove, rfl⟩ := settleIntent_ok hset
        · simp at hn
        · have hself : Db.find _ (settledRow now row₂).id = some row₂ := Db.find_self hf₂
          have hne : id ≠ id' := by
            rintro rfl
            have hrow : r = row := by simpa [hr] using hf
            exact away rfl (hrow ▸ hs)
          have hfind := Table.find?_put_of_find? (r := settledRow now row₂) (k := id) hself
          have hkey : key (settledRow now row₂) ≠ id := by
            have hk : row₂.id = id' := Db.find_id hf₂
            show row₂.id ≠ id
            rw [hk]
            exact hne.symm
          rw [if_neg hkey] at hfind
          show db₂.tradeIntents.find? id = some r
          rw [hmove.tradeIntents]
          exact hfind.trans h₁
  | markIntentManualReview now id' v reason =>
    refine ran (Binarius.markIntentManualReview now id' v reason) (fun res db' h => ?_)
    cases res with
    | none =>
      rw [transitionIntent_none h]
      exact hr
    | some row' =>
      obtain ⟨row, hf, _, hm, hrow, rfl⟩ := transitionIntent_some h
      have hs : row.status = .reconciling := (TransitionOptions.admits_eq_true.mp hm).1
      have hself : db.find row'.id = some row := by
        rw [hrow]
        exact Db.find_self hf
      exact find_put_frame rfl hself hr (hs ▸ away rfl)
  | haltAccountForManualReview now id' v reason =>
    refine ran (Binarius.haltAccountForManualReview now id' v reason) (fun a db' h => ?_)
    obtain ⟨_, rfl⟩ | ⟨row, account, row', hf, hs, _, _, _, hrow, rfl⟩ := haltAccountForManualReview_ok h
    · exact hr
    · exact find_put_frame rfl (by rw [hrow]; exact Db.find_self hf) hr (hs ▸ away rfl)
  | adjustTokens isControl input =>
    refine ran (Binarius.adjustTokens isControl input) (fun a db' h => ?_)
    obtain rfl | ⟨user, _, _, rfl⟩ := adjustTokens_ok h
    · exact hr
    · exact untouched rfl
  | creditStarPayment payment =>
    refine ran (Binarius.creditStarPayment payment) (fun a db' h => ?_)
    obtain rfl | ⟨t, rfl | ⟨user, tokens, _, _, rfl⟩⟩ := creditStarPayment_ok h
    · exact hr
    · exact untouched rfl
    · exact untouched rfl
  | recordStarRefund now input =>
    refine ran (Binarius.recordStarRefund now input) (fun a db' h => ?_)
    obtain rfl | ⟨t, rfl | ⟨payment, user, taken, _, _, _, rfl⟩⟩ := recordStarRefund_ok h
    · exact hr
    · exact untouched rfl
    · exact untouched rfl
  | addUser id' telegramUserId =>
    refine ran (Binarius.addUser id' telegramUserId) (fun a db' h => ?_)
    simp only [Binarius.addUser, Tx.run_bind_eq_ok, Tx.run_get_eq_ok, DbTx.run_demand_eq_ok,
      Tx.run_set_eq_ok] at h
    obtain ⟨_, _, ⟨rfl, rfl⟩, t, _, ⟨_, rfl⟩, rfl⟩ := h
    exact untouched rfl
  | editUser id' status mode =>
    refine ran (Binarius.editUser id' status mode) (fun a db' h => ?_)
    simp only [Binarius.editUser, Tx.run_bind_eq_ok, Tx.run_get_eq_ok, DbTx.run_demand_eq_ok,
      Tx.run_set_eq_ok] at h
    obtain ⟨_, _, ⟨rfl, rfl⟩, ⟨_, t⟩, _, ⟨_, rfl⟩, rfl⟩ := h
    exact untouched rfl
  | elsewhere s => exact untouched rfl

theorem frame_commitAll {ts : List Txn} {db : Db} {id : IntentId} {r : TradeIntentRow}
    (hr : db.find id = some r) (hts : ∀ t ∈ ts, t.source ≠ some r.status) :
    (commitAll db ts).find id = some r := by
  induction ts generalizing db with
  | nil => exact hr
  | cons t ts ih =>
    exact ih (t.frame_commit hr (hts t List.mem_cons_self))
      (fun t' ht' => hts t' (List.mem_cons_of_mem _ ht'))

end Transactions

end Binarius
