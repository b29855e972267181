import Mathlib.Tactic
import Binarius.Worker.World

/-!
# Worker.Reconciliation — claims of reconciling intents, over any interleaving of passes
(apps/trading-worker/src/intents/reconciliation.ts)

A claim bumps the row's version, and every outcome is a compare-and-set on the version its claim
returned: an outcome that finds the version unchanged is the latest claimant's.

* `Concluded`: what an outcome transaction does to the database when it does anything.
* `ClaimInv`: the row an attempt holds is an earlier state of the intent's row, and the intent's latest
  claim is the attempt's while the version is unchanged.
* `reconciliation_claims`: **one conclusion per intent, by the holder of its latest claim**; an older
  claim's outcome changes nothing; the account is halted iff the intent is parked.
-/

namespace Binarius

open Lib

/-- What an outcome transaction of a held row does when it does anything. -/
structure Concluded (row : TradeIntentRow) (db db' : Db) : Prop where
  left : ∃ cur r', db.find row.id = some cur ∧ cur.status = .reconciling ∧ cur.version = row.version ∧
    db'.find row.id = some r' ∧
    (r'.status = .accepted ∨ r'.status = .settled ∨ r'.status = .rejected ∨ r'.status = .manualReview) ∧
    (r'.status ≠ .manualReview → db'.brokerAccounts = db.brokerAccounts) ∧
    (r'.status = .manualReview → ∃ account reason,
      db.brokerAccounts.find? cur.brokerAccountId = some account ∧
        db'.brokerAccounts = db.brokerAccounts.put (halted reason account))
  others : ∀ id r, id ≠ row.id → db.find id = some r → db'.find id = some r

section Outcomes

variable {now : UnixMs} {db db' : Db} {row : TradeIntentRow} {res : Option TradeIntentRow}

theorem TokenMove.brokerAccounts {userId : UserId} {tokens : ℤ} {entry : TokenLedgerRow}
    (h : TokenMove db userId tokens entry db') : db'.brokerAccounts = db.brokerAccounts := by
  rcases h with ⟨_, rfl⟩ | ⟨_, user, _, _, rfl⟩ <;> rfl

/-- The lookups after the row of an id was written. -/
theorem find_put_self (db' : Db) (row' : TradeIntentRow) {cur : TradeIntentRow} {id : IntentId}
    (hf : db.find id = some cur) (hid : row'.id = cur.id)
    (ht : db'.tradeIntents = db.tradeIntents.put row') :
    db'.find id = some row' ∧ ∀ id' r, id' ≠ id → db.find id' = some r → db'.find id' = some r := by
  have hkey : key row' = id := hid.trans (Db.find_id hf)
  have hself : db.tradeIntents.find? (key row') = some cur := by
    rw [hkey]
    exact hf
  refine ⟨?_, ?_⟩
  · rw [Db.find, ht, Table.find?_put_of_find? hself, if_pos hkey]
  · intro id' r hne hr
    rw [Db.find, ht, Table.find?_put_of_find? hself, hkey, if_neg (Ne.symm hne)]
    exact hr

theorem concluded_rejectIntent {reason : TradeIntentFailureReason}
    (h : (rejectIntent now
      { id := row.id, fromStatus := .reconciling, expectedVersion := some row.version
        reason := reason }).run db = .ok (res, db')) : db' = db ∨ Concluded row db db' := by
  obtain ⟨_, rfl⟩ | ⟨cur, hf, hs, _, hv, _, _, hmove⟩ := rejectIntent_ok h
  · exact .inl rfl
  · obtain ⟨hself, hothers⟩ := find_put_self db' (rejectedRow now reason cur) hf rfl
      (hmove.tradeIntents.trans rfl)
    refine .inr ⟨⟨cur, _, hf, hs, hv _ rfl, hself, .inr (.inr (.inl rfl)), ?_, ?_⟩, hothers⟩
    · intro _
      exact hmove.brokerAccounts.trans rfl
    · intro hm
      simp [rejectedRow] at hm

theorem concluded_halt {reason : AccountHaltReason}
    (h : (haltAccountForManualReview now row.id row.version reason).run db = .ok (res, db')) :
    db' = db ∨ Concluded row db db' := by
  obtain ⟨_, rfl⟩ | ⟨cur, account, row', hf, hs, hv, hacc, _, hrow, rfl⟩ := haltAccountForManualReview_ok h
  · exact .inl rfl
  · obtain ⟨hself, hothers⟩ := find_put_self
      { db.setIntent row' with brokerAccounts := db.brokerAccounts.put (halted reason account) } row' hf
      (by rw [hrow]) rfl
    have hmanual : row'.status = .manualReview := by rw [hrow]
    refine .inr ⟨⟨cur, row', hf, hs, hv, hself, .inr (.inr (.inr hmanual)), ?_, ?_⟩, hothers⟩
    · intro hne
      exact absurd hmanual hne
    · intro _
      exact ⟨account, reason, hacc, rfl⟩

theorem concluded_concludeReconciled {trade : BrokerTrade}
    (h : (concludeReconciled now row.id row.version trade).run db = .ok (res, db')) :
    db' = db ∨ Concluded row db db' := by
  obtain ⟨_, rfl⟩ | ⟨accepted, db₁, ⟨transport, hacc⟩, hend⟩ := concludeReconciled_ok h
  · exact .inl rfl
  obtain ⟨hnone, _⟩ | ⟨cur, t, hf, hs, _, hv, _, _, _, rfl⟩ := markIntentAccepted_ok hacc
  · simp at hnone
  obtain ⟨hself, hothers⟩ := find_put_self
    { db.setIntent (acceptedRow now transport cur) with brokerTrades := t }
    (acceptedRow now transport cur) hf rfl rfl
  rcases hend with ⟨_, _, rfl⟩ | ⟨closed, settled, _, _, hset⟩
  · refine .inr ⟨⟨cur, _, hf, hs, hv, hself, .inl rfl, fun _ => rfl, ?_⟩, hothers⟩
    intro hm
    simp [acceptedRow] at hm
  · obtain ⟨hnone, _⟩ | ⟨row₂, db₂, t₂, hf₂, _, _, _, _, hmove, rfl⟩ := settleIntent_ok hset
    · simp at hnone
    · obtain ⟨hself₂, hothers₂⟩ := find_put_self { db₂ with brokerTrades := t₂ }
        (settledRow now row₂) hf₂ rfl (hmove.tradeIntents.trans rfl)
      refine .inr ⟨⟨cur, _, hf, hs, hv, hself₂, .inr (.inl rfl), ?_, ?_⟩, ?_⟩
      · intro _
        exact hmove.brokerAccounts.trans rfl
      · intro hm
        simp [settledRow] at hm
      · intro id r hne hr
        exact hothers₂ id r hne (hothers id r hne hr)

end Outcomes

/-- The row an attempt holds: what its claim returned. -/
def Attempt.held : Attempt → Option TradeIntentRow
  | .claimed row => some row
  | .answered row _ => some row
  | .mismatched row => some row
  | .waiting => none
  | .done => none

/-- The actions of a reconciliation pass. -/
def Action.ofPass : Action → Bool
  | .claim .. => true
  | .reconciled .. => true
  | .conclude .. => true
  | .loseAttempt .. => true
  | _ => false

namespace World

variable {w : World}

/-! ### What the actions do to claims -/

theorem jobTx_keeps_attempts {α : Type} (j : ℕ) (t : DbTx α) (next : α → Job) :
    (w.jobTx j t next).attempts = w.attempts ∧ (w.jobTx j t next).claimant = w.claimant ∧
      (w.jobTx j t next).conclusions = w.conclusions := by
  unfold jobTx
  split <;> exact ⟨rfl, rfl, rfl⟩

/-- An action of no pass leaves attempts, claims and conclusions as they are. -/
theorem act_keeps_attempts {a : Action} (h : a.ofPass = false) :
    (w.act a).attempts = w.attempts ∧ (w.act a).claimant = w.claimant ∧
      (w.act a).conclusions = w.conclusions := by
  cases a with
  | claim a now id retryMs => simp [Action.ofPass] at h
  | reconciled a result => simp [Action.ofPass] at h
  | conclude a now => simp [Action.ofPass] at h
  | loseAttempt a => simp [Action.ofPass] at h
  | rejectDemoOnly j now =>
    simp only [act]
    split
    · split
      · exact jobTx_keeps_attempts _ _ _
      · exact ⟨rfl, rfl, rfl⟩
    · exact ⟨rfl, rfl, rfl⟩
  | take j now maxAgeMs =>
    simp only [act]
    split
    · exact jobTx_keeps_attempts _ _ _
    · exact ⟨rfl, rfl, rfl⟩
  | rejectExpired j now maxAgeMs =>
    simp only [act]
    split
    · exact jobTx_keeps_attempts _ _ _
    · exact ⟨rfl, rfl, rfl⟩
  | rejectLate j now =>
    simp only [act]
    split
    · exact jobTx_keeps_attempts _ _ _
    · exact ⟨rfl, rfl, rfl⟩
  | rejectPaused j now =>
    simp only [act]
    split
    · exact jobTx_keeps_attempts _ _ _
    · exact ⟨rfl, rfl, rfl⟩
  | persist j now =>
    simp only [act, persist]
    split
    · unfold persistAccepted
      split <;> exact ⟨rfl, rfl, rfl⟩
    · exact jobTx_keeps_attempts _ _ _
    · exact jobTx_keeps_attempts _ _ _
    · exact jobTx_keeps_attempts _ _ _
    · exact ⟨rfl, rfl, rfl⟩
  | markStale j now staleSubmittingMs =>
    simp only [act]
    split
    · exact jobTx_keeps_attempts _ _ _
    · exact ⟨rfl, rfl, rfl⟩
  | published id now =>
    simp only [act]
    split
    · split <;> exact ⟨rfl, rfl, rfl⟩
    · exact ⟨rfl, rfl, rfl⟩
  | loseJob j => exact ⟨rfl, rfl, rfl⟩
  | losePublisher id => exact ⟨rfl, rfl, rfl⟩
  | surroundings s => exact ⟨rfl, rfl, rfl⟩
  | deliver j id =>
    simp only [act]
    split <;> exact ⟨rfl, rfl, rfl⟩
  | forward j =>
    simp only [act]
    split <;> exact ⟨rfl, rfl, rfl⟩
  | submit j =>
    simp only [act]
    split <;> exact ⟨rfl, rfl, rfl⟩
  | answer j result =>
    simp only [act]
    split <;> exact ⟨rfl, rfl, rfl⟩
  | claimEvent id status =>
    simp only [act]
    split <;> exact ⟨rfl, rfl, rfl⟩
  | notPublished id now maxAttempts =>
    simp only [act]
    split <;> exact ⟨rfl, rfl, rfl⟩
  | transact t =>
    simp only [act]
    split <;> exact ⟨rfl, rfl, rfl⟩

/-- The transactions of no pass touch no reconciling row. -/
theorem txns_source {a : Action} (h : a.ofPass = false) {t : Txn} (ht : t ∈ w.txns a) :
    t.source ≠ some .reconciling := by
  cases a with
  | claim a now id retryMs => simp [Action.ofPass] at h
  | reconciled a result => simp [Action.ofPass] at h
  | conclude a now => simp [Action.ofPass] at h
  | loseAttempt a => simp [Action.ofPass] at h
  | rejectDemoOnly j now =>
    simp only [txns] at ht
    split at ht
    · split at ht
      · simp only [List.mem_singleton] at ht
        simp [ht, Txn.source]
      · simp at ht
    · simp at ht
  | persist j now =>
    simp only [txns] at ht
    split at ht <;> simp only [List.mem_singleton, List.not_mem_nil] at ht
    all_goals simp [ht, Txn.source]
  | published id now =>
    simp only [txns] at ht
    split at ht
    · split at ht <;> simp only [List.mem_singleton, List.not_mem_nil] at ht
      simp [ht, Txn.source]
    · simp at ht
  | notPublished id now maxAttempts =>
    simp only [txns] at ht
    split at ht
    · simp only [deliveryTxns] at ht
      split at ht
      · simp at ht
      · split at ht
        · simp only [List.mem_cons, List.not_mem_nil, or_false] at ht
          rcases ht with rfl | rfl <;> simp [Txn.source]
        · simp only [List.mem_singleton] at ht
          simp [ht, Txn.source]
    · simp at ht
  | transact t' =>
    simp only [txns] at ht
    split at ht
    · rename_i hout
      simp only [List.mem_singleton] at ht
      subst ht
      cases t <;> simp_all [Txn.source, Txn.outside]
      rcases hout with hout | hout <;> simp [hout]
    · simp at ht
  | surroundings s =>
    simp only [txns, List.mem_singleton] at ht
    simp [ht, Txn.source]
  | take j now maxAgeMs =>
    simp only [txns] at ht
    split at ht <;> simp only [List.mem_singleton, List.not_mem_nil] at ht
    simp [ht, Txn.source]
  | rejectExpired j now maxAgeMs =>
    simp only [txns] at ht
    split at ht <;> simp only [List.mem_singleton, List.not_mem_nil] at ht
    simp [ht, Txn.source]
  | rejectLate j now =>
    simp only [txns] at ht
    split at ht <;> simp only [List.mem_singleton, List.not_mem_nil] at ht
    simp [ht, Txn.source]
  | rejectPaused j now =>
    simp only [txns] at ht
    split at ht <;> simp only [List.mem_singleton, List.not_mem_nil] at ht
    simp [ht, Txn.source]
  | markStale j now staleSubmittingMs =>
    simp only [txns] at ht
    split at ht <;> simp only [List.mem_singleton, List.not_mem_nil] at ht
    simp [ht, Txn.source]
  | _ => simp [txns] at ht

end World

/-- An action of no pass leaves a reconciling row as it is. -/
theorem World.act_frame_reconciling {w : World} {a : Action} (ha : a.ofPass = false) {id : IntentId}
    {r : TradeIntentRow} (hr : w.db.find id = some r) (hs : r.status = .reconciling) :
    (w.act a).db.find id = some r := by
  rw [World.act_db]
  refine frame_commitAll hr (fun t ht => ?_)
  rw [hs]
  exact World.txns_source ha ht

namespace World

variable {w : World}

/-- The conclusion of an attempt: an outcome transaction of the row it holds, which ends the attempt or
finds a mismatch; or nothing but its end. -/
theorem conclude_cases (w : World) (k : ℕ) (now : UnixMs) :
    (∃ row t, (w.attempts k).held = some row ∧ w.conclude k now = w.outcomeTx k row t ∧
        ∀ res db', t.run w.db = .ok (res, db') → db' = w.db ∨ Concluded row w.db db') ∨
      w.conclude k now = w.setAttempt k .done ∨ w.conclude k now = w := by
  unfold conclude
  cases hk : w.attempts k with
  | answered row result =>
    cases result with
    | found trade => exact .inl ⟨row, _, rfl, rfl, fun _ _ h => concluded_concludeReconciled h⟩
    | notFound => exact .inl ⟨row, _, rfl, rfl, fun _ _ h => concluded_rejectIntent h⟩
    | ambiguous => exact .inl ⟨row, _, rfl, rfl, fun _ _ h => concluded_halt h⟩
    | unresolved => exact .inl ⟨row, _, rfl, rfl, fun _ _ h => concluded_halt h⟩
    | unavailable reason => exact .inr (.inl rfl)
    | failed => exact .inr (.inl rfl)
  | mismatched row => exact .inl ⟨row, _, rfl, rfl, fun _ _ h => concluded_halt h⟩
  | waiting => exact .inr (.inr rfl)
  | claimed row => exact .inr (.inr rfl)
  | done => exact .inr (.inr rfl)

/-- **What the conclusion of an attempt does**: nothing to the database and no conclusion, or the one
conclusion of the intent it holds. -/
theorem conclude_effect (w : World) (k : ℕ) (now : UnixMs) :
    (w.conclude k now).claimant = w.claimant ∧
      (∀ i, (w.conclude k now).attempts i = w.attempts i ∨
        ((w.conclude k now).attempts i).held = none ∨
        ((w.conclude k now).attempts i).held = (w.attempts i).held) ∧
      (((w.conclude k now).db = w.db ∧ (w.conclude k now).conclusions = w.conclusions) ∨
        ∃ row, (w.attempts k).held = some row ∧ Concluded row w.db (w.conclude k now).db ∧
          (w.conclude k now).conclusions = row.id :: w.conclusions) := by
  have hset : ∀ (v : World) (s : Attempt), v.attempts = w.attempts →
      (s.held = none ∨ s.held = (w.attempts k).held) → ∀ i,
      (v.setAttempt k s).attempts i = w.attempts i ∨ ((v.setAttempt k s).attempts i).held = none ∨
        ((v.setAttempt k s).attempts i).held = (w.attempts i).held := by
    intro v s hv hs i
    by_cases hi : i = k
    · subst hi
      rw [show (v.setAttempt i s).attempts i = s from Function.update_self ..]
      exact .inr hs
    · rw [show (v.setAttempt k s).attempts i = v.attempts i from Function.update_of_ne hi .., hv]
      exact .inl rfl
  rcases conclude_cases w k now with ⟨row, t, hheld, heq, hout⟩ | heq | heq
  · rw [heq]
    unfold outcomeTx
    split
    · rename_i res db hrun
      refine ⟨rfl, hset (w.withDb db) .done rfl (.inl rfl), ?_⟩
      rcases hout res db hrun with rfl | hcon
      · refine .inl ⟨rfl, ?_⟩
        simp
      · obtain ⟨cur, r', hf, hs, _, hf', hstat, _⟩ := hcon.left
        have hleft : reconciling w.db row.id = true := by simp [reconciling, hf, hs]
        have hgone : reconciling db row.id = false := by
          rcases hstat with h | h | h | h <;> simp [reconciling, hf', h]
        refine .inr ⟨row, hheld, hcon, ?_⟩
        simp [hleft, hgone]
    · exact ⟨rfl, hset w (.mismatched row) rfl (.inr hheld.symm), .inl ⟨rfl, rfl⟩⟩
    · exact ⟨rfl, hset w .done rfl (.inl rfl), .inl ⟨rfl, rfl⟩⟩
  · rw [heq]
    exact ⟨rfl, hset w .done rfl (.inl rfl), .inl ⟨rfl, rfl⟩⟩
  · rw [heq]
    exact ⟨rfl, fun _ => .inl rfl, .inl ⟨rfl, rfl⟩⟩

/-- **What a claim does**: it ends an attempt that got none, or bumps the version of the row the attempt
then holds. -/
theorem claim_effect (w : World) (k : ℕ) (now : UnixMs) (id : IntentId) (retryMs : ℤ) :
    (w.claim k now id retryMs).conclusions = w.conclusions ∧
      (∀ i, i ≠ k → (w.claim k now id retryMs).attempts i = w.attempts i) ∧
      (((w.claim k now id retryMs).db = w.db ∧ (w.claim k now id retryMs).claimant = w.claimant ∧
          ((w.claim k now id retryMs).attempts k = w.attempts k ∨
            ((w.claim k now id retryMs).attempts k).held = none)) ∨
        ∃ row, w.db.find id = some row ∧ row.status = .reconciling ∧
          (w.claim k now id retryMs).db = w.db.setIntent (claimed now row) ∧
          (w.claim k now id retryMs).attempts k = .claimed (claimed now row) ∧
          (w.claim k now id retryMs).claimant = Function.update w.claimant id (some k)) := by
  unfold claim
  cases hk : w.attempts k with
  | waiting =>
    have hend : ∀ i, i ≠ k → (w.setAttempt k .done).attempts i = w.attempts i :=
      fun i hi => Function.update_of_ne hi ..
    have hnone : ((w.setAttempt k .done).attempts k).held = none := by
      rw [show (w.setAttempt k .done).attempts k = .done from Function.update_self ..]
      rfl
    cases hrun : (claimReconciling now id retryMs).run w.db with
    | error e => exact ⟨rfl, hend, .inl ⟨rfl, rfl, .inr hnone⟩⟩
    | ok p =>
      obtain ⟨res, db⟩ := p
      cases res with
      | none => exact ⟨rfl, hend, .inl ⟨rfl, rfl, .inr hnone⟩⟩
      | some row =>
        refine ⟨rfl, fun i hi => Function.update_of_ne hi .., .inr ?_⟩
        obtain ⟨hnone, _⟩ | ⟨cur, hf, hs, _, hres, rfl⟩ := claimReconciling_ok hrun
        · simp at hnone
        · simp only [Option.some.injEq] at hres
          subst hres
          exact ⟨cur, hf, hs, rfl, Function.update_self .., rfl⟩
  | _ => exact ⟨rfl, fun _ _ => rfl, .inl ⟨rfl, rfl, .inl hk⟩⟩

theorem reconciled_keeps (w : World) (k : ℕ) (result : ReconcileResult) :
    (w.act (.reconciled k result)).db = w.db ∧
      (w.act (.reconciled k result)).claimant = w.claimant ∧
      (w.act (.reconciled k result)).conclusions = w.conclusions ∧
      ∀ i, ((w.act (.reconciled k result)).attempts i).held = (w.attempts i).held := by
  simp only [act]
  cases hk : w.attempts k with
  | claimed row =>
    refine ⟨rfl, rfl, rfl, fun i => ?_⟩
    by_cases hi : i = k
    · subst hi
      rw [show (w.setAttempt i (.answered row result)).attempts i = _ from Function.update_self .., hk]
      rfl
    · rw [show (w.setAttempt k (.answered row result)).attempts i = _ from Function.update_of_ne hi ..]
  | _ => exact ⟨rfl, rfl, rfl, fun _ => rfl⟩

theorem loseAttempt_held (w : World) (k i : ℕ) (row : TradeIntentRow)
    (h : ((w.act (.loseAttempt k)).attempts i).held = some row) : (w.attempts i).held = some row := by
  by_cases hi : i = k
  · subst hi
    rw [show (w.act (.loseAttempt i)).attempts i = .done from Function.update_self ..] at h
    simp [Attempt.held] at h
  · rwa [show (w.act (.loseAttempt k)).attempts i = w.attempts i from Function.update_of_ne hi ..] at h

end World

/-! ## The invariant -/

structure ClaimInv (w : World) : Prop where
  held : ∀ k row, (w.attempts k).held = some row → ∃ cur, w.db.find row.id = some cur ∧ Later row cur ∧
    (cur.version = row.version → w.claimant row.id = some k)
  concluded : ∀ id ∈ w.conclusions, ∃ r, w.db.find id = some r ∧
    TradeIntentStatus.reconciling.rank < r.status.rank
  nodup : w.conclusions.Nodup

namespace ClaimInv

variable {w w' : World}

theorem start (db : Db) : ClaimInv (World.start db) := by
  refine ⟨?_, ?_, List.nodup_nil⟩
  · intro k row h
    simp [World.start, Attempt.held] at h
  · intro id h
    simp [World.start] at h

theorem concluded_evolves (hw : ClaimInv w) (hev : Evolves w.db w'.db) :
    ∀ id ∈ w.conclusions, ∃ r, w'.db.find id = some r ∧
      TradeIntentStatus.reconciling.rank < r.status.rank := by
  intro id hid
  obtain ⟨r, hr, hrank⟩ := hw.concluded id hid
  obtain ⟨r', hr', hl⟩ := hev id r hr
  exact ⟨r', hr', lt_of_lt_of_le hrank hl.rank_le⟩

/-- What an attempt holds stays an earlier state of its row while claims are as they were. -/
theorem held_evolves (hw : ClaimInv w) (hev : Evolves w.db w'.db) (hclaimant : w'.claimant = w.claimant)
    {k : ℕ} {row : TradeIntentRow} (h : (w.attempts k).held = some row) :
    ∃ cur, w'.db.find row.id = some cur ∧ Later row cur ∧
      (cur.version = row.version → w'.claimant row.id = some k) := by
  obtain ⟨cur, hf, hl, hlast⟩ := hw.held k row h
  obtain ⟨cur', hf', hl'⟩ := hev row.id cur hf
  refine ⟨cur', hf', hl.trans hl', fun hv => ?_⟩
  rw [hclaimant]
  refine hlast ?_
  have := hl.version_le
  have := hl'.version_le
  omega

/-- Actions that neither claim nor conclude keep the invariant. -/
theorem quiet (hw : ClaimInv w) (hev : Evolves w.db w'.db) (hclaimant : w'.claimant = w.claimant)
    (hconclusions : w'.conclusions = w.conclusions)
    (hheld : ∀ k row, (w'.attempts k).held = some row → (w.attempts k).held = some row) :
    ClaimInv w' := by
  refine ⟨fun k row h => hw.held_evolves hev hclaimant (hheld k row h), ?_, ?_⟩
  · rw [hconclusions]
    exact hw.concluded_evolves hev
  · rw [hconclusions]
    exact hw.nodup

theorem claim (hw : ClaimInv w) (k : ℕ) (now : UnixMs) (id : IntentId) (retryMs : ℤ) :
    ClaimInv (w.act (.claim k now id retryMs)) := by
  have hev := World.evolves_act w (.claim k now id retryMs)
  obtain ⟨hcon, hother, ⟨hdb, hclaimant, hself⟩ | ⟨cur, hf, hs, hdb, hself, hclaimant⟩⟩ :=
    World.claim_effect w k now id retryMs
  · refine hw.quiet hev hclaimant hcon ?_
    intro i row h
    by_cases hi : i = k
    · subst hi
      rcases hself with heq | hnone
      · rw [show (w.act (.claim i now id retryMs)).attempts i = w.attempts i from heq] at h
        exact h
      · rw [show ((w.act (.claim i now id retryMs)).attempts i).held = none from hnone] at h
        simp at h
    · rw [show (w.act (.claim k now id retryMs)).attempts i = w.attempts i from hother i hi] at h
      exact h
  · have hid : cur.id = id := Db.find_id hf
    obtain ⟨hfind, _⟩ := find_put_self (w.act (.claim k now id retryMs)).db
      (claimed now cur) hf rfl (by rw [show (w.act (.claim k now id retryMs)).db = _ from hdb]; rfl)
    refine ⟨?_, ?_, ?_⟩
    · intro i row h
      by_cases hi : i = k
      · -- the claimant itself: it holds the row it just wrote
        subst hi
        rw [show (w.act (.claim i now id retryMs)).attempts i = _ from hself] at h
        simp only [Attempt.held, Option.some.injEq] at h
        subst h
        refine ⟨claimed now cur, ?_, Later.refl _, fun _ => ?_⟩
        · rw [show (claimed now cur).id = id from hid]
          exact hfind
        · rw [show (w.act (.claim i now id retryMs)).claimant = _ from hclaimant,
            show (claimed now cur).id = id from hid]
          exact Function.update_self ..
      · rw [show (w.act (.claim k now id retryMs)).attempts i = w.attempts i from hother i hi] at h
        obtain ⟨cur₀, hf₀, hl₀, hlast⟩ := hw.held i row h
        obtain ⟨cur₁, hf₁, hl₁⟩ := hev row.id cur₀ hf₀
        refine ⟨cur₁, hf₁, hl₀.trans hl₁, fun hv => ?_⟩
        by_cases hrow : row.id = id
        · -- an older claim of the same intent: the version moved past it
          rw [hrow, hf, Option.some.injEq] at hf₀
          subst hf₀
          rw [hrow, hfind, Option.some.injEq] at hf₁
          subst hf₁
          have hle := hl₀.version_le
          have hnew : (claimed now cur).version = cur.version + 1 := rfl
          omega
        · rw [show (w.act (.claim k now id retryMs)).claimant = _ from hclaimant,
            Function.update_of_ne hrow]
          refine hlast ?_
          have := hl₀.version_le
          have := hl₁.version_le
          omega
    · rw [show (w.act (.claim k now id retryMs)).conclusions = w.conclusions from hcon]
      exact hw.concluded_evolves hev
    · rw [show (w.act (.claim k now id retryMs)).conclusions = w.conclusions from hcon]
      exact hw.nodup

theorem conclude (hw : ClaimInv w) (k : ℕ) (now : UnixMs) : ClaimInv (w.act (.conclude k now)) := by
  have hev := World.evolves_act w (.conclude k now)
  obtain ⟨hclaimant, hatt, hcon⟩ := World.conclude_effect w k now
  have hheld : ∀ i row, ((w.act (.conclude k now)).attempts i).held = some row →
      (w.attempts i).held = some row := by
    intro i row h
    rcases hatt i with heq | hnone | hsame
    · rw [show (w.act (.conclude k now)).attempts i = w.attempts i from heq] at h
      exact h
    · rw [show ((w.act (.conclude k now)).attempts i).held = none from hnone] at h
      simp at h
    · rw [show ((w.act (.conclude k now)).attempts i).held = _ from hsame] at h
      exact h
  rcases hcon with ⟨_, hsame⟩ | ⟨row, hk, hconcluded, hnew⟩
  · exact hw.quiet hev hclaimant hsame hheld
  · obtain ⟨cur, r', hf, hs, _, hf', hstat, _⟩ := hconcluded.left
    refine ⟨fun i r h => hw.held_evolves hev hclaimant (hheld i r h), ?_, ?_⟩
    · intro id hid
      rw [show (w.act (.conclude k now)).conclusions = _ from hnew, List.mem_cons] at hid
      rcases hid with rfl | hid
      · refine ⟨r', hf', ?_⟩
        rcases hstat with h | h | h | h <;> rw [h] <;> decide
      · exact hw.concluded_evolves hev id hid
    · rw [show (w.act (.conclude k now)).conclusions = _ from hnew]
      refine List.nodup_cons.mpr ⟨fun hmem => ?_, hw.nodup⟩
      -- a concluded intent is past reconciling, and this one was reconciling
      obtain ⟨r, hr, hrank⟩ := hw.concluded _ hmem
      rw [hf, Option.some.injEq] at hr
      subst hr
      rw [hs] at hrank
      omega

/-- **Every action keeps the invariant.** -/
theorem act (hw : ClaimInv w) (a : Action) : ClaimInv (w.act a) := by
  by_cases ha : a.ofPass = true
  · cases a with
    | claim k now id retryMs => exact hw.claim k now id retryMs
    | conclude k now => exact hw.conclude k now
    | reconciled k result =>
      obtain ⟨_, hclaimant, hcon, hheld⟩ := World.reconciled_keeps w k result
      refine hw.quiet (World.evolves_act w _) hclaimant hcon ?_
      intro i row h
      rw [hheld] at h
      exact h
    | loseAttempt k =>
      exact hw.quiet (World.evolves_act w _) rfl rfl (fun i row h => World.loseAttempt_held w k i row h)
    | _ => simp [Action.ofPass] at ha
  · obtain ⟨hatt, hclaimant, hcon⟩ := World.act_keeps_attempts (w := w) (a := a) (by simpa using ha)
    refine hw.quiet (World.evolves_act w a) hclaimant hcon ?_
    intro i row h
    rw [hatt] at h
    exact h

theorem run (hw : ClaimInv w) (as : List Action) : ClaimInv (run World.act w as) :=
  run_induction hw (fun _ a h => h.act a) as

end ClaimInv

/-! ## The claims of reconciling intents -/

/-- The action commits the intent's move into `manual_review`. -/
def World.parks (w : World) (a : Action) (id : IntentId) : Prop :=
  ∃ r r', w.db.find id = some r ∧ r.status ≠ .manualReview ∧ (w.act a).db.find id = some r' ∧
    r'.status = .manualReview

/-- What holds of claims and conclusions in a world, and of every action from it. -/
structure ClaimsHold (w : World) : Prop where
  /-- a reconciling intent is concluded at most once -/
  once : ∀ id, w.conclusions.count id ≤ 1
  /-- an intent leaves `reconciling` by the recorded conclusion of its latest claimant -/
  by_claimant : ∀ a id r r', w.db.find id = some r → r.status = .reconciling →
    (w.act a).db.find id = some r' → r'.status ≠ .reconciling →
    (r'.status = .accepted ∨ r'.status = .settled ∨ r'.status = .rejected ∨
        r'.status = .manualReview) ∧
      (w.act a).conclusions = id :: w.conclusions ∧
      ∃ k now row, a = .conclude k now ∧ (w.attempts k).held = some row ∧ row.id = id ∧
        w.claimant id = some k
  /-- an outcome under an older claim changes nothing -/
  stale : ∀ k now row, (w.attempts k).held = some row → w.claimant row.id ≠ some k →
    (w.act (.conclude k now)).db = w.db
  /-- a pass that parks an intent halts its account in the same transaction … -/
  halts : ∀ a id, a.ofPass = true → w.parks a id → ∃ r account reason, w.db.find id = some r ∧
    w.db.brokerAccounts.find? r.brokerAccountId = some account ∧
      (w.act a).db.brokerAccounts = w.db.brokerAccounts.put (halted reason account)
  /-- … and touches no account otherwise -/
  halts_only : ∀ a, a.ofPass = true → (∀ id, ¬ w.parks a id) →
    (w.act a).db.brokerAccounts = w.db.brokerAccounts

section Claims

variable {w : World}

theorem same_row {id : IntentId} {db db' : Db} {r r' : TradeIntentRow} (hdb : db' = db)
    (hr : db.find id = some r) (hr' : db'.find id = some r') : r' = r := by
  rw [hdb, hr, Option.some.injEq] at hr'
  exact hr'.symm

theorem claim_keeps_status {k : ℕ} {now : UnixMs} {id id' : IntentId} {retryMs : ℤ} {r r' : TradeIntentRow}
    (hr : w.db.find id' = some r) (hr' : (w.act (.claim k now id retryMs)).db.find id' = some r') :
    r'.status = r.status := by
  obtain ⟨_, _, ⟨hdb, _, _⟩ | ⟨cur, hf, hs, hdb, _, _⟩⟩ := World.claim_effect w k now id retryMs
  · rw [same_row hdb hr hr']
  · obtain ⟨hself, hothers⟩ := find_put_self (w.act (.claim k now id retryMs)).db
      (claimed now cur) hf rfl (by rw [show (w.act (.claim k now id retryMs)).db = _ from hdb]; rfl)
    by_cases hid : id' = id
    · subst hid
      rw [hself, Option.some.injEq] at hr'
      rw [hf, Option.some.injEq] at hr
      subst hr hr'
      rfl
    · rw [hothers id' r hid hr, Option.some.injEq] at hr'
      rw [hr']

/-- An action of a pass that changes a row's status is its conclusion. -/
theorem concluded_of_moved {a : Action} (ha : a.ofPass = true) {id : IntentId} {r r' : TradeIntentRow}
    (hr : w.db.find id = some r) (hr' : (w.act a).db.find id = some r') (hne : r'.status ≠ r.status) :
    ∃ k now row, a = .conclude k now ∧ (w.attempts k).held = some row ∧ row.id = id ∧
      Concluded row w.db (w.act a).db ∧ (w.act a).conclusions = row.id :: w.conclusions := by
  cases a with
  | claim k now id' retryMs => exact absurd (claim_keeps_status hr hr') hne
  | reconciled k result =>
    rw [same_row (World.reconciled_keeps w k result).1 hr hr'] at hne
    exact absurd rfl hne
  | loseAttempt k =>
    have hdb : (w.act (.loseAttempt k)).db = w.db := rfl
    rw [same_row hdb hr hr'] at hne
    exact absurd rfl hne
  | conclude k now =>
    obtain ⟨_, _, ⟨hdb, _⟩ | ⟨row, hheld, hcon, hnew⟩⟩ := World.conclude_effect w k now
    · rw [same_row hdb hr hr'] at hne
      exact absurd rfl hne
    · refine ⟨k, now, row, rfl, hheld, ?_, hcon, hnew⟩
      by_contra hid
      have hkept := hcon.others id r (Ne.symm hid) hr
      rw [show (w.conclude k now).db.find id = some r' from hr', Option.some.injEq] at hkept
      exact hne (by rw [hkept])
  | _ => simp [Action.ofPass] at ha

theorem concluded_parks {row : TradeIntentRow} {a : Action} (hcon : Concluded row w.db (w.act a).db)
    (hnot : ¬ w.parks a row.id) : (w.act a).db.brokerAccounts = w.db.brokerAccounts := by
  obtain ⟨cur, r', hf, hs, _, hf', _, hkeep, _⟩ := hcon.left
  refine hkeep (fun hm => hnot ⟨cur, r', hf, ?_, hf', hm⟩)
  rw [hs]
  simp

theorem ClaimInv.claimsHold (hw : ClaimInv w) : ClaimsHold w := by
  refine ⟨fun id => List.nodup_iff_count_le_one.mp hw.nodup id, ?_, ?_, ?_, ?_⟩
  · intro a id r r' hr hs hr' hne
    by_cases ha : a.ofPass = true
    · obtain ⟨k, now, row, rfl, hheld, rfl, hcon, hnew⟩ :=
        concluded_of_moved ha hr hr' (by rw [hs]; exact hne)
      obtain ⟨cur, r₁, hf, _, hv, hf', hstat, _⟩ := hcon.left
      rw [hr', Option.some.injEq] at hf'
      subst hf'
      obtain ⟨cur', hf'', _, hlast⟩ := hw.held k row hheld
      rw [hf, Option.some.injEq] at hf''
      subst hf''
      exact ⟨hstat, hnew, k, now, row, rfl, hheld, rfl, hlast hv⟩
    · rw [World.act_frame_reconciling (by simpa using ha) hr hs, Option.some.injEq] at hr'
      exact absurd (hr' ▸ hs) hne
  · intro k now row hheld hne
    obtain ⟨_, _, ⟨hdb, _⟩ | ⟨row', hheld', hcon, _⟩⟩ := World.conclude_effect w k now
    · exact hdb
    · rw [hheld, Option.some.injEq] at hheld'
      subst hheld'
      obtain ⟨cur, _, hf, _, hv, _⟩ := hcon.left
      obtain ⟨cur', hf', _, hlast⟩ := hw.held k row hheld
      rw [hf, Option.some.injEq] at hf'
      subst hf'
      exact absurd (hlast hv) hne
  · rintro a id ha ⟨r, r', hr, hne, hr', hm⟩
    obtain ⟨k, now, row, rfl, hheld, rfl, hcon, _⟩ :=
      concluded_of_moved ha hr hr' (by rw [hm]; exact Ne.symm hne)
    obtain ⟨cur, r₁, hf, _, _, hf', _, _, hhalt⟩ := hcon.left
    rw [hr', Option.some.injEq] at hf'
    subst hf'
    obtain ⟨account, reason, hacc, hput⟩ := hhalt hm
    exact ⟨cur, account, reason, hf, hacc, hput⟩
  · intro a ha hnone
    cases a with
    | claim k now id retryMs =>
      obtain ⟨_, _, ⟨hdb, _, _⟩ | ⟨cur, _, _, hdb, _, _⟩⟩ := World.claim_effect w k now id retryMs
      · rw [show (w.act (.claim k now id retryMs)).db = w.db from hdb]
      · rw [show (w.act (.claim k now id retryMs)).db = _ from hdb]
        rfl
    | reconciled k result => rw [(World.reconciled_keeps w k result).1]
    | loseAttempt k => rfl
    | conclude k now =>
      obtain ⟨_, _, ⟨hdb, _⟩ | ⟨row, _, hcon, _⟩⟩ := World.conclude_effect w k now
      · rw [show (w.act (.conclude k now)).db = w.db from hdb]
      · exact concluded_parks hcon (hnone row.id)
    | _ => simp [Action.ofPass] at ha

end Claims

/-- **Reconciliation claims.**  In every world the processes can reach, from any database and by any
interleaving: one conclusion per reconciling intent, by the holder of its latest claim; an outcome under
an older claim changes nothing; and a pass halts an account iff it parks an intent of it. -/
theorem reconciliation_claims (db : Db) (as : List Action) :
    ClaimsHold (run World.act (World.start db) as) :=
  ((ClaimInv.start db).run as).claimsHold

/-- A lost order: unknown, reconciling, claimed twice; the older claim answers `not_found` first. -/
def reclaimedIntent : List Action :=
  [.transact (.creditStarPayment
    { telegramPaymentChargeId := "c", providerPaymentChargeId := none, packageCode := "p50", userId := 1
      currency := "XTR", totalAmount := 100, payerTelegramUserId := 42, paidAt := 0 }),
   .transact (.createTradeIntent 10 5
    { telegramUserId := 42, brokerAccountId := none, mode := .demo, assetId := 3, amount := ['1']
      action := .up, durationSec := 5, clientRequestId := "r" } none {}),
   .deliver 0 5, .take 0 20 1000, .submit 0, .answer 0 (.unknown .executorTimeout), .persist 0 30,
   .transact (.startReconciling 40 5 5),
   .claim 0 50 5 100, .claim 1 200 5 100, .reconciled 0 .notFound, .reconciled 1 .ambiguous]

theorem reconciliation_claims_reclaimed :
    ((run World.act (World.start oneUserDb) reclaimedIntent).act (.conclude 0 210)).db =
        (run World.act (World.start oneUserDb) reclaimedIntent).db ∧
      ((run World.act (World.start oneUserDb) (reclaimedIntent ++ [.conclude 0 210, .conclude 1 220])
        ).db.brokerAccounts.find? 7).map (·.tradingHalted) = some true := by
  refine ⟨?_, by decide⟩
  refine (reconciliation_claims oneUserDb reclaimedIntent).stale 0 210
    (((run World.act (World.start oneUserDb) reclaimedIntent).attempts 0).held.get (by decide)) ?_ ?_
  · exact (Option.some_get _).symm
  · decide

end Binarius
