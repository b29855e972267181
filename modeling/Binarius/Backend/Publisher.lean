import Mathlib.Tactic
import Binarius.Backend.Delivery

/-!
# Backend.Publisher — publisher passes among everything else that happens
(apps/backend/src/outbox/publisher.ts)

* `CoverInv`: the outbox covers the intents, the books balance, and a held row is the row as claimed.
* `exhausted_of_failed`: **a trading-intents row becomes failed only by the failed delivery that gives it
  up**.
* `no_stranded_intent`: both, over every run.
-/

namespace Binarius

open Lib

/-- The actions of a publisher that write. -/
def Action.delivers : Action → Bool
  | .published .. => true
  | .notPublished .. => true
  | _ => false

/-- The actions of a publisher. -/
def Action.ofPublisher : Action → Bool
  | .claimEvent .. => true
  | .published .. => true
  | .notPublished .. => true
  | .losePublisher .. => true
  | _ => false

namespace World

section Publisher

variable {w : World}

@[simp] theorem jobTx_claims {α : Type} (j : ℕ) (t : DbTx α) (next : α → Job) :
    (w.jobTx j t next).claims = w.claims := by
  unfold jobTx
  split <;> rfl

@[simp] theorem outcomeTx_claims (a : ℕ) (row : TradeIntentRow) (t : DbTx (Option TradeIntentRow)) :
    (w.outcomeTx a row t).claims = w.claims := by
  unfold outcomeTx
  split <;> rfl

theorem persist_claims (j : ℕ) (now : UnixMs) : (w.persist j now).claims = w.claims := by
  unfold persist
  split
  · unfold persistAccepted
    split <;> rfl
  · exact jobTx_claims _ _ _
  · exact jobTx_claims _ _ _
  · exact jobTx_claims _ _ _
  · rfl

theorem conclude_claims (a : ℕ) (now : UnixMs) : (w.conclude a now).claims = w.claims := by
  unfold conclude
  split <;> first | exact outcomeTx_claims _ _ _ | rfl

theorem claim_claims (a : ℕ) (now : UnixMs) (id : IntentId) (retryMs : ℤ) :
    (w.claim a now id retryMs).claims = w.claims := by
  unfold claim
  split
  · split <;> rfl
  · rfl

/-- Only a publisher touches what publishers hold. -/
theorem act_claims {a : Action} (ha : a.ofPublisher = false) : (w.act a).claims = w.claims := by
  cases a with
  | persist j now => exact persist_claims j now
  | conclude k now => exact conclude_claims k now
  | claim k now id retryMs => exact claim_claims k now id retryMs
  | claimEvent id status => simp [Action.ofPublisher] at ha
  | published id now => simp [Action.ofPublisher] at ha
  | notPublished id now maxAttempts => simp [Action.ofPublisher] at ha
  | losePublisher id => simp [Action.ofPublisher] at ha
  | rejectDemoOnly j now =>
    simp only [act]
    split
    · split
      · exact jobTx_claims _ _ _
      · rfl
    · rfl
  | deliver j id =>
    simp only [act]
    split <;> rfl
  | transact t =>
    simp only [act]
    split <;> rfl
  | loseJob j => rfl
  | loseAttempt k => rfl
  | surroundings s => rfl
  | _ =>
    simp only [act]
    split <;> first | exact jobTx_claims _ _ _ | rfl

/-- An action that delivers nothing commits at most one transaction, and it keeps the outbox but for what
it announces. -/
theorem txns_of_not_delivers {a : Action} (ha : a.delivers = false) :
    w.txns a = [] ∨ ∃ t, w.txns a = [t] ∧
      ∀ s, t = .elsewhere s → s.outboxEvents = w.db.outboxEvents := by
  cases a with
  | published id now => simp [Action.delivers] at ha
  | notPublished id now maxAttempts => simp [Action.delivers] at ha
  | surroundings s =>
    refine .inr ⟨_, rfl, ?_⟩
    rintro _ ⟨rfl⟩
    rfl
  | transact t =>
    by_cases ht : t.outside = true
    · refine .inr ⟨t, by simp [txns, ht], ?_⟩
      rintro s rfl
      simp [Txn.outside] at ht
    · exact .inl (by simp [txns, ht])
  | rejectDemoOnly j now =>
    simp only [txns]
    split
    · split
      · exact .inr ⟨_, rfl, by simp⟩
      · exact .inl rfl
    · exact .inl rfl
  | _ =>
    simp only [txns]
    first
      | exact .inl trivial
      | (split <;> first | exact .inl rfl | exact .inr ⟨_, rfl, by simp⟩)

theorem announces_act {a : Action} (ha : a.delivers = false) : Announces w.db (w.act a).db := by
  rw [act_db]
  rcases txns_of_not_delivers (w := w) ha with hnil | ⟨t, hone, hout⟩
  · rw [hnil]
    exact Announces.refl _
  · rw [hone]
    exact t.announces_commit hout

end Publisher

end World

/-- The outbox covers the intents, the books balance, and a row that is held is the row as claimed. -/
structure CoverInv (w : World) : Prop where
  covered : Covered w.db
  books : w.db.books.Inv
  held : ∀ k row, w.claims k = some row → w.db.outboxEvents.find? k = some row

/-- A trading-intents row is failed in the second state and was not in the first. -/
structure BecameFailed (db db' : Db) (id : IntentId) : Prop where
  failed : ∃ e', db'.event .tradingIntents id = some e' ∧ e'.status = .failed
  before : ∀ e, db.event .tradingIntents id = some e → e.status ≠ .failed

theorem BecameFailed.absurd_of_event {db db' : Db} {id : IntentId} (h : BecameFailed db db' id)
    (heq : db'.event .tradingIntents id = db.event .tradingIntents id) : False := by
  obtain ⟨e', he', hs⟩ := h.failed
  rw [heq] at he'
  exact h.before e' he' hs

namespace CoverInv

variable {w : World}

theorem key_of_held (hw : CoverInv w) {k : OutboxTopic × IntentId} {row : OutboxEventRow}
    (h : w.claims k = some row) : (row.topic, row.intentId) = k :=
  Table.key_of_find? (hw.held k row h)

theorem event_of_held (hw : CoverInv w) {k : OutboxTopic × IntentId} {row : OutboxEventRow}
    (h : w.claims k = some row) : w.db.event row.topic row.intentId = some row := by
  rw [Db.event, hw.key_of_held h]
  exact hw.held k row h

/-- Claims of other rows after a delivery. -/
theorem held_of_delivery {db' : Db} (hw : CoverInv w) (k : OutboxTopic × IntentId)
    (hothers : ∀ topic id, (topic, id) ≠ k → db'.event topic id = w.db.event topic id) :
    ∀ k' row, Function.update w.claims k none k' = some row → db'.outboxEvents.find? k' = some row := by
  rintro ⟨topic, id⟩ row h
  by_cases hk : (topic, id) = k
  · rw [hk, Function.update_self] at h
    simp at h
  · rw [Function.update_of_ne hk] at h
    exact (hothers topic id hk).trans (hw.held _ row h)

/-- What a publisher's answer from the queue does. -/
theorem published_effect (hw : CoverInv w) (k : OutboxTopic × IntentId) (now : UnixMs) :
    CoverInv (w.act (.published k now)) ∧
      ∀ id, ¬ BecameFailed w.db (w.act (.published k now)).db id := by
  have hbooks : (w.act (.published k now)).db.books.Inv := by
    rw [World.act_db]
    exact inv_commitAll _ hw.books
  have hsame : w.act (.published k now) = w → CoverInv (w.act (.published k now)) ∧
      ∀ id, ¬ BecameFailed w.db (w.act (.published k now)).db id := by
    intro h
    rw [h]
    exact ⟨hw, fun id hbecame => hbecame.absurd_of_event rfl⟩
  cases hclaim : w.claims k with
  | none => exact hsame (by simp only [World.act, hclaim])
  | some row =>
    by_cases hp : row.status = .pending
    · have hdb : (w.act (.published k now)).db = updateEvent k (publishedEvent now) w.db := by
        simp only [World.act, hclaim, if_pos hp]
        rfl
      have hclaims : (w.act (.published k now)).claims = Function.update w.claims k none := by
        simp only [World.act, hclaim, if_pos hp]
      have hkey : ∀ e, key (publishedEvent now e) = key e := fun _ => rfl
      refine ⟨⟨?_, hbooks, ?_⟩, ?_⟩
      · rw [hdb]
        exact hw.covered.updateEvent k hkey (by simp [publishedEvent])
      · rw [hclaims, hdb]
        refine hw.held_of_delivery k (fun topic id hne => ?_)
        rw [updateEvent_event w.db k hkey, if_neg (Ne.symm hne)]
      · intro id hbecame
        obtain ⟨e', he', hs⟩ := hbecame.failed
        rw [hdb, updateEvent_event w.db k hkey] at he'
        split at he'
        · obtain ⟨e, _, rfl⟩ := Option.map_eq_some_iff.mp he'
          simp [publishedEvent] at hs
        · exact hbecame.before e' he' hs
    · exact hsame (by simp only [World.act, hclaim, if_neg hp])

/-- What a failed delivery does. -/
theorem notPublished_effect (hw : CoverInv w) (k : OutboxTopic × IntentId) (now : UnixMs)
    (maxAttempts : ℕ) :
    CoverInv (w.act (.notPublished k now maxAttempts)) ∧
      ∀ id, BecameFailed w.db (w.act (.notPublished k now maxAttempts)).db id →
        k = (.tradingIntents, id) ∧ ∃ e, w.db.event .tradingIntents id = some e ∧
          GivesUp id e now maxAttempts w.db (w.act (.notPublished k now maxAttempts)).db := by
  have hbooks : (w.act (.notPublished k now maxAttempts)).db.books.Inv := by
    rw [World.act_db]
    exact inv_commitAll _ hw.books
  cases hclaim : w.claims k with
  | none =>
    have hsame : w.act (.notPublished k now maxAttempts) = w := by
      simp only [World.act, hclaim]
    rw [hsame]
    exact ⟨hw, fun id hbecame => (hbecame.absurd_of_event rfl).elim⟩
  | some row =>
    have hrow := hw.key_of_held hclaim
    have hdb : (w.act (.notPublished k now maxAttempts)).db =
        (recordDeliveryFailure now row (policyFor maxAttempts row.topic)).commit w.db := by
      simp only [World.act, hclaim]
      rfl
    have hclaims : (w.act (.notPublished k now maxAttempts)).claims =
        Function.update w.claims k none := by
      simp only [World.act, hclaim]
    obtain ⟨hcovered, hothers, hfailed⟩ := delivery_effect now maxAttempts
      hw.books (hw.event_of_held hclaim) hw.covered
    rw [← hdb] at hcovered hothers hfailed
    refine ⟨⟨hcovered, hbooks, ?_⟩, ?_⟩
    · rw [hclaims]
      exact hw.held_of_delivery k (fun topic id hne => hothers topic id (by rw [hrow]; exact hne))
    · intro id hbecame
      have hk : (OutboxTopic.tradingIntents, id) = (row.topic, row.intentId) := by
        by_contra hne
        exact hbecame.absurd_of_event (hothers _ _ hne)
      obtain ⟨htopic, hid⟩ := Prod.mk.injEq _ _ _ _ ▸ hk
      obtain ⟨e', he', hs⟩ := hbecame.failed
      rw [htopic, hid] at he'
      have hself : w.db.event .tradingIntents id = some row := by
        rw [htopic, hid]
        exact hw.event_of_held hclaim
      rcases hfailed e' he' hs with hold | ⟨_, hgive⟩
      · exact absurd hold (hbecame.before row hself)
      · refine ⟨hrow.symm.trans hk.symm, row, hself, ?_⟩
        rw [hid]
        exact hgive

theorem act (hw : CoverInv w) (a : Action) : CoverInv (w.act a) := by
  have hbooks : (w.act a).db.books.Inv := by
    rw [World.act_db]
    exact inv_commitAll _ hw.books
  have hquiet : a.delivers = false → (∀ k row, (w.act a).claims k = some row →
      w.claims k = some row ∨ w.db.outboxEvents.find? k = some row) → CoverInv (w.act a) := by
    intro ha hclaims
    have hann := World.announces_act (w := w) ha
    refine ⟨hann.covered hw.covered, hbooks, ?_⟩
    rintro ⟨topic, id⟩ row h
    rcases hclaims _ row h with h' | h'
    · exact hann.kept topic id row (hw.held _ row h')
    · exact hann.kept topic id row h'
  cases a with
  | published k now => exact (hw.published_effect k now).1
  | notPublished k now maxAttempts => exact (hw.notPublished_effect k now maxAttempts).1
  | claimEvent k status =>
    refine hquiet rfl (fun k' row h => ?_)
    cases hclaim : w.claims k with
    | some _ =>
      simp only [World.act, hclaim] at h
      exact .inl h
    | none =>
      simp only [World.act, hclaim] at h
      by_cases hk : k' = k
      · subst hk
        rw [Function.update_self, claimOutboxRow, Option.filter_eq_some_iff] at h
        exact .inr h.1
      · rw [Function.update_of_ne hk] at h
        exact .inl h
  | losePublisher k =>
    refine hquiet rfl (fun k' row h => ?_)
    by_cases hk : k' = k
    · subst hk
      simp [World.act] at h
    · simp only [World.act] at h
      rw [Function.update_of_ne hk] at h
      exact .inl h
  | _ =>
    refine hquiet rfl (fun k' row h => .inl ?_)
    rw [World.act_claims rfl] at h
    exact h

theorem run (hw : CoverInv w) (as : List Action) : CoverInv (run World.act w as) :=
  run_induction hw (fun _ a h => h.act a) as

/-- **Only a failed delivery makes a trading-intents row failed**, in the transaction that gives it up. -/
theorem exhausted_of_failed (hw : CoverInv w) {a : Action} {id : IntentId}
    (h : BecameFailed w.db (w.act a).db id) :
    ∃ e now maxAttempts, a = .notPublished (.tradingIntents, id) now maxAttempts ∧
      w.db.event .tradingIntents id = some e ∧ GivesUp id e now maxAttempts w.db (w.act a).db := by
  by_cases ha : a.delivers = true
  · cases a with
    | published k now => exact absurd h ((hw.published_effect k now).2 id)
    | notPublished k now maxAttempts =>
      obtain ⟨rfl, e, he, hgive⟩ := (hw.notPublished_effect k now maxAttempts).2 id h
      exact ⟨e, now, maxAttempts, rfl, he, hgive⟩
    | _ => simp [Action.delivers] at ha
  · obtain ⟨e', he', hs⟩ := h.failed
    rcases (World.announces_act (by simpa using ha)).fresh _ _ _ he' with hold | ⟨_, hp⟩
    · exact absurd hs (h.before e' hold)
    · rw [hp] at hs
      simp at hs

end CoverInv

/-- No intent is stranded, and none will be by the next action. -/
structure NothingStranded (w : World) : Prop where
  covered : Covered w.db
  exhausted : ∀ a id, BecameFailed w.db (w.act a).db id →
    ∃ e now maxAttempts, a = .notPublished (.tradingIntents, id) now maxAttempts ∧
      w.db.event .tradingIntents id = some e ∧ GivesUp id e now maxAttempts w.db (w.act a).db

theorem coverInv_start {db : Db} (h : db.StartsEmpty) (hout : db.outboxEvents.rows = []) :
    CoverInv (World.start db) := by
  have hfind : ∀ id, db.find id = none := by
    intro id
    simp [Db.find, Table.find?, h.intents]
  have hevent : ∀ topic id, db.event topic id = none := by
    intro topic id
    simp [Db.event, Table.find?, hout]
  refine ⟨⟨?_, ?_, ?_⟩, inv_of_startsEmpty h, fun k row hrow => by simp [World.start] at hrow⟩
  · intro id r hr
    simp [World.start, hfind] at hr
  · intro id r hr
    simp [World.start, hfind] at hr
  · intro id e he
    simp [World.start, hevent] at he

/-- **No stranded intent.**  In every world the processes can reach from users with nothing: a queued
intent has a trading-intents row and an unknown one a reconciliation row, pending or published; no
reconciliation row is failed; and a trading-intents row becomes failed only in the transaction that also
rejects its still queued intent and releases the reserve, or leaves the intent that moved on. -/
theorem no_stranded_intent {db : Db} (h : db.StartsEmpty) (hout : db.outboxEvents.rows = [])
    (as : List Action) : NothingStranded (run World.act (World.start db) as) := by
  have hw := (coverInv_start h hout).run as
  exact ⟨hw.covered, fun _ _ hbecame => hw.exhausted_of_failed hbecame⟩

/-- A queue that never takes the job: the second failed delivery is the last. -/
def lostJob : List Action :=
  [.transact (.creditStarPayment
    { telegramPaymentChargeId := "c", providerPaymentChargeId := none, packageCode := "p50", userId := 1
      currency := "XTR", totalAmount := 100, payerTelegramUserId := 42, paidAt := 0 }),
   .transact (.createTradeIntent 10 5
    { telegramUserId := 42, brokerAccountId := none, mode := .demo, assetId := 3, amount := ['1']
      action := .up, durationSec := 5, clientRequestId := "r" } none {}),
   .claimEvent (.tradingIntents, 5) .pending, .notPublished (.tradingIntents, 5) 20 2,
   .claimEvent (.tradingIntents, 5) .pending]

theorem no_stranded_intent_lostJob :
    NothingStranded (run World.act (World.start oneUserDb) lostJob) ∧
      ((run World.act (World.start oneUserDb) (lostJob ++ [.notPublished (.tradingIntents, 5) 30 2])).db.find
        5).map (fun r => (r.status, r.lastError)) = some (.rejected, some .publishFailed) :=
  ⟨no_stranded_intent ⟨by decide, rfl, rfl⟩ rfl lostJob, by decide⟩

end Binarius
