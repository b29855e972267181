import Mathlib.Tactic
import Binarius.Db.StarPayments

/-!
# Db.StarPaymentRuns — every charge credited once and refunded once

* `StarChange`: what a commit may have done under its locks, and `StarChange.guarantee`.
* `credit_change`, `refund_change`, `post_change`: the three writers of a user's counters.
* `starSystem_sound`: every transaction, among any others, does what `StarCall.Post` says.
* `creditPost_serial`, `refundPost_serial`: **a commit that writes is the transaction run alone.**
* `star_payments_once`: **the accounting over every interleaving.**
-/

namespace Binarius

open Lib Protocol

/-! ## What a commit did -/

/-- A commit writes under its locks: counters within bounds, a charge with its rows. -/
structure StarChange (held : List (StarLock × LockMode)) (db db' : Db) : Prop where
  users : ∀ id, db'.users.find? id = db.users.find? id ∨
    ((.user id, .exclusive) ∈ held ∧ ∃ user', db'.users.find? id = some user' ∧ user'.CountersOk ∧
      ∀ user, db.users.find? id = some user → user'.telegramUserId = user.telegramUserId)
  charges : ∀ c, (db'.starPayments.find? c = db.starPayments.find? c ∧ db'.starRows c = db.starRows c) ∨
    ((.charge c, .exclusive) ∈ held ∧ ∃ p', db'.starPayments.find? c = some p' ∧
      ChargeOk (some p') (db'.starRows c) ∧ (∃ user, db.users.find? p'.userId = some user) ∧
      ∀ p, db.starPayments.find? c = some p → StarPaymentMoves p p')
  ledger : ∃ rows, db'.tokenLedger = rows ++ db.tokenLedger ∧
    ∀ row ∈ rows, row.kind = .purchase → ∃ c, row.starPaymentId = some c

section Change

variable {held : List (StarLock × LockMode)} {db db' : Db}

theorem StarChange.rely (h : StarChange held db db') : StarRely db db' := by
  refine ⟨fun id user hu => ?_, fun c p hp => ?_, ?_⟩
  · rcases h.users id with hsame | ⟨_, user', hu', _, ht⟩
    · exact ⟨user, hsame.trans hu, rfl⟩
    · exact ⟨user', hu', ht user hu⟩
  · rcases h.charges c with ⟨hsame, _⟩ | ⟨_, p', hp', _, _, hm⟩
    · exact ⟨p, hsame.trans hp, .stay⟩
    · exact ⟨p', hp', hm p hp⟩
  · obtain ⟨rows, hrows, _⟩ := h.ledger
    exact ⟨rows, hrows.symm⟩

theorem StarChange.inv (h : StarChange held db db') (hinv : StarInv db) : StarInv db' := by
  refine ⟨fun id user hu => ?_, fun c p hp => ?_, fun c => ?_, fun row hrow hkind => ?_⟩
  · rcases h.users id with hsame | ⟨_, user', hu', hok, _⟩
    · exact hinv.counters id user (hsame.symm.trans hu)
    · obtain rfl := Option.some.inj (hu.symm.trans hu')
      exact hok
  · have howner : ∃ user, db.users.find? p.userId = some user := by
      rcases h.charges c with ⟨hsame, _⟩ | ⟨_, p', hp', _, howner, _⟩
      · exact hinv.owners c p (hsame.symm.trans hp)
      · obtain rfl := Option.some.inj (hp.symm.trans hp')
        exact howner
    obtain ⟨user, hu⟩ := howner
    obtain ⟨user', hu', _⟩ := h.rely.users p.userId user hu
    exact ⟨user', hu'⟩
  · rcases h.charges c with ⟨hpay, hrows⟩ | ⟨_, p', hp', hok, _, _⟩
    · rw [hpay, hrows]
      exact hinv.charges c
    · rw [hp']
      exact hok
  · obtain ⟨rows, hrows, hnew⟩ := h.ledger
    rw [hrows] at hrow
    rcases List.mem_append.mp hrow with hrow | hrow
    · exact hnew row hrow hkind
    · exact hinv.purchases row hrow hkind

/-- **A change under its locks is what the others rely on.** -/
theorem StarChange.guarantee (h : StarChange held db db') (hinv : StarInv db) :
    starProtocol.Guarantee held db db' := by
  have hsame : ∀ l : StarLock, (l, LockMode.exclusive) ∉ held → starSame l db db' := by
    intro l hl
    cases l with
    | user id =>
      rcases h.users id with hsame | ⟨hheld, _⟩
      · exact hsame
      · exact absurd hheld hl
    | charge c =>
      rcases h.charges c with hsame | ⟨hheld, _⟩
      · exact hsame
      · exact absurd hheld hl
    | ledger c kind => trivial
  exact ⟨h.inv hinv, h.rely, fun l hl => hsame l (hl .exclusive), fun l hl => hsame l hl⟩

theorem starRefl (h : StarInv db) : starProtocol.Guarantee held db db := Guarantee.refl h

/-- The counters after a row that keeps them within bounds. -/
theorem users_of_moveUser (db : Db) (row : TokenLedgerRow) {user : UserRow}
    (hu : db.users.find? row.userId = some user) (hok : (user.posted row).CountersOk)
    (hheld : (.user row.userId, .exclusive) ∈ held) (id : UserId) :
    (db.moveUser row).users.find? id = db.users.find? id ∨
      ((.user id, .exclusive) ∈ held ∧ ∃ user', (db.moveUser row).users.find? id = some user' ∧
        user'.CountersOk ∧ ∀ u, db.users.find? id = some u → user'.telegramUserId = u.telegramUserId) := by
  rw [Db.moveUser_find? hu]
  by_cases hid : row.userId = id
  · rw [if_pos hid]
    subst hid
    refine .inr ⟨hheld, _, rfl, hok, fun u hu' => ?_⟩
    rw [hu] at hu'
    obtain rfl := Option.some.inj hu'
    rfl
  · rw [if_neg hid]
    exact .inl rfl

/-- A payment recorded under a charge that had none, with the ledger rows it brings. -/
theorem charges_of_insert (row : StarPaymentRow) (rows : List TokenLedgerRow) {user : UserRow}
    (hinv : StarInv db) (hnone : db.starPayments.find? row.telegramPaymentChargeId = none)
    (hpay : ∀ c, db'.starPayments.find? c =
      if row.telegramPaymentChargeId = c then some row else db.starPayments.find? c)
    (hledger : db'.tokenLedger = rows ++ db.tokenLedger)
    (hrows : ∀ r ∈ rows, r.starPaymentId = some row.telegramPaymentChargeId)
    (hok : ChargeOk (some row) rows) (hu : db.users.find? row.userId = some user)
    (hheld : (.charge row.telegramPaymentChargeId, .exclusive) ∈ held) (c : String) :
    (db'.starPayments.find? c = db.starPayments.find? c ∧ db'.starRows c = db.starRows c) ∨
      ((.charge c, .exclusive) ∈ held ∧ ∃ p', db'.starPayments.find? c = some p' ∧
        ChargeOk (some p') (db'.starRows c) ∧ (∃ user, db.users.find? p'.userId = some user) ∧
        ∀ p, db.starPayments.find? c = some p → StarPaymentMoves p p') := by
  have hnew : db'.starRows c = rows.filter (fun r => r.starPaymentId = some c) ++ db.starRows c := by
    unfold Db.starRows
    rw [hledger, List.filter_append]
  by_cases hc : row.telegramPaymentChargeId = c
  · subst hc
    have hold : db.starRows row.telegramPaymentChargeId = [] := by
      have h := hinv.charges row.telegramPaymentChargeId
      rw [hnone] at h
      exact h.rows_of_none
    have hall : rows.filter (fun r => r.starPaymentId = some row.telegramPaymentChargeId) = rows := by
      rw [List.filter_eq_self]
      intro r hr
      exact decide_eq_true (hrows r hr)
    rw [hold, List.append_nil, hall] at hnew
    refine .inr ⟨hheld, row, ?_, ?_, ⟨user, hu⟩, fun p hp => ?_⟩
    · rw [hpay, if_pos rfl]
    · rw [hnew]
      exact hok
    · rw [hnone] at hp
      exact nomatch hp
  · have hnil : rows.filter (fun r => r.starPaymentId = some c) = [] := by
      rw [List.filter_eq_nil_iff]
      intro r hr h
      rw [hrows r hr, decide_eq_true_eq] at h
      exact hc (Option.some.inj h)
    left
    rw [hpay, if_neg hc, hnew, hnil]
    exact ⟨rfl, rfl⟩

theorem held_change {payment : StarPaymentInput} {verdict : Verdict} {user : UserRow} (hinv : StarInv db)
    (hu : db.users.find? payment.userId = some user)
    (hnone : db.starPayments.find? payment.telegramPaymentChargeId = none) (hheld : verdict.status = .held)
    (hlock : (.charge payment.telegramPaymentChargeId, .exclusive) ∈ held) :
    StarChange held db (db.insertPayment (starPaymentRow payment verdict)) where
  users := fun id => .inl (by rw [Db.insertPayment_users])
  charges := charges_of_insert (starPaymentRow payment verdict) [] hinv hnone (Db.insertPayment_find? hnone)
    (Db.insertPayment_tokenLedger _) (fun r hr => nomatch hr) (.held hheld) hu hlock
  ledger := ⟨[], Db.insertPayment_tokenLedger _, fun r hr => nomatch hr⟩

/-- **A credit**: the payment, its ledger row and the balance. -/
theorem credit_change {payment : StarPaymentInput} {tokens : ℤ} {user : UserRow} (hinv : StarInv db)
    (hu : db.users.find? payment.userId = some user)
    (hnone : db.starPayments.find? payment.telegramPaymentChargeId = none) (hpos : 0 < tokens)
    (hlock : (.charge payment.telegramPaymentChargeId, .exclusive) ∈ held)
    (hlockUser : (.user payment.userId, .exclusive) ∈ held) :
    StarChange held db (((db.insertPayment (starPaymentRow payment (.credit tokens))).appendLedger
      (purchaseRow payment tokens)).moveUser (purchaseRow payment tokens)) := by
  have hok : (user.posted (purchaseRow payment tokens)).CountersOk := by
    obtain ⟨h0, hle⟩ := hinv.counters _ _ hu
    simp only [UserRow.posted, purchaseRow, UserRow.CountersOk]
    omega
  refine ⟨fun id => ?_, ?_, ?_⟩
  · have h := users_of_moveUser ((db.insertPayment (starPaymentRow payment (.credit tokens))).appendLedger
      (purchaseRow payment tokens)) (purchaseRow payment tokens) (by simpa [purchaseRow] using hu) hok
      hlockUser id
    rw [Db.appendLedger_users, Db.insertPayment_users] at h
    exact h
  · refine charges_of_insert (starPaymentRow payment (.credit tokens)) [purchaseRow payment tokens] hinv
      hnone (fun c => ?_) ?_ ?_ (.paid rfl hpos rfl) hu hlock
    · rw [Db.moveUser_starPayments, Db.appendLedger_starPayments]
      exact Db.insertPayment_find? hnone c
    · simp
    · intro r hr
      rw [List.mem_singleton] at hr
      subst hr
      rfl
  · refine ⟨[purchaseRow payment tokens], by simp, fun r hr _ => ?_⟩
    rw [List.mem_singleton] at hr
    subst hr
    exact ⟨_, rfl⟩

theorem post_change {row : TokenLedgerRow} {user : UserRow} (hu : db.users.find? row.userId = some user)
    (hok : (user.posted row).CountersOk) (hnone : row.starPaymentId = none) (hkind : row.kind ≠ .purchase)
    (hlock : (.user row.userId, .exclusive) ∈ held) :
    StarChange held db ((db.appendLedger row).moveUser row) := by
  refine ⟨fun id => ?_, fun c => .inl ⟨?_, ?_⟩, ⟨[row], by simp, fun r hr h => ?_⟩⟩
  · exact users_of_moveUser (db.appendLedger row) row hu hok hlock id
  · rw [Db.moveUser_starPayments, Db.appendLedger_starPayments]
  · rw [Db.starRows_cons (show ((db.appendLedger row).moveUser row).tokenLedger = row :: db.tokenLedger by simp), hnone, if_neg (by simp)]
  · rw [List.mem_singleton] at hr
    subst hr
    exact absurd h hkind

theorem addUser_change {row : UserRow} (hnone : db.users.find? row.id = none) (hok : row.CountersOk)
    (hlock : (.user row.id, .exclusive) ∈ held) : StarChange held db (db.insertUser row) := by
  refine ⟨fun id => ?_, fun c => .inl ⟨?_, ?_⟩, ⟨[], by simp, fun r hr => nomatch hr⟩⟩
  · rw [Db.insertUser_find? hnone]
    by_cases hid : row.id = id
    · rw [if_pos hid]
      subst hid
      refine .inr ⟨hlock, row, rfl, hok, fun user hu => ?_⟩
      exact nomatch hnone.symm.trans hu
    · rw [if_neg hid]
      exact .inl rfl
  · rw [Db.insertUser_starPayments]
  · exact Db.starRows_of_tokenLedger (Db.insertUser_tokenLedger row) c

/-! ### The refund -/

/-- The tokens a payment has credited. -/
def StarPaymentRow.credited (payment : StarPaymentRow) : ℤ :=
  if payment.status = .paid then payment.tokens.getD 0 else 0

/-- **What a refund takes**: no more than was credited, and nothing of the reserve. -/
theorem refundTaken_bounds {payment : StarPaymentRow} {user : UserRow} (hcredited : 0 ≤ payment.credited)
    (hok : user.CountersOk) :
    0 ≤ refundTaken payment user ∧ refundTaken payment user ≤ payment.credited ∧
      refundTaken payment user ≤ user.tokenBalance - user.tokenReserved := by
  obtain ⟨h0, hle⟩ := hok
  have hdef : refundTaken payment user =
      if payment.credited < user.tokenBalance - user.tokenReserved then payment.credited
      else user.tokenBalance - user.tokenReserved := rfl
  rw [hdef]
  split <;> omega

theorem credited_nonneg {payment : StarPaymentRow} {rows : List TokenLedgerRow}
    (h : ChargeOk (some payment) rows) : 0 ≤ payment.credited := by
  unfold StarPaymentRow.credited
  split
  · rename_i hpaid
    obtain ⟨tokens, hpos, htokens, _⟩ := h.rows_of_paid hpaid
    rw [htokens]
    exact le_of_lt hpos
  · exact le_refl 0

/-- The rows of a charge after its refund. -/
theorem chargeOk_refunded {payment : StarPaymentRow} {rows : List TokenLedgerRow} {taken : ℤ}
    (h : ChargeOk (some payment) rows) (hstatus : payment.status = .paid ∨ payment.status = .held)
    (hle : taken ≤ payment.credited) (now : UnixMs) :
    ChargeOk (some (refundedPayment now payment))
      ((if 0 < taken then [refundRow payment taken] else []) ++ rows) := by
  unfold StarPaymentRow.credited at hle
  rcases hstatus with hpaid | hheld
  · obtain ⟨tokens, hpos, htokens, rfl⟩ := h.rows_of_paid hpaid
    rw [if_pos hpaid, htokens] at hle
    split
    · rename_i htaken
      exact ChargeOk.taken (p := refundedPayment now payment) rfl htaken hle
    · exact ChargeOk.spent (p := refundedPayment now payment) rfl hpos
  · obtain rfl := h.rows_of_held hheld
    rw [if_neg (by simp [hheld])] at hle
    rw [if_neg (not_lt.mpr hle)]
    exact .returned rfl

theorem taking_users {payment : StarPaymentRow} {user : UserRow} {taken : ℤ}
    (hu : db.users.find? payment.userId = some user) (hok : user.CountersOk)
    (hfree : taken ≤ user.tokenBalance - user.tokenReserved)
    (hlock : (.user payment.userId, .exclusive) ∈ held) (id : UserId) :
    (db.taking payment taken).users.find? id = db.users.find? id ∨
      ((.user id, .exclusive) ∈ held ∧ ∃ user', (db.taking payment taken).users.find? id = some user' ∧
        user'.CountersOk ∧ ∀ u, db.users.find? id = some u → user'.telegramUserId = u.telegramUserId) := by
  unfold Db.taking
  split
  · refine users_of_moveUser (db.appendLedger (refundRow payment taken)) (refundRow payment taken) hu ?_ hlock id
    obtain ⟨h0, hle⟩ := hok
    simp only [UserRow.posted, refundRow, UserRow.CountersOk]
    omega
  · exact .inl rfl

/-- **A refund**: what it takes, with its ledger row, and the payment's status. -/
theorem refund_change {payment : StarPaymentRow} {user : UserRow} {c : String} (hinv : StarInv db)
    (hp : db.starPayments.find? c = some payment) (hu : db.users.find? payment.userId = some user)
    (hstatus : payment.status = .paid ∨ payment.status = .held) (now : UnixMs)
    (hlock : (.charge c, .exclusive) ∈ held) (hlockUser : (.user payment.userId, .exclusive) ∈ held) :
    StarChange held db ((db.taking payment (refundTaken payment user)).refundPayment now c) := by
  have hc : payment.telegramPaymentChargeId = c := Table.key_of_find? hp
  have hcharge := hinv.charges c
  rw [hp] at hcharge
  obtain ⟨h0, hle, hfree⟩ := refundTaken_bounds (credited_nonneg hcharge) (hinv.counters _ _ hu)
  have hledger : ((db.taking payment (refundTaken payment user)).refundPayment now c).tokenLedger =
      (if 0 < refundTaken payment user then [refundRow payment (refundTaken payment user)] else [])
        ++ db.tokenLedger := by
    rw [Db.refundPayment_tokenLedger, Db.taking_tokenLedger]
  have hpay : ∀ c', ((db.taking payment (refundTaken payment user)).refundPayment now c).starPayments.find? c' =
      if c = c' then some (refundedPayment now payment) else db.starPayments.find? c' := by
    intro c'
    rw [Db.refundPayment_find? (by rw [Db.taking_starPayments]; exact hp), Db.taking_starPayments]
  have hrows : ∀ r ∈ (if 0 < refundTaken payment user then [refundRow payment (refundTaken payment user)]
      else []), r = refundRow payment (refundTaken payment user) := by
    intro r hr
    split at hr
    · exact List.mem_singleton.mp hr
    · exact absurd hr List.not_mem_nil
  refine ⟨fun id => ?_, fun c' => ?_, ⟨_, hledger, fun r hr h => ?_⟩⟩
  · rw [Db.refundPayment_users]
    exact taking_users hu (hinv.counters _ _ hu) hfree hlockUser id
  · rw [hpay]
    have hsplit : ((db.taking payment (refundTaken payment user)).refundPayment now c).starRows c' =
        (if 0 < refundTaken payment user then [refundRow payment (refundTaken payment user)] else []).filter
          (fun r => r.starPaymentId = some c') ++ db.starRows c' := by
      unfold Db.starRows
      rw [hledger, List.filter_append]
    by_cases hcc : c = c'
    · subst hcc
      rw [if_pos rfl]
      refine .inr ⟨hlock, _, rfl, ?_, ⟨user, hu⟩, fun p hp' => ?_⟩
      · rw [hsplit, List.filter_eq_self.mpr (fun r hr => by rw [hrows r hr]; simp [refundRow, hc])]
        exact chargeOk_refunded hcharge hstatus hle now
      · rw [hp] at hp'
        obtain rfl := Option.some.inj hp'
        exact .refunded hstatus now
    · rw [if_neg hcc, hsplit, List.filter_eq_nil_iff.mpr (fun r hr => by
        rw [hrows r hr]
        simp [refundRow, hc, hcc])]
      exact .inl ⟨rfl, rfl⟩
  · rw [hrows r hr] at h
    cases h

end Change

/-! ## The transactions among others -/

/-- What a credit's commit did, from the store it committed to. -/
def CreditPost (payment : StarPaymentInput) (s s' : Db) : StarPaymentCredit → Prop
  | .credited tokens balance => ∃ user, s.users.find? payment.userId = some user ∧
    s.starPayments.find? payment.telegramPaymentChargeId = none ∧
    verdictOf payment user.telegramUserId = .credit tokens ∧ balance = user.tokenBalance + tokens ∧
    s' = ((s.insertPayment (starPaymentRow payment (.credit tokens))).appendLedger
      (purchaseRow payment tokens)).moveUser (purchaseRow payment tokens)
  | .held reason => ∃ user tokens, s.users.find? payment.userId = some user ∧
    s.starPayments.find? payment.telegramPaymentChargeId = none ∧
    verdictOf payment user.telegramUserId = .hold reason tokens ∧
    s' = s.insertPayment (starPaymentRow payment (.hold reason tokens))
  | .alreadyRecorded _ _ _ => s' = s
  | .userUnknown => s' = s

/-- What a refund's commit did. -/
def RefundPost (now : UnixMs) (input : StarRefundInput) (s s' : Db) : StarRefundRecord → Prop
  | .refunded userId payer packageCode totalAmount fromStatus taken notRecovered balance =>
    ∃ payment user, s.starPayments.find? input.telegramPaymentChargeId = some payment ∧
      s.users.find? payment.userId = some user ∧ (payment.status = .paid ∨ payment.status = .held) ∧
      input.receiverTelegramUserId.any (· ≠ payment.payerTelegramUserId) = false ∧
      userId = payment.userId ∧ payer = payment.payerTelegramUserId ∧ packageCode = payment.packageCode ∧
      totalAmount = payment.totalAmount ∧ fromStatus = payment.status ∧ taken = refundTaken payment user ∧
      notRecovered = payment.credited - taken ∧ balance = user.tokenBalance - taken ∧
      s' = (s.taking payment taken).refundPayment now input.telegramPaymentChargeId
  | .alreadyRecorded _ => s' = s
  | .receiverMismatch => s' = s
  | .notFound => s' = s

def StarCall.Post : StarCall → Db → Db → Db → StarAnswer → Prop
  | .creditStarPayment payment, _, s, s', .credit answer => CreditPost payment s s' answer
  | .recordStarRefund now input, _, s, s', .refund answer => RefundPost now input s s' answer
  | .postLedger row, _, s, s', .posted => row.starPaymentId = none ∧ row.kind ≠ .purchase ∧
    s' = (s.appendLedger row).moveUser row
  | .postLedger _, _, s, s', .refused => s' = s
  | .addUser _ _, _, s, s', .added => s'.tokenLedger = s.tokenLedger ∧ s'.starPayments = s.starPayments
  | _, _, _, _, _ => False

section Sound

variable {held : List (StarLock × LockMode)} {writes : Db → Db} {s : Db}

theorem wp_insertStarRow {c : String} {row : TokenLedgerRow}
    {Q : Unit → List (StarLock × LockMode) → (Db → Db) → Db → Prop}
    (h : ∀ s', starProtocol.Env held s s' →
      Q () ((.ledger c row.kind, .exclusive) :: held) ((fun db => db.appendLedger row) ∘ writes) s') :
    starProtocol.wp (StarTx.insertStarRow c row) Q held writes s := by
  unfold StarTx.insertStarRow
  rw [wp_monad_bind]
  refine wp_change (fun s' _ _ => trivial) (fun s' henv _ => ?_)
  exact h s' henv

/-- The balance the statement answers is the one its own lock protects. -/
theorem wp_updateBalance {row : TokenLedgerRow} {guard : UserRow → Bool}
    {Q : Option ℤ → List (StarLock × LockMode) → (Db → Db) → Db → Prop}
    (hwrites : ∀ s, (writes s).users = s.users) (hnone : ∀ held writes s, Q none held writes s)
    (hsome : ∀ s' user, starProtocol.Env held s s' → s'.users.find? row.userId = some user →
      Q (some (user.tokenBalance + row.balanceDelta)) ((.user row.userId, .exclusive) :: held)
        ((fun db => db.moveUser row) ∘ writes) s') :
    starProtocol.wp (StarTx.updateBalance row guard) Q held writes s := by
  unfold StarTx.updateBalance
  rw [wp_monad_bind]
  refine wp_change (fun s' _ _ => hnone _ _ _) (fun s₁ henv₁ hguard s₂ henv₂ => ?_)
  rw [hwrites] at hguard
  cases hu : s₁.users.find? row.userId with
  | none =>
    rw [hu] at hguard
    exact nomatch hguard
  | some user =>
    have hstill : s₂.users.find? row.userId = some user := by
      have hsame : starSame (.user row.userId) s₁ s₂ := henv₂.head
      exact hsame.trans hu
    have hafter : ((writes s₂).moveUser row).users.find? row.userId = some (user.posted row) := by
      rw [Db.moveUser_find? (by rw [hwrites]; exact hstill), if_pos rfl]
    show Q ((((writes s₂).moveUser row).users.find? row.userId).map (·.tokenBalance)) _ _ s₂
    rw [hafter]
    exact hsome s₂ user (henv₁.trans henv₂.tail) hstill

/-- **A credit among others.** -/
theorem wp_credit (payment : StarPaymentInput) :
    starProtocol.wp (StarTx.creditStarPayment payment) (starProtocol.Commits (CreditPost payment)) [] id s := by
  unfold StarTx.creditStarPayment
  rw [wp_monad_bind]
  refine wp_selectFor (fun s₁ henv₁ _ s₂ henv₂ => ⟨starRefl henv₂.inv, rfl⟩) (fun s₁ user henv₁ hu => ?_)
  simp only [wp_monad_bind]
  refine wp_change (fun s₂ henv₂ hconflict => ?_) (fun s₂ henv₂ hfree => ?_)
  · -- recorded before: the stored row is read, and nothing is written
    simp only [Bool.false_eq_true, if_false, wp_monad_bind, wp_select]
    intro s₃ henv₃
    split
    · exact fun s₄ henv₄ => ⟨starRefl henv₄.inv, rfl⟩
    · trivial
  · -- the first insert of the charge: the user and the charge stand still to the commit
    have huser : ∀ s', starProtocol.Env [(.charge payment.telegramPaymentChargeId, .exclusive),
        (.user payment.userId, .exclusive)] s₂ s' → s'.users.find? payment.userId = some user := by
      intro s' henv
      have hsame : starSame (.user payment.userId) s₁ s' := (henv₂.trans henv.tail).head
      exact hsame.trans hu
    have hnone : ∀ s', starProtocol.Env [(.charge payment.telegramPaymentChargeId, .exclusive),
        (.user payment.userId, .exclusive)] s₂ s' →
        s'.starPayments.find? payment.telegramPaymentChargeId = none := by
      intro s' henv
      have hsame : starSame (.charge payment.telegramPaymentChargeId) s₂ s' := henv.head
      exact hsame.1.trans (Option.isNone_iff_eq_none.mp hfree)
    simp only [if_true]
    split
    · rename_i reason tokens hverdict
      intro s' henv
      refine ⟨(held_change henv.inv (huser s' henv) (hnone s' henv) ?_ List.mem_cons_self).guarantee henv.inv,
        user, tokens, huser s' henv, hnone s' henv, hverdict, ?_⟩
      · rw [hverdict]
        rfl
      · rw [hverdict]
        rfl
    · rename_i tokens hverdict
      rw [wp_monad_bind]
      refine wp_insertStarRow (fun s₃ henv₃ => ?_)
      rw [wp_monad_bind]
      refine wp_updateBalance (fun s => by simp) (fun _ _ _ => trivial) (fun s₄ user' henv₄ hu' => ?_)
      intro s' henv
      have hlocks := henv₃.trans (henv₄.tail.trans henv.tail.tail)
      have huser' : user' = user := by
        have h := huser s₄ (henv₃.trans henv₄.tail)
        exact Option.some.inj (hu'.symm.trans h)
      subst huser'
      rw [hverdict]
      refine ⟨(credit_change henv.inv (huser s' hlocks) (hnone s' hlocks) (verdictOf_credit_pos hverdict)
        (by simp) (by simp [purchaseRow])).guarantee henv.inv, user', huser s' hlocks, hnone s' hlocks, hverdict,
        rfl, rfl⟩

/-- **A refund among others.** -/
theorem wp_refund (now : UnixMs) (input : StarRefundInput) :
    starProtocol.wp (StarTx.recordStarRefund now input) (starProtocol.Commits (RefundPost now input)) [] id s := by
  unfold StarTx.recordStarRefund
  simp only [wp_monad_bind, wp_select]
  intro s₀ henv₀
  split
  swap
  · exact fun s' henv => ⟨starRefl henv.inv, rfl⟩
  rename_i owner howner
  rw [wp_monad_bind]
  refine wp_selectFor (fun _ _ _ => trivial) (fun s₁ user henv₁ hu => ?_)
  simp only [wp_monad_bind]
  refine wp_selectFor (fun _ _ _ => trivial) (fun s₂ payment henv₂ hp => ?_)
  simp only
  split
  · exact fun s' henv => ⟨starRefl henv.inv, rfl⟩
  rename_i hstatus
  split
  · exact fun s' henv => ⟨starRefl henv.inv, rfl⟩
  rename_i hreceiver
  -- the owner read before its lock is the payment's: `user_id` never changes
  have howner' : payment.userId = owner.userId := by
    obtain ⟨p', hp', hm⟩ := (henv₁.trans henv₂.tail).rely.payments _ owner howner
    obtain rfl := Option.some.inj (hp'.symm.trans hp)
    cases hm <;> rfl
  have hopen : payment.status = .paid ∨ payment.status = .held := by
    cases h : payment.status with
    | paid => exact .inl rfl
    | held => exact .inr rfl
    | refunded => exact absurd h hstatus
  have huser : ∀ s', starProtocol.Env [(.charge input.telegramPaymentChargeId, .exclusive),
      (.user owner.userId, .exclusive)] s₂ s' → s'.users.find? payment.userId = some user := by
    intro s' henv
    have hsame : starSame (.user owner.userId) s₁ s' := (henv₂.trans henv.tail).head
    rw [howner']
    exact hsame.trans hu
  have hpay : ∀ s', starProtocol.Env [(.charge input.telegramPaymentChargeId, .exclusive),
      (.user owner.userId, .exclusive)] s₂ s' →
      s'.starPayments.find? input.telegramPaymentChargeId = some payment := by
    intro s' henv
    have hsame : starSame (.charge input.telegramPaymentChargeId) s₂ s' := henv.head
    exact hsame.1.trans hp
  have hcommit : ∀ held s', starProtocol.Env [(.charge input.telegramPaymentChargeId, .exclusive),
      (.user owner.userId, .exclusive)] s₂ s' → (.charge input.telegramPaymentChargeId, .exclusive) ∈ held →
      (.user owner.userId, .exclusive) ∈ held →
      starProtocol.Guarantee held s'
          ((s'.taking payment (refundTaken payment user)).refundPayment now input.telegramPaymentChargeId) ∧
        RefundPost now input s'
          ((s'.taking payment (refundTaken payment user)).refundPayment now input.telegramPaymentChargeId)
          (.refunded payment.userId payment.payerTelegramUserId payment.packageCode payment.totalAmount
            payment.status (refundTaken payment user) (payment.credited - refundTaken payment user)
            (user.tokenBalance - refundTaken payment user)) := by
    intro held s' henv hcharge huserLock
    refine ⟨(refund_change henv.inv (hpay s' henv) (huser s' henv) hopen now hcharge
      (by rw [howner']; exact huserLock)).guarantee henv.inv, payment, user, hpay s' henv, huser s' henv, hopen,
      Bool.eq_false_of_not_eq_true hreceiver, rfl, rfl, rfl, rfl, rfl, rfl, rfl, rfl, rfl⟩
  rw [wp_monad_bind]
  split
  · rename_i htaken
    unfold StarTx.takeTokens
    rw [wp_monad_bind]
    refine wp_insertStarRow (fun s₃ henv₃ => ?_)
    rw [wp_monad_bind]
    refine wp_updateBalance (fun s => rfl) (fun _ _ _ => trivial) (fun s₄ user' henv₄ hu' => ?_)
    simp only [wp_pure, wp_monad_bind]
    refine wp_change (fun _ _ _ => trivial) (fun s₅ henv₅ _ => ?_)
    simp only [if_true]
    intro s' henv
    have huser' : user' = user := by
      have h := huser s₄ (henv₃.trans henv₄.tail)
      exact Option.some.inj (hu'.symm.trans h)
    subst huser'
    have hlocks := henv₃.trans (henv₄.tail.trans (henv₅.tail.tail.trans henv.tail.tail.tail))
    have h := hcommit ((.charge input.telegramPaymentChargeId, .exclusive) ::
      (.user payment.userId, .exclusive) ::
      (.ledger payment.telegramPaymentChargeId .refund, .exclusive) ::
      (.charge input.telegramPaymentChargeId, .exclusive) :: [(.user owner.userId, .exclusive)]) s' hlocks
      (by simp) (by simp)
    unfold Db.taking at h
    rw [if_pos htaken] at h
    exact h
  · rename_i htaken
    simp only [wp_pure, wp_monad_bind]
    refine wp_change (fun _ _ _ => trivial) (fun s₃ henv₃ _ => ?_)
    simp only [if_true]
    intro s' henv
    have hlocks := henv₃.trans henv.tail
    have h := hcommit ((.charge input.telegramPaymentChargeId, .exclusive) ::
      (.charge input.telegramPaymentChargeId, .exclusive) :: [(.user owner.userId, .exclusive)]) s' hlocks
      (by simp) (by simp)
    -- nothing is taken: the balance answered is the user's
    have hzero : user.tokenBalance - refundTaken payment user = user.tokenBalance := by
      have hcharge := henv.inv.charges input.telegramPaymentChargeId
      rw [hpay s' hlocks] at hcharge
      have hbounds := refundTaken_bounds (credited_nonneg hcharge) (henv.inv.counters _ _ (huser s' hlocks))
      omega
    unfold Db.taking at h
    rw [if_neg htaken, hzero] at h
    exact h

theorem wp_post (row : TokenLedgerRow) :
    starProtocol.wp (StarTx.postLedger row)
      (starProtocol.Commits (StarCall.Post (.postLedger row) s)) [] id s := by
  unfold StarTx.postLedger
  rw [wp_monad_bind]
  refine wp_selectFor (fun s₁ _ _ s' henv => ⟨starRefl henv.inv, rfl⟩) (fun s₁ user henv₁ hu => ?_)
  simp only
  split
  · exact fun s' henv => ⟨starRefl henv.inv, rfl⟩
  rename_i hrow
  split
  swap
  · exact fun s' henv => ⟨starRefl henv.inv, rfl⟩
  rename_i hok
  rw [wp_monad_bind]
  show starProtocol.wp (_ >>= _) _ _ _ _
  rw [wp_monad_bind]
  refine wp_updateBalance (fun s => rfl) (fun _ _ _ => trivial) (fun s₂ user' henv₂ hu' s' henv => ?_)
  have hstill : s'.users.find? row.userId = some user := by
    have hsame : starSame (.user row.userId) s₁ s' := (henv₂.trans henv.tail).head
    exact hsame.trans hu
  simp only [Bool.or_eq_true, decide_eq_true_eq, not_or, Bool.not_eq_true, Option.isSome_eq_false_iff,
    Option.isNone_iff_eq_none] at hrow
  exact ⟨(post_change hstill hok hrow.1.1 hrow.1.2 (by simp)).guarantee henv.inv, hrow.1.1, hrow.1.2, rfl⟩

theorem wp_addUser (id : UserId) (telegramUserId : ℕ) :
    starProtocol.wp (StarCall.program (.addUser id telegramUserId))
      (starProtocol.Commits (StarCall.Post (.addUser id telegramUserId) s)) [] (fun s => s) s := by
  unfold StarCall.program StarTx.addUser
  rw [wp_monad_bind]
  refine wp_change (fun _ _ _ => trivial) (fun s₁ henv₁ hfree s' henv => ?_)
  have hnone : s'.users.find? id = none := by
    have hsame : starSame (.user id) s₁ s' := henv.head
    exact hsame.trans (Option.isNone_iff_eq_none.mp hfree)
  refine ⟨(addUser_change hnone ⟨le_refl 0, le_refl 0⟩ (by simp)).guarantee henv.inv, ?_, ?_⟩
  · exact Db.insertUser_tokenLedger _
  · exact Db.insertUser_starPayments _

/-- **Every transaction, among any others, does what its post-condition says.** -/
theorem starSystem_sound : starProtocol.Sound StarCall.program StarCall.Post := by
  intro call s _
  cases call with
  | creditStarPayment payment =>
    show starProtocol.wp (_ >>= _) _ _ _ _
    rw [wp_monad_bind]
    exact wp_mono (wp_credit payment) (fun answer held writes s h => h)
  | recordStarRefund now input =>
    show starProtocol.wp (_ >>= _) _ _ _ _
    rw [wp_monad_bind]
    exact wp_mono (wp_refund now input) (fun answer held writes s h => h)
  | postLedger row => exact wp_post row
  | addUser id telegramUserId => exact wp_addUser id telegramUserId

end Sound

/-! ## The transactions run alone -/

section Serial

variable {s s' : Db}

/-- **A credit that writes is the transaction of `Db.TokenOps`, run alone in the store it commits to.** -/
theorem creditPost_serial {payment : StarPaymentInput} {answer : StarPaymentCredit}
    (h : CreditPost payment s s' answer)
    (hwrites : (∃ tokens balance, answer = .credited tokens balance) ∨ ∃ reason, answer = .held reason) :
    (Binarius.creditStarPayment payment).run s = .ok (answer, s') := by
  have hinsert : ∀ verdict, s.starPayments.find? payment.telegramPaymentChargeId = none →
      ∃ t, s.starPayments.insert? (starPaymentRow payment verdict) = some t ∧
        s.insertPayment (starPaymentRow payment verdict) = { s with starPayments := t } := by
    intro verdict hnone
    cases hi : s.starPayments.insert? (starPaymentRow payment verdict) with
    | none =>
      obtain ⟨r, hr⟩ := Table.insert?_eq_none.mp hi
      exact nomatch hnone.symm.trans hr
    | some t =>
      refine ⟨t, rfl, ?_⟩
      unfold Db.insertPayment
      rw [hi]
  rcases hwrites with ⟨tokens, balance, rfl⟩ | ⟨reason, rfl⟩
  · obtain ⟨user, hu, hnone, hverdict, rfl, rfl⟩ := h
    obtain ⟨t, hi, hins⟩ := hinsert (.credit tokens) hnone
    have hupdate : s.users.updateAt payment.userId (fun _ => true)
        (fun u => { u with tokenBalance := u.tokenBalance + tokens }) =
        some (user.posted (purchaseRow payment tokens),
          s.users.put (user.posted (purchaseRow payment tokens))) := by
      refine Table.updateAt_eq_some.mpr ⟨user, hu, rfl, ?_, rfl⟩
      simp [UserRow.posted, purchaseRow]
    rw [hins]
    refine Tx.run_bind_eq_ok.mpr ⟨s, s, rfl, ?_⟩
    simp only [hu, hverdict, hi]
    refine Tx.run_bind_eq_ok.mpr ⟨⟨⟩, _, Tx.run_set_eq_ok.mpr rfl, ?_⟩
    refine Tx.run_bind_eq_ok.mpr ⟨⟨⟩, _, DbTx.run_write_eq_ok.mpr rfl, ?_⟩
    refine Tx.run_bind_eq_ok.mpr ⟨_, _, Tx.run_get_eq_ok.mpr ⟨rfl, rfl⟩, ?_⟩
    refine Tx.run_bind_eq_ok.mpr ⟨_, _, DbTx.run_demand_eq_ok.mpr ⟨hupdate, rfl⟩, ?_⟩
    refine Tx.run_bind_eq_ok.mpr ⟨⟨⟩, _, Tx.run_set_eq_ok.mpr rfl, Tx.run_pure_eq_ok.mpr ⟨rfl, ?_⟩⟩
    simp [Db.moveUser, Db.appendLedger, purchaseRow, hu]
  · obtain ⟨user, tokens, hu, hnone, hverdict, rfl⟩ := h
    obtain ⟨t, hi, hins⟩ := hinsert (.hold reason tokens) hnone
    simp [Binarius.creditStarPayment, hu, hverdict, hi, hins]

/-- **So is a refund that writes.** -/
theorem refundPost_serial {now : UnixMs} {input : StarRefundInput} {answer : StarRefundRecord}
    (hinv : StarInv s) (h : RefundPost now input s s' answer) (hwrites : s' ≠ s) :
    (Binarius.recordStarRefund now input).run s = .ok (answer, s') := by
  cases answer with
  | alreadyRecorded refundedAt => exact absurd h hwrites
  | receiverMismatch => exact absurd h hwrites
  | notFound => exact absurd h hwrites
  | refunded userId payer packageCode totalAmount fromStatus taken notRecovered balance =>
    obtain ⟨payment, user, hp, hu, hopen, hreceiver, rfl, rfl, rfl, rfl, rfl, rfl, rfl, rfl, rfl⟩ := h
    have hcharge := hinv.charges input.telegramPaymentChargeId
    rw [hp] at hcharge
    obtain ⟨h0, _, hfree⟩ := refundTaken_bounds (credited_nonneg hcharge) (hinv.counters _ _ hu)
    have hclosed : payment.status ≠ .refunded := by
      rcases hopen with h | h <;> simp [h]
    have hrefund : ∀ taken, s.starPayments.updateAt input.telegramPaymentChargeId
        (fun p => p.status = .paid || p.status = .held) (refundedPayment now) =
        some (refundedPayment now payment, ((s.taking payment taken).refundPayment now
          input.telegramPaymentChargeId).starPayments) := by
      intro taken
      refine Table.updateAt_eq_some.mpr ⟨payment, hp, ?_, rfl, ?_⟩
      · rcases hopen with h | h <;> simp [h]
      · unfold Db.refundPayment
        rw [Db.taking_starPayments, hp]
    refine Tx.run_bind_eq_ok.mpr ⟨s, s, rfl, ?_⟩
    simp only [hp]
    refine Tx.run_bind_eq_ok.mpr ⟨user, s, DbTx.run_demand_eq_ok.mpr ⟨hu, rfl⟩, ?_⟩
    rw [if_neg hclosed, hreceiver]
    refine Tx.run_bind_eq_ok.mpr ⟨user.tokenBalance - refundTaken payment user,
      s.taking payment (refundTaken payment user), ?_, ?_⟩
    · unfold Db.taking
      split
      · have hupdate : s.users.updateAt payment.userId
            (fun u => decide (u.tokenReserved ≤ u.tokenBalance - refundTaken payment user))
            (fun u => { u with tokenBalance := u.tokenBalance - refundTaken payment user }) =
            some (user.posted (refundRow payment (refundTaken payment user)),
              s.users.put (user.posted (refundRow payment (refundTaken payment user)))) := by
          refine Table.updateAt_eq_some.mpr ⟨user, hu, decide_eq_true (by omega), ?_, rfl⟩
          simp [UserRow.posted, refundRow, sub_eq_add_neg]
        refine Tx.run_bind_eq_ok.mpr ⟨⟨⟩, _, DbTx.run_write_eq_ok.mpr rfl, ?_⟩
        refine Tx.run_bind_eq_ok.mpr ⟨_, _, Tx.run_get_eq_ok.mpr ⟨rfl, rfl⟩, ?_⟩
        refine Tx.run_bind_eq_ok.mpr ⟨_, _, DbTx.run_demand_eq_ok.mpr ⟨hupdate, rfl⟩, ?_⟩
        refine Tx.run_bind_eq_ok.mpr ⟨⟨⟩, _, Tx.run_set_eq_ok.mpr rfl, Tx.run_pure_eq_ok.mpr ⟨?_, ?_⟩⟩
        · simp [UserRow.posted, refundRow, sub_eq_add_neg]
        · simp [Db.moveUser, Db.appendLedger, refundRow, hu]
      · refine Tx.run_pure_eq_ok.mpr ⟨?_, rfl⟩
        omega
    · refine Tx.run_bind_eq_ok.mpr ⟨_, _, Tx.run_get_eq_ok.mpr ⟨rfl, rfl⟩, ?_⟩
      refine Tx.run_bind_eq_ok.mpr ⟨_, _, DbTx.run_demand_eq_ok.mpr
        ⟨by rw [Db.taking_starPayments]; exact hrefund (refundTaken payment user), rfl⟩, ?_⟩
      refine Tx.run_bind_eq_ok.mpr ⟨⟨⟩, _, Tx.run_set_eq_ok.mpr rfl, Tx.run_pure_eq_ok.mpr ⟨rfl, ?_⟩⟩
      unfold Db.refundPayment
      rw [Db.taking_starPayments, hp]

end Serial

/-! ## Every interleaving -/

/-- The answer credits the charge. -/
def creditsCharge (c : String) : StarCall × StarAnswer → Bool
  | (.creditStarPayment payment, .credit (.credited _ _)) => payment.telegramPaymentChargeId = c
  | _ => false

/-- The answer refunds the charge. -/
def refundsCharge (c : String) : StarCall × StarAnswer → Bool
  | (.recordStarRefund _ input, .refund (.refunded _ _ _ _ _ _ _ _)) => input.telegramPaymentChargeId = c
  | _ => false

namespace Db

variable (db : Db) (c : String)

def purchases : List TokenLedgerRow := (db.starRows c).filter (fun row => row.kind = .purchase)

/-- The tokens the ledger has credited for a charge. -/
def tokensCredited : ℤ := ((db.purchases c).map (·.balanceDelta)).sum

/-- The charge's payment is refunded: once, or not yet. -/
def refunds : ℕ :=
  match db.starPayments.find? c with
  | some payment => if payment.status = .refunded then 1 else 0
  | none => 0

end Db

/-- What the ledger and the payments say of the answers so far. -/
def StarHistory (answers : List (StarCall × StarAnswer)) (db : Db) : Prop :=
  ∀ c, answers.countP (creditsCharge c) = (db.purchases c).length ∧
    answers.countP (refundsCharge c) = db.refunds c

section History

variable {db db' : Db} {answers : List (StarCall × StarAnswer)}

theorem purchases_le_one (h : StarInv db) (c : String) : (db.purchases c).length ≤ 1 := by
  have hok := h.charges c
  unfold Db.purchases
  generalize db.starPayments.find? c = payment at hok
  generalize db.starRows c = rows at hok ⊢
  cases hok <;> simp [StarPaymentRow.purchase, refundRow]

theorem refunds_le_one (db : Db) (c : String) : db.refunds c ≤ 1 := by
  unfold Db.refunds
  split
  · split <;> omega
  · omega

/-- An answer that is neither, over charges that stand still. -/
theorem StarHistory.same (h : StarHistory answers db) {call : StarCall} {answer : StarAnswer}
    (hcredit : ∀ c, creditsCharge c (call, answer) = false)
    (hrefund : ∀ c, refundsCharge c (call, answer) = false)
    (hrows : ∀ c, db'.purchases c = db.purchases c) (hrefunds : ∀ c, db'.refunds c = db.refunds c) :
    StarHistory (answers ++ [(call, answer)]) db' := by
  intro c
  rw [List.countP_append, List.countP_append, hrows, hrefunds]
  obtain ⟨h1, h2⟩ := h c
  simp [hcredit c, hrefund c, h1, h2]

theorem refunds_of_starPayments (h : db'.starPayments = db.starPayments) (c : String) :
    db'.refunds c = db.refunds c := by
  unfold Db.refunds
  rw [h]

theorem purchases_of_tokenLedger (h : db'.tokenLedger = db.tokenLedger) (c : String) :
    db'.purchases c = db.purchases c := by
  unfold Db.purchases
  rw [Db.starRows_of_tokenLedger h]

/-- A ledger row of the charge's purchase, or another row. -/
theorem purchases_cons {row : TokenLedgerRow} (h : db'.tokenLedger = row :: db.tokenLedger) (c : String) :
    db'.purchases c =
      if row.starPaymentId = some c ∧ row.kind = .purchase then row :: db.purchases c else db.purchases c := by
  unfold Db.purchases
  rw [Db.starRows_cons h]
  by_cases hc : row.starPaymentId = some c
  · by_cases hk : row.kind = .purchase <;> simp [hc, hk]
  · simp [hc]

theorem history_credited (h : StarHistory answers db) {payment : StarPaymentInput} {tokens balance : ℤ}
    (hpost : CreditPost payment db db' (.credited tokens balance)) :
    StarHistory (answers ++ [(.creditStarPayment payment, .credit (.credited tokens balance))]) db' := by
  obtain ⟨user, hu, hnone, hverdict, hbalance, rfl⟩ := hpost
  intro c
  obtain ⟨h1, h2⟩ := h c
  have hledger : (((db.insertPayment (starPaymentRow payment (.credit tokens))).appendLedger
      (purchaseRow payment tokens)).moveUser (purchaseRow payment tokens)).tokenLedger =
      purchaseRow payment tokens :: db.tokenLedger := by simp
  rw [List.countP_append, List.countP_append, h1, h2, purchases_cons hledger]
  have hrefunds : Db.refunds (((db.insertPayment (starPaymentRow payment (.credit tokens))).appendLedger
      (purchaseRow payment tokens)).moveUser (purchaseRow payment tokens)) c = db.refunds c := by
    unfold Db.refunds
    rw [Db.moveUser_starPayments, Db.appendLedger_starPayments, Db.insertPayment_find? hnone]
    by_cases hc : payment.telegramPaymentChargeId = c
    · subst hc
      simp [starPaymentRow, Verdict.status, hnone]
    · simp [starPaymentRow, hc]
  rw [hrefunds]
  by_cases hc : payment.telegramPaymentChargeId = c <;>
    simp [purchaseRow, creditsCharge, refundsCharge, hc]

theorem history_held (h : StarHistory answers db) {payment : StarPaymentInput} {reason : StarPaymentHoldReason}
    (hpost : CreditPost payment db db' (.held reason)) :
    StarHistory (answers ++ [(.creditStarPayment payment, .credit (.held reason))]) db' := by
  obtain ⟨user, tokens, hu, hnone, hverdict, rfl⟩ := hpost
  refine h.same (fun c => rfl) (fun c => rfl) (purchases_of_tokenLedger (by simp)) (fun c => ?_)
  unfold Db.refunds
  rw [Db.insertPayment_find? hnone]
  by_cases hc : payment.telegramPaymentChargeId = c
  · subst hc
    simp [starPaymentRow, Verdict.status, hnone]
  · simp [starPaymentRow, hc]

theorem history_refunded (h : StarHistory answers db) {now : UnixMs} {input : StarRefundInput}
    {answer : StarRefundRecord} (hpost : RefundPost now input db db' answer) :
    StarHistory (answers ++ [(.recordStarRefund now input, .refund answer)]) db' := by
  cases answer with
  | alreadyRecorded refundedAt =>
    obtain rfl : db' = db := hpost
    exact h.same (fun c => rfl) (fun c => rfl) (fun c => rfl) (fun c => rfl)
  | receiverMismatch =>
    obtain rfl : db' = db := hpost
    exact h.same (fun c => rfl) (fun c => rfl) (fun c => rfl) (fun c => rfl)
  | notFound =>
    obtain rfl : db' = db := hpost
    exact h.same (fun c => rfl) (fun c => rfl) (fun c => rfl) (fun c => rfl)
  | refunded userId payer packageCode totalAmount fromStatus taken notRecovered balance =>
    obtain ⟨payment, user, hp, hu, hopen, hreceiver, rfl, rfl, rfl, rfl, rfl, rfl, rfl, rfl, rfl⟩ := hpost
    intro c
    obtain ⟨h1, h2⟩ := h c
    have hpurchases : ((db.taking payment (refundTaken payment user)).refundPayment now
        input.telegramPaymentChargeId).purchases c = db.purchases c := by
      rw [purchases_of_tokenLedger (Db.refundPayment_tokenLedger _ _)]
      unfold Db.taking
      split
      · have hledger : ((db.appendLedger (refundRow payment (refundTaken payment user))).moveUser
            (refundRow payment (refundTaken payment user))).tokenLedger =
            refundRow payment (refundTaken payment user) :: db.tokenLedger := by simp
        rw [purchases_cons hledger, if_neg (by simp [refundRow])]
      · rfl
    rw [List.countP_append, List.countP_append, h1, h2, hpurchases]
    unfold Db.refunds
    rw [Db.refundPayment_find? (by rw [Db.taking_starPayments]; exact hp), Db.taking_starPayments]
    by_cases hc : input.telegramPaymentChargeId = c
    · subst hc
      rcases hopen with hs | hs <;> simp [creditsCharge, refundsCharge, refundedPayment, hp, hs]
    · simp [creditsCharge, refundsCharge, hc]

theorem StarHistory.commit (h : StarHistory answers db) {call : StarCall} {began : Db} {answer : StarAnswer}
    (hpost : call.Post began db db' answer) : StarHistory (answers ++ [(call, answer)]) db' := by
  cases call with
  | creditStarPayment payment =>
    cases answer with
    | credit answer =>
      cases answer with
      | credited tokens balance => exact history_credited h hpost
      | held reason => exact history_held h hpost
      | alreadyRecorded status tokens balance =>
        obtain rfl : db' = db := hpost
        exact h.same (fun c => rfl) (fun c => rfl) (fun c => rfl) (fun c => rfl)
      | userUnknown =>
        obtain rfl : db' = db := hpost
        exact h.same (fun c => rfl) (fun c => rfl) (fun c => rfl) (fun c => rfl)
    | _ => exact hpost.elim
  | recordStarRefund now input =>
    cases answer with
    | refund answer => exact history_refunded h hpost
    | _ => exact hpost.elim
  | postLedger row =>
    cases answer with
    | posted =>
      obtain ⟨hnone, hkind, rfl⟩ := hpost
      refine h.same (fun c => rfl) (fun c => rfl) (fun c => ?_) (refunds_of_starPayments (by simp))
      have hledger : ((db.appendLedger row).moveUser row).tokenLedger = row :: db.tokenLedger := by simp
      rw [purchases_cons hledger, if_neg (fun h => hkind h.2)]
    | refused =>
      obtain rfl : db' = db := hpost
      exact h.same (fun c => rfl) (fun c => rfl) (fun c => rfl) (fun c => rfl)
    | _ => exact hpost.elim
  | addUser id telegramUserId =>
    cases answer with
    | added =>
      obtain ⟨hledger, hpayments⟩ := hpost
      exact h.same (fun c => rfl) (fun c => rfl) (purchases_of_tokenLedger hledger)
        (refunds_of_starPayments hpayments)
    | _ => exact hpost.elim

end History

/-! ## The accounting -/

/-- No payment yet, and no ledger row that names one. -/
structure StarsStart (db : Db) : Prop where
  counters : ∀ id user, db.users.find? id = some user → user.CountersOk
  payments : ∀ c, db.starPayments.find? c = none
  ledger : ∀ row ∈ db.tokenLedger, row.kind ≠ .purchase ∧ row.starPaymentId = none

def starsWorld (db : Db) : StarWorld := ⟨db, []⟩

/-- What a refund of the charge takes from its user, and leaves. -/
structure RefundTakes (c : String) (userId : UserId) (taken notRecovered : ℤ) (before after : Db) : Prop where
  nonneg : 0 ≤ taken
  le : taken ≤ before.tokensCredited c
  sum : taken + notRecovered = before.tokensCredited c
  user : ∃ user user', before.users.find? userId = some user ∧ after.users.find? userId = some user' ∧
    user'.tokenBalance = user.tokenBalance - taken ∧ user'.tokenReserved = user.tokenReserved ∧
    user'.tokenReserved ≤ user'.tokenBalance
  others : ∀ id, id ≠ userId → after.users.find? id = before.users.find? id

section Accounting

variable {db : Db}

theorem StarsStart.starRows (h : StarsStart db) (c : String) : db.starRows c = [] := by
  unfold Db.starRows
  rw [List.filter_eq_nil_iff]
  intro row hrow
  rw [(h.ledger row hrow).2]
  simp

theorem StarsStart.inv (h : StarsStart db) : StarInv db := by
  refine ⟨h.counters, fun c p hp => ?_, fun c => ?_, fun row hrow hkind => ?_⟩
  · exact nomatch (h.payments c).symm.trans hp
  · rw [h.payments, h.starRows]
    exact .unknown
  · exact absurd hkind (h.ledger row hrow).1

theorem StarsStart.history (h : StarsStart db) : StarHistory [] db := by
  intro c
  unfold Db.purchases Db.refunds
  rw [h.payments, h.starRows]
  exact ⟨rfl, rfl⟩

/-- The tokens of a payment not yet refunded are those of its ledger row. -/
theorem credited_eq_tokensCredited (h : StarInv db) {c : String} {payment : StarPaymentRow}
    (hp : db.starPayments.find? c = some payment) (hopen : payment.status = .paid ∨ payment.status = .held) :
    payment.credited = db.tokensCredited c := by
  have hcharge := h.charges c
  rw [hp] at hcharge
  unfold StarPaymentRow.credited Db.tokensCredited Db.purchases
  rcases hopen with hpaid | hheld
  · obtain ⟨tokens, hpos, htokens, hrows⟩ := hcharge.rows_of_paid hpaid
    rw [if_pos hpaid, htokens, hrows]
    simp [StarPaymentRow.purchase]
  · rw [if_neg (by simp [hheld]), hcharge.rows_of_held hheld]
    rfl

theorem refundTakes {now : UnixMs} {input : StarRefundInput} {s s' : Db} {userId : UserId} {payer : ℕ}
    {packageCode : String} {totalAmount : ℤ} {fromStatus : StarPaymentStatus} {taken notRecovered balance : ℤ}
    (hinv : StarInv s) (hpost : RefundPost now input s s'
      (.refunded userId payer packageCode totalAmount fromStatus taken notRecovered balance)) :
    RefundTakes input.telegramPaymentChargeId userId taken notRecovered s s' := by
  obtain ⟨payment, user, hp, hu, hopen, hreceiver, rfl, rfl, rfl, rfl, rfl, rfl, rfl, rfl, rfl⟩ := hpost
  have hcharge := hinv.charges input.telegramPaymentChargeId
  rw [hp] at hcharge
  obtain ⟨h0, hle, hfree⟩ := refundTaken_bounds (credited_nonneg hcharge) (hinv.counters _ _ hu)
  have hcredited := credited_eq_tokensCredited hinv hp hopen
  refine ⟨h0, by rw [← hcredited]; exact hle, by rw [← hcredited]; ring, ?_, fun id hid => ?_⟩
  · unfold Db.taking
    rw [Db.refundPayment_users]
    split
    · have hafter : ((s.appendLedger (refundRow payment (refundTaken payment user))).moveUser
          (refundRow payment (refundTaken payment user))).users.find? payment.userId =
          some (user.posted (refundRow payment (refundTaken payment user))) := by
        rw [Db.moveUser_find? (show (s.appendLedger _).users.find? payment.userId = some user from hu)]
        exact if_pos rfl
      refine ⟨user, _, hu, hafter, ?_, ?_, ?_⟩
      · simp [UserRow.posted, refundRow, sub_eq_add_neg]
      · simp [UserRow.posted, refundRow]
      · simp only [UserRow.posted, refundRow]
        omega
    · have hbounds := (hinv.counters _ _ hu).2
      exact ⟨user, user, hu, hu, by omega, rfl, hbounds⟩
  · unfold Db.taking
    rw [Db.refundPayment_users]
    split
    · rw [Db.moveUser_find? (show (s.appendLedger _).users.find? payment.userId = some user from hu),
        if_neg (fun h => hid h.symm)]
      rfl
    · rfl

/-- **Stars are credited once and refunded once.**  From a database without a payment, whatever credits,
refunds, other writers of the ledger and new users run, in whatever interleaving of their statements:

* each charge is credited at most once and refunded at most once;
* the ledger has a purchase row of a charge if and only if the charge was credited;
* a payment stays, and its status moves only from paid or held to refunded;
* a refund takes no more than was credited, and nothing that is reserved. -/
theorem star_payments_once (hstart : StarsStart db) (acts : List (StoreAct StarCall)) :
    (∀ c, (StoreWorld.answers StarCall.program (starsWorld db) acts).countP (creditsCharge c) ≤ 1 ∧
      (StoreWorld.answers StarCall.program (starsWorld db) acts).countP (refundsCharge c) ≤ 1) ∧
    (∀ c, (∃ row ∈ (run (StoreWorld.act StarCall.program) (starsWorld db) acts).db.tokenLedger,
        row.kind = .purchase ∧ row.starPaymentId = some c) ↔
      ∃ answer ∈ StoreWorld.answers StarCall.program (starsWorld db) acts, creditsCharge c answer = true) ∧
    (∀ row ∈ (run (StoreWorld.act StarCall.program) (starsWorld db) acts).db.tokenLedger,
      row.kind = .purchase → ∃ c, row.starPaymentId = some c) ∧
    (∀ more c p, (run (StoreWorld.act StarCall.program) (starsWorld db) acts).db.starPayments.find? c = some p →
      ∃ p', (run (StoreWorld.act StarCall.program) (starsWorld db) (acts ++ more)).db.starPayments.find? c =
        some p' ∧ StarPaymentMoves p p') ∧
    (∀ a now input userId payer packageCode totalAmount fromStatus taken notRecovered balance,
      (run (StoreWorld.act StarCall.program) (starsWorld db) acts).committed a =
        some (.recordStarRefund now input, .refund
          (.refunded userId payer packageCode totalAmount fromStatus taken notRecovered balance)) →
      RefundTakes input.telegramPaymentChargeId userId taken notRecovered
        (run (StoreWorld.act StarCall.program) (starsWorld db) acts).db
        ((run (StoreWorld.act StarCall.program) (starsWorld db) acts).act StarCall.program a).db) := by
  have hworld : WorldOk starProtocol StarCall.Post (starsWorld db) := WorldOk.initial hstart.inv
  have hend := starSystem_sound.run hworld acts
  have hhistory : StarHistory (StoreWorld.answers StarCall.program (starsWorld db) acts)
      (run (StoreWorld.act StarCall.program) (starsWorld db) acts).db :=
    starSystem_sound.history hworld hstart.history
      (fun hist call began s s' answer _ _ _ hpost h => h.commit hpost) acts
  refine ⟨fun c => ?_, fun c => ?_, hend.inv.purchases, fun more c p hp => ?_, ?_⟩
  · obtain ⟨hcredits, hrefunds⟩ := hhistory c
    rw [hcredits, hrefunds]
    exact ⟨purchases_le_one hend.inv c, refunds_le_one _ c⟩
  · rw [← List.countP_pos_iff, (hhistory c).1, List.length_pos_iff_exists_mem]
    unfold Db.purchases Db.starRows
    constructor
    · rintro ⟨row, hrow, hkind, hc⟩
      exact ⟨row, by simp [hrow, hkind, hc]⟩
    · rintro ⟨row, hrow⟩
      simp only [List.mem_filter, decide_eq_true_eq] at hrow
      exact ⟨row, hrow.1.1, hrow.2, hrow.1.2⟩
  · rw [run_append]
    exact (starSystem_sound.rely_run hend more).payments c p hp
  · intro a now input userId payer packageCode totalAmount fromStatus taken notRecovered balance hcommitted
    rcases hend.act_cases a with ⟨hnone, _⟩ | ⟨call, answer, began, hsome, _, _, hpost⟩
    · exact nomatch hnone.symm.trans hcommitted
    · obtain ⟨rfl, rfl⟩ := Prod.mk.inj (Option.some.inj (hsome.symm.trans hcommitted))
      exact refundTakes hend.inv hpost

/-- One user with a reserve of 20. -/
def reservedDb : Db where
  users := ⟨[{ id := 1, telegramUserId := 42, status := .active, tradingMode := .demo
               tokenBalance := 30, tokenReserved := 20 }], by simp⟩
  brokerAccounts := .empty
  brokerBalanceSnapshots := .empty
  tradingSessions := .empty
  tradingSwitch := none
  tradeIntents := .empty
  tokenLedger := []
  outboxEvents := .empty
  starPayments := .empty
  brokerTrades := .empty

/-- A credit and its repeat, a refund begun before the credit commits and one after it. -/
def creditThenRefund : List (StoreAct StarCall) :=
  let payment : StarPaymentInput :=
    { telegramPaymentChargeId := "c", providerPaymentChargeId := none, packageCode := "p50", userId := 1
      currency := "XTR", totalAmount := 100, payerTelegramUserId := 42, paidAt := 0 }
  let refund : StarRefundInput := { telegramPaymentChargeId := "c", receiverTelegramUserId := some 42 }
  [StoreAct.start (.creditStarPayment payment), StoreAct.start (.creditStarPayment payment),
      StoreAct.start (.recordStarRefund 5 refund)] ++
    List.replicate 2 (StoreAct.step 0) ++ [StoreAct.step 1, StoreAct.step 1, StoreAct.step 2] ++
    List.replicate 12 (StoreAct.step 0) ++ List.replicate 12 (StoreAct.step 1) ++
    [StoreAct.step 2, StoreAct.start (.recordStarRefund 6 refund)] ++
    List.replicate 20 (StoreAct.step 3)

theorem star_payments_once_creditThenRefund :
    (StoreWorld.answers StarCall.program (starsWorld reservedDb) creditThenRefund).countP (creditsCharge "c") ≤ 1 ∧
      (StoreWorld.answers StarCall.program (starsWorld reservedDb) creditThenRefund).map (·.2) =
        [.credit (.credited 50 80), .credit (.alreadyRecorded .paid (some 50) 80), .refund .notFound,
          .refund (.refunded 1 42 "p50" 100 .paid 50 0 30)] := by
  refine ⟨((star_payments_once ?_ creditThenRefund).1 "c").1, by decide⟩
  refine ⟨fun id user hu => ?_, fun c => rfl, fun row hrow => nomatch hrow⟩
  have hmem : user ∈ reservedDb.users := Table.mem_of_find? hu
  obtain rfl := List.mem_singleton.mp hmem
  exact ⟨by decide, by decide⟩

end Accounting

end Binarius
