import Mathlib.Tactic
import Binarius.Db.Schema
import Binarius.Shared.Tokens

/-!
# Db.TokenOps — manual adjustments and Stars payments
(packages/db/src: token-adjustment-ops.ts, star-payment-ops.ts)

The audit rows are left out: no modelled function reads them.

* `adjustTokens_ok`, `creditStarPayment_ok`, `recordStarRefund_ok`: **what each can do to the ledger**
  — nothing, or one row with the same move of its user's balance, never below the reserve.
-/

namespace Binarius

open Lib

/-! ## The manual adjustment -/

structure AdjustTokensInput where
  userId : UserId
  delta : ℤ
  note : List Char
  /-- the balance the staff member saw; absent skips the optimistic check -/
  expectedBalance : Option ℤ

inductive AdjustTokensResult
  | adjusted (entry : TokenLedgerRow) (telegramUserId : ℕ) (balanceBefore balanceAfter reserved : ℤ)
  | notFound
  | balanceChanged (balance reserved : ℤ)
  | insufficientAvailable (balance reserved : ℤ)
  deriving DecidableEq, Repr

def adjustmentRow (input : AdjustTokensInput) : TokenLedgerRow :=
  { userId := input.userId, kind := .adjustment, balanceDelta := input.delta, reservedDelta := 0
    note := some input.note }

def adjustTokens (isControl : Char → Bool) (input : AdjustTokensInput) : DbTx AdjustTokensResult := do
  DbTx.require (checkTokenAdjustment isControl input.delta input.note).isNone .invalidTokenAdjustment
  let db ← get
  let some user := db.users.find? input.userId | return .notFound
  if input.expectedBalance.any (· ≠ user.tokenBalance) then
    return .balanceChanged user.tokenBalance user.tokenReserved
  if user.tokenBalance + input.delta < user.tokenReserved then
    return .insufficientAvailable user.tokenBalance user.tokenReserved
  DbTx.write (fun db => { db with tokenLedger := adjustmentRow input :: db.tokenLedger })
  let db ← get
  -- the predicate repeats the check above as an atomic backstop
  let (after, users) ← DbTx.demand
    (db.users.updateAt input.userId (fun u => decide (u.tokenReserved ≤ u.tokenBalance + input.delta))
      (fun u => { u with tokenBalance := u.tokenBalance + input.delta }))
    (.underflow input.userId)
  set { db with users := users }
  return .adjusted (adjustmentRow input) user.telegramUserId user.tokenBalance after.tokenBalance
    user.tokenReserved

/-! ## Stars -/

structure StarPaymentInput where
  telegramPaymentChargeId : String
  providerPaymentChargeId : Option String
  packageCode : String
  userId : UserId
  currency : String
  totalAmount : ℤ
  payerTelegramUserId : ℕ
  paidAt : UnixMs

inductive StarPaymentHoldReason
  | currency
  | amount
  | package
  | payer
  deriving DecidableEq, Repr

inductive StarPaymentCredit
  | credited (tokens balance : ℤ)
  | held (reason : StarPaymentHoldReason)
  | alreadyRecorded (status : StarPaymentStatus) (tokens : Option ℤ) (balance : ℤ)
  | userUnknown
  deriving DecidableEq, Repr

/-- The first check the payment fails, with the package's tokens when it has one; or the tokens to
credit. -/
inductive Verdict
  | hold (reason : StarPaymentHoldReason) (tokens : Option ℤ)
  | credit (tokens : ℤ)
  deriving DecidableEq, Repr

def Verdict.tokens : Verdict → Option ℤ
  | .hold _ tokens => tokens
  | .credit tokens => some tokens

def Verdict.status : Verdict → StarPaymentStatus
  | .hold _ _ => .held
  | .credit _ => .paid

def verdictOf (payment : StarPaymentInput) (payerOfPayload : ℕ) : Verdict :=
  let pack := starPackageOf payment.packageCode
  let tokens := pack.map (·.tokens)
  if payment.currency ≠ starsCurrency then .hold .currency tokens
  else
    match pack with
    | none => .hold .package tokens
    | some pack =>
      if payment.totalAmount ≠ pack.stars then .hold .amount tokens
      else if payment.payerTelegramUserId ≠ payerOfPayload then .hold .payer tokens
      else .credit pack.tokens

def starPaymentRow (payment : StarPaymentInput) (verdict : Verdict) : StarPaymentRow where
  telegramPaymentChargeId := payment.telegramPaymentChargeId
  userId := payment.userId
  providerPaymentChargeId := payment.providerPaymentChargeId
  packageCode := payment.packageCode
  currency := payment.currency
  totalAmount := payment.totalAmount
  tokens := verdict.tokens
  payerTelegramUserId := payment.payerTelegramUserId
  status := verdict.status
  paidAt := payment.paidAt
  refundedAt := none

def purchaseRow (payment : StarPaymentInput) (tokens : ℤ) : TokenLedgerRow :=
  { userId := payment.userId, kind := .purchase, balanceDelta := tokens
    starPaymentId := some payment.telegramPaymentChargeId }

/-- The credit of a verdict: its ledger row and the balance. -/
def creditTokens (payment : StarPaymentInput) (tokens : ℤ) : DbTx StarPaymentCredit := do
  DbTx.write (fun db => { db with tokenLedger := purchaseRow payment tokens :: db.tokenLedger })
  let db ← get
  let (after, users) ← DbTx.demand
    (db.users.updateAt payment.userId (fun _ => true)
      (fun u => { u with tokenBalance := u.tokenBalance + tokens })) .vanished
  set { db with users := users }
  return .credited tokens after.tokenBalance

/-- The charge id is the key: the first insert is the only one, and the one that credits. -/
def creditStarPayment (payment : StarPaymentInput) : DbTx StarPaymentCredit := do
  let db ← get
  let some user := db.users.find? payment.userId | return .userUnknown
  let verdict := verdictOf payment user.telegramUserId
  match db.starPayments.insert? (starPaymentRow payment verdict) with
  | none =>
    let stored ← DbTx.demand (db.starPayments.find? payment.telegramPaymentChargeId) .vanished
    return .alreadyRecorded stored.status stored.tokens user.tokenBalance
  | some starPayments =>
    set { db with starPayments := starPayments }
    match verdict with
    | .hold reason _ => return .held reason
    | .credit tokens => creditTokens payment tokens

/-! ## Refunds -/

structure StarRefundInput where
  telegramPaymentChargeId : String
  /-- the reconciler's: the transaction's receiver, which must be the payer -/
  receiverTelegramUserId : Option ℕ

inductive StarRefundRecord
  | refunded (userId : UserId) (payerTelegramUserId : ℕ) (packageCode : String) (totalAmount : ℤ)
      (fromStatus : StarPaymentStatus) (taken notRecovered balance : ℤ)
  | alreadyRecorded (refundedAt : Option UnixMs)
  | receiverMismatch
  | notFound
  deriving DecidableEq, Repr

def refundRow (payment : StarPaymentRow) (taken : ℤ) : TokenLedgerRow :=
  { userId := payment.userId, kind := .refund, balanceDelta := -taken
    starPaymentId := some payment.telegramPaymentChargeId }

/-- Take back what is left of the payment's tokens: the ledger row and the balance. -/
def takeTokens (payment : StarPaymentRow) (taken : ℤ) : DbTx ℤ := do
  DbTx.write (fun db => { db with tokenLedger := refundRow payment taken :: db.tokenLedger })
  let db ← get
  let (after, users) ← DbTx.demand
    (db.users.updateAt payment.userId (fun u => decide (u.tokenReserved ≤ u.tokenBalance - taken))
      (fun u => { u with tokenBalance := u.tokenBalance - taken })) (.underflow payment.userId)
  set { db with users := users }
  return after.tokenBalance

def refundedPayment (now : UnixMs) (payment : StarPaymentRow) : StarPaymentRow :=
  { payment with status := .refunded, refundedAt := some now }

/-- What is taken: what is left of the payment's tokens and available now. -/
def refundTaken (payment : StarPaymentRow) (user : UserRow) : ℤ :=
  let credited := if payment.status = .paid then payment.tokens.getD 0 else 0
  let available := user.tokenBalance - user.tokenReserved
  if credited < available then credited else available

def recordStarRefund (now : UnixMs) (input : StarRefundInput) : DbTx StarRefundRecord := do
  let db ← get
  let some payment := db.starPayments.find? input.telegramPaymentChargeId | return .notFound
  let user ← DbTx.demand (db.users.find? payment.userId) .vanished
  if payment.status = .refunded then return .alreadyRecorded payment.refundedAt
  if input.receiverTelegramUserId.any (· ≠ payment.payerTelegramUserId) then return .receiverMismatch
  let credited := if payment.status = .paid then payment.tokens.getD 0 else 0
  let taken := refundTaken payment user
  let balance ← (if 0 < taken then takeTokens payment taken else return user.tokenBalance : DbTx ℤ)
  let db ← get
  let (_, starPayments) ← DbTx.demand
    (db.starPayments.updateAt input.telegramPaymentChargeId
      (fun p => p.status = .paid || p.status = .held) (refundedPayment now)) .vanished
  set { db with starPayments := starPayments }
  return .refunded payment.userId payment.payerTelegramUserId payment.packageCode payment.totalAmount
    payment.status taken (credited - taken) balance

/-! ## What the operations can do -/

section Specs

variable {db db' : Db}

/-- **What an adjustment can do.** -/
theorem adjustTokens_ok {isControl : Char → Bool} {input : AdjustTokensInput}
    {res : AdjustTokensResult} (h : (adjustTokens isControl input).run db = .ok (res, db')) :
    db' = db ∨
      ∃ user, db.users.find? input.userId = some user ∧
        user.tokenReserved ≤ user.tokenBalance + input.delta ∧
        db' = db.post user (adjustmentRow input) := by
  simp only [adjustTokens, Tx.run_bind_eq_ok, DbTx.run_require_eq_ok, Tx.run_get_eq_ok] at h
  obtain ⟨_, _, ⟨_, rfl⟩, _, _, ⟨rfl, rfl⟩, h⟩ := h
  cases hf : db.users.find? input.userId with
  | none =>
    simp only [hf, StateT.run_pure, Tx.run_pure_eq_ok] at h
    exact .inl h.2.symm
  | some user =>
    simp only [hf] at h
    split at h
    · simp only [StateT.run_pure, Tx.run_pure_eq_ok] at h
      exact .inl h.2.symm
    split at h
    · simp only [StateT.run_pure, Tx.run_pure_eq_ok] at h
      exact .inl h.2.symm
    simp only [Tx.run_bind_eq_ok, DbTx.run_write_eq_ok, Tx.run_get_eq_ok, DbTx.run_demand_eq_ok,
      Tx.run_set_eq_ok, StateT.run_pure, Tx.run_pure_eq_ok] at h
    obtain ⟨_, _, rfl, _, _, ⟨rfl, rfl⟩, ⟨_, users⟩, _, ⟨hu, rfl⟩, _, _, rfl, _, rfl⟩ := h
    obtain ⟨user₂, hf₂, hg, rfl, rfl⟩ := Table.updateAt_eq_some.mp hu
    refine .inr ⟨user₂, hf ▸ hf₂, by simpa using hg, ?_⟩
    simp [Db.post, UserRow.posted, adjustmentRow]

theorem verdictOf_credit_pos {payment : StarPaymentInput} {payer : ℕ} {tokens : ℤ}
    (h : verdictOf payment payer = .credit tokens) : 0 < tokens := by
  simp only [verdictOf] at h
  split at h
  · simp at h
  · split at h
    · simp at h
    · rename_i pack hpack
      split at h
      · simp at h
      split at h
      · simp at h
      simp only [Verdict.credit.injEq] at h
      subst h
      exact starPackageOf_tokens_pos hpack

/-- **What a credit can do.** -/
theorem creditStarPayment_ok {payment : StarPaymentInput} {res : StarPaymentCredit}
    (h : (creditStarPayment payment).run db = .ok (res, db')) :
    db' = db ∨ ∃ t, db' = { db with starPayments := t } ∨
      ∃ user tokens, db.users.find? payment.userId = some user ∧ 0 < tokens ∧
        db' = { db.post user (purchaseRow payment tokens) with starPayments := t } := by
  simp only [creditStarPayment, Tx.run_bind_eq_ok, Tx.run_get_eq_ok] at h
  obtain ⟨_, _, ⟨rfl, rfl⟩, h⟩ := h
  cases hf : db.users.find? payment.userId with
  | none =>
    simp only [hf, StateT.run_pure, Tx.run_pure_eq_ok] at h
    exact .inl h.2.symm
  | some user =>
    simp only [hf] at h
    split at h
    · simp only [Tx.run_bind_eq_ok, DbTx.run_demand_eq_ok, StateT.run_pure, Tx.run_pure_eq_ok] at h
      obtain ⟨_, _, ⟨_, rfl⟩, _, rfl⟩ := h
      exact .inl rfl
    · rename_i t _
      refine .inr ⟨t, ?_⟩
      simp only [Tx.run_bind_eq_ok, Tx.run_set_eq_ok] at h
      obtain ⟨_, _, rfl, h⟩ := h
      split at h
      · simp only [StateT.run_pure, Tx.run_pure_eq_ok] at h
        exact .inl h.2.symm
      · rename_i tokens hverdict
        simp only [creditTokens, Tx.run_bind_eq_ok, DbTx.run_write_eq_ok, Tx.run_get_eq_ok,
          DbTx.run_demand_eq_ok, Tx.run_set_eq_ok, StateT.run_pure, Tx.run_pure_eq_ok] at h
        obtain ⟨_, _, rfl, _, _, ⟨rfl, rfl⟩, ⟨_, users⟩, _, ⟨hu, rfl⟩, _, _, rfl, _, rfl⟩ := h
        obtain ⟨user₂, hf₂, _, rfl, rfl⟩ := Table.updateAt_eq_some.mp hu
        refine .inr ⟨user₂, tokens, hf ▸ hf₂, verdictOf_credit_pos hverdict, ?_⟩
        simp [Db.post, UserRow.posted, purchaseRow]

/-- **What a refund can do.**  A reserve held by a live intent is never touched. -/
theorem recordStarRefund_ok {now : UnixMs} {input : StarRefundInput} {res : StarRefundRecord}
    (h : (recordStarRefund now input).run db = .ok (res, db')) :
    db' = db ∨ ∃ t, db' = { db with starPayments := t } ∨
      ∃ payment user taken, db.users.find? payment.userId = some user ∧ 0 < taken ∧
        user.tokenReserved ≤ user.tokenBalance - taken ∧
        db' = { db.post user (refundRow payment taken) with starPayments := t } := by
  simp only [recordStarRefund, Tx.run_bind_eq_ok, Tx.run_get_eq_ok] at h
  obtain ⟨_, _, ⟨rfl, rfl⟩, h⟩ := h
  cases hf : db.starPayments.find? input.telegramPaymentChargeId with
  | none =>
    simp only [hf, StateT.run_pure, Tx.run_pure_eq_ok] at h
    exact .inl h.2.symm
  | some payment =>
    simp only [hf, Tx.run_bind_eq_ok, DbTx.run_demand_eq_ok] at h
    obtain ⟨user, _, ⟨hu, rfl⟩, h⟩ := h
    split at h
    · simp only [StateT.run_pure, Tx.run_pure_eq_ok] at h
      exact .inl h.2.symm
    split at h
    · simp only [StateT.run_pure, Tx.run_pure_eq_ok] at h
      exact .inl h.2.symm
    simp only [Tx.run_bind_eq_ok, Tx.run_get_eq_ok, DbTx.run_demand_eq_ok, Tx.run_set_eq_ok,
      StateT.run_pure, Tx.run_pure_eq_ok] at h
    obtain ⟨_, db₁, htake, _, _, ⟨rfl, rfl⟩, ⟨_, t⟩, _, ⟨_, rfl⟩, _, _, rfl, _, rfl⟩ := h
    refine .inr ⟨t, ?_⟩
    split at htake
    · rename_i hpos
      simp only [takeTokens, Tx.run_bind_eq_ok, DbTx.run_write_eq_ok, Tx.run_get_eq_ok,
        DbTx.run_demand_eq_ok, Tx.run_set_eq_ok, StateT.run_pure, Tx.run_pure_eq_ok] at htake
      obtain ⟨_, _, rfl, _, _, ⟨rfl, rfl⟩, ⟨_, users⟩, _, ⟨hup, rfl⟩, _, _, rfl, _, rfl⟩ := htake
      obtain ⟨user₂, hf₂, hg, rfl, rfl⟩ := Table.updateAt_eq_some.mp hup
      refine .inr ⟨payment, user₂, refundTaken payment user, hf₂, hpos, by simpa using hg, ?_⟩
      simp [Db.post, UserRow.posted, refundRow, sub_eq_add_neg]
    · simp only [StateT.run_pure, Tx.run_pure_eq_ok] at htake
      obtain ⟨_, rfl⟩ := htake
      exact .inl rfl

end Specs

end Binarius
