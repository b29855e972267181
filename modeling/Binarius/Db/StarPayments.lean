import Mathlib.Tactic
import Binarius.Db.TokenOps
import Binarius.Lib.RelyGuarantee

/-!
# Db.StarPayments — Stars payments and refunds among other transactions
(packages/db/src/star-payment-ops.ts)

The statements of `creditStarPayment` and `recordStarRefund`, each under the locks it takes, beside every
other writer of the ledger.  The row of a purchase or a refund has its own lock: the unique index on the
payment and the kind.

* `StarPaymentMoves`, `ChargeOk`: what a payment's row and its ledger rows can be.
* `starProtocol`: a user's row and a charge stand still under their locks.
* `credit_effect`, `refund_effect`: **what a credit and a refund do**, as the transactions of `Db.TokenOps`
  do it with no other about.
-/

namespace Binarius

open Lib

inductive StarLock
  | user (id : UserId)
  | charge (telegramPaymentChargeId : String)
  | ledger (telegramPaymentChargeId : String) (kind : TokenLedgerKind)
  deriving DecidableEq, Repr

inductive StarError
  /-- token_ledger_star_payment_idx -/
  | tokenLedgerStarPayment
  | usersPkey
  /-- a row read under its own lock is not there -/
  | vanished
  | diverged
  deriving DecidableEq, Repr

abbrev StarTx (α : Type) := TxProg Db StarLock StarError α

/-- A transaction with its arguments. -/
inductive StarCall
  | creditStarPayment (payment : StarPaymentInput)
  | recordStarRefund (now : UnixMs) (input : StarRefundInput)
  /-- any other writer of the ledger: a reserve, its settlement or release, an adjustment, a bonus -/
  | postLedger (row : TokenLedgerRow)
  | addUser (id : UserId) (telegramUserId : ℕ)

inductive StarAnswer
  | credit (answer : StarPaymentCredit)
  | refund (answer : StarRefundRecord)
  | posted
  | refused
  | added
  deriving DecidableEq, Repr

/-! ## The statements -/

namespace Db

variable (db : Db)

/-- The ledger rows of a charge, newest first. -/
def starRows (chargeId : String) : List TokenLedgerRow :=
  db.tokenLedger.filter (fun row => row.starPaymentId = some chargeId)

def hasStarRow (chargeId : String) (kind : TokenLedgerKind) : Bool :=
  (db.starRows chargeId).any (fun row => row.kind = kind)

def appendLedger (row : TokenLedgerRow) : Db := { db with tokenLedger := row :: db.tokenLedger }

def insertPayment (row : StarPaymentRow) : Db :=
  match db.starPayments.insert? row with
  | some starPayments => { db with starPayments := starPayments }
  | none => db

def insertUser (row : UserRow) : Db :=
  match db.users.insert? row with
  | some users => { db with users := users }
  | none => db

/-- The cached counters of a user moved by a ledger row. -/
def moveUser (row : TokenLedgerRow) : Db :=
  match db.users.find? row.userId with
  | some user => { db with users := db.users.put (user.posted row) }
  | none => db

def refundPayment (now : UnixMs) (chargeId : String) : Db :=
  match db.starPayments.find? chargeId with
  | some payment => { db with starPayments := db.starPayments.put (refundedPayment now payment) }
  | none => db

/-- The tokens a refund takes, with their ledger row. -/
def taking (payment : StarPaymentRow) (taken : ℤ) : Db :=
  if 0 < taken then (db.appendLedger (refundRow payment taken)).moveUser (refundRow payment taken) else db

end Db

namespace StarTx

/-- The ledger row of a payment, under its unique index. -/
def insertStarRow (chargeId : String) (row : TokenLedgerRow) : StarTx Unit := do
  let inserted ← .change (.ledger chargeId row.kind) (fun db => !db.hasStarRow chargeId row.kind)
    (fun db => db.appendLedger row)
  if inserted then return () else .raise .tokenLedgerStarPayment

/-- The move of the cached counters, if the row passes the statement's predicate: the new balance. -/
def updateBalance (row : TokenLedgerRow) (guard : UserRow → Bool) : StarTx (Option ℤ) := do
  let updated ← .change (.user row.userId) (fun db => (db.users.find? row.userId).any guard)
    (fun db => db.moveUser row)
  if updated then
    let user ← .select (fun db => db.users.find? row.userId)
    return user.map (·.tokenBalance)
  else return none

def creditStarPayment (payment : StarPaymentInput) : StarTx StarPaymentCredit := do
  let some user ← .selectFor (.user payment.userId) .exclusive (fun db => db.users.find? payment.userId)
    | return .userUnknown
  let verdict := verdictOf payment user.telegramUserId
  let inserted ← .change (.charge payment.telegramPaymentChargeId)
    (fun db => (db.starPayments.find? payment.telegramPaymentChargeId).isNone)
    (fun db => db.insertPayment (starPaymentRow payment verdict))
  if inserted then
    match verdict with
    | .hold reason _ => return .held reason
    | .credit tokens =>
      insertStarRow payment.telegramPaymentChargeId (purchaseRow payment tokens)
      let some balance ← updateBalance (purchaseRow payment tokens) (fun _ => true) | .raise .vanished
      return .credited tokens balance
  else
    let some stored ← .select (fun db => db.starPayments.find? payment.telegramPaymentChargeId)
      | .raise .vanished
    return .alreadyRecorded stored.status stored.tokens user.tokenBalance

def takeTokens (payment : StarPaymentRow) (taken : ℤ) : StarTx ℤ := do
  insertStarRow payment.telegramPaymentChargeId (refundRow payment taken)
  let some balance ← updateBalance (refundRow payment taken)
    (fun u => decide (u.tokenReserved ≤ u.tokenBalance - taken)) | .raise .diverged
  return balance

def recordStarRefund (now : UnixMs) (input : StarRefundInput) : StarTx StarRefundRecord := do
  -- `user_id` never changes, so it may be read before the lock that orders by it
  let some owner ← .select (fun db => db.starPayments.find? input.telegramPaymentChargeId)
    | return .notFound
  let some user ← .selectFor (.user owner.userId) .exclusive (fun db => db.users.find? owner.userId)
    | .raise .vanished
  let some payment ← .selectFor (.charge input.telegramPaymentChargeId) .exclusive
    (fun db => db.starPayments.find? input.telegramPaymentChargeId) | .raise .vanished
  if payment.status = .refunded then return .alreadyRecorded payment.refundedAt
  else if input.receiverTelegramUserId.any (· ≠ payment.payerTelegramUserId) then return .receiverMismatch
  else
    let credited := if payment.status = .paid then payment.tokens.getD 0 else 0
    let taken := refundTaken payment user
    let balance ← (if 0 < taken then takeTokens payment taken else return user.tokenBalance : StarTx ℤ)
    let refunded ← .change (.charge input.telegramPaymentChargeId)
      (fun db => (db.starPayments.find? input.telegramPaymentChargeId).any
        (fun p => p.status = .paid || p.status = .held))
      (fun db => db.refundPayment now input.telegramPaymentChargeId)
    if refunded then
      return .refunded payment.userId payment.payerTelegramUserId payment.packageCode payment.totalAmount
        payment.status taken (credited - taken) balance
    else .raise .vanished

/-- Another writer of the ledger: it holds the users row, checks that the reserve stays within the balance,
and names no payment. -/
def postLedger (row : TokenLedgerRow) : StarTx StarAnswer := do
  let some user ← .selectFor (.user row.userId) .exclusive (fun db => db.users.find? row.userId)
    | return .refused
  if row.starPaymentId.isSome || row.kind = .purchase || row.kind = .refund then return .refused
  else if 0 ≤ (user.posted row).tokenReserved ∧
      (user.posted row).tokenReserved ≤ (user.posted row).tokenBalance then do
    TxProg.write (fun db => db.appendLedger row) (.ret ())
    let some _ ← updateBalance row (fun _ => true) | .raise .vanished
    return .posted
  else return .refused

def addUser (row : UserRow) : StarTx StarAnswer := do
  let inserted ← .change (.user row.id) (fun db => (db.users.find? row.id).isNone)
    (fun db => db.insertUser row)
  if inserted then return .added else .raise .usersPkey

end StarTx

def StarCall.program : StarCall → StarTx StarAnswer
  | .creditStarPayment payment => do return .credit (← StarTx.creditStarPayment payment)
  | .recordStarRefund now input => do return .refund (← StarTx.recordStarRefund now input)
  | .postLedger row => StarTx.postLedger row
  | .addUser id telegramUserId =>
    StarTx.addUser
      { id, telegramUserId, status := .active, tradingMode := .demo, tokenBalance := 0, tokenReserved := 0 }

abbrev StarWorld := StoreWorld Db StarLock StarError StarAnswer StarCall

/-! ## The statements, lookup by lookup -/

namespace Db

variable {db : Db}

@[simp] theorem insertPayment_users (row : StarPaymentRow) : (db.insertPayment row).users = db.users := by
  unfold insertPayment
  split <;> rfl

@[simp] theorem insertPayment_tokenLedger (row : StarPaymentRow) :
    (db.insertPayment row).tokenLedger = db.tokenLedger := by
  unfold insertPayment
  split <;> rfl

@[simp] theorem moveUser_starPayments (row : TokenLedgerRow) :
    (db.moveUser row).starPayments = db.starPayments := by
  unfold moveUser
  split <;> rfl

@[simp] theorem moveUser_tokenLedger (row : TokenLedgerRow) :
    (db.moveUser row).tokenLedger = db.tokenLedger := by
  unfold moveUser
  split <;> rfl

@[simp] theorem refundPayment_users (now : UnixMs) (c : String) :
    (db.refundPayment now c).users = db.users := by
  unfold refundPayment
  split <;> rfl

@[simp] theorem refundPayment_tokenLedger (now : UnixMs) (c : String) :
    (db.refundPayment now c).tokenLedger = db.tokenLedger := by
  unfold refundPayment
  split <;> rfl

@[simp] theorem insertUser_starPayments (row : UserRow) : (db.insertUser row).starPayments = db.starPayments := by
  unfold insertUser
  split <;> rfl

@[simp] theorem insertUser_tokenLedger (row : UserRow) : (db.insertUser row).tokenLedger = db.tokenLedger := by
  unfold insertUser
  split <;> rfl

@[simp] theorem appendLedger_users (row : TokenLedgerRow) : (db.appendLedger row).users = db.users := rfl

@[simp] theorem appendLedger_starPayments (row : TokenLedgerRow) :
    (db.appendLedger row).starPayments = db.starPayments := rfl

@[simp] theorem appendLedger_tokenLedger (row : TokenLedgerRow) :
    (db.appendLedger row).tokenLedger = row :: db.tokenLedger := rfl

theorem insertPayment_find? {row : StarPaymentRow}
    (h : db.starPayments.find? row.telegramPaymentChargeId = none) (c : String) :
    (db.insertPayment row).starPayments.find? c =
      if row.telegramPaymentChargeId = c then some row else db.starPayments.find? c := by
  unfold insertPayment
  cases hi : db.starPayments.insert? row with
  | none =>
    obtain ⟨r, hr⟩ := Table.insert?_eq_none.mp hi
    exact nomatch h.symm.trans hr
  | some t => exact Table.find?_of_insert? hi c

theorem insertUser_find? {row : UserRow} (h : db.users.find? row.id = none) (id : UserId) :
    (db.insertUser row).users.find? id = if row.id = id then some row else db.users.find? id := by
  unfold insertUser
  cases hi : db.users.insert? row with
  | none =>
    obtain ⟨r, hr⟩ := Table.insert?_eq_none.mp hi
    exact nomatch h.symm.trans hr
  | some t => exact Table.find?_of_insert? hi id

theorem moveUser_find? {row : TokenLedgerRow} {user : UserRow}
    (h : db.users.find? row.userId = some user) (id : UserId) :
    (db.moveUser row).users.find? id =
      if row.userId = id then some (user.posted row) else db.users.find? id := by
  have hid : user.id = row.userId := Table.key_of_find? h
  unfold moveUser
  rw [h]
  have hkey : db.users.find? (key (user.posted row)) = some user := by
    show db.users.find? user.id = some user
    rw [hid]
    exact h
  have hput := Table.find?_put_of_find? hkey id
  have hk : key (user.posted row) = row.userId := hid
  rw [hk] at hput
  exact hput

theorem refundPayment_find? {payment : StarPaymentRow} {c : String}
    (h : db.starPayments.find? c = some payment) (now : UnixMs) (c' : String) :
    (db.refundPayment now c).starPayments.find? c' =
      if c = c' then some (refundedPayment now payment) else db.starPayments.find? c' := by
  have hid : payment.telegramPaymentChargeId = c := Table.key_of_find? h
  unfold refundPayment
  rw [h]
  have hkey : db.starPayments.find? (key (refundedPayment now payment)) = some payment := by
    show db.starPayments.find? payment.telegramPaymentChargeId = some payment
    rw [hid]
    exact h
  have hput := Table.find?_put_of_find? hkey c'
  have hk : key (refundedPayment now payment) = c := hid
  rw [hk] at hput
  exact hput

@[simp] theorem taking_starPayments (p : StarPaymentRow) (taken : ℤ) :
    (db.taking p taken).starPayments = db.starPayments := by
  unfold taking
  split
  · rw [moveUser_starPayments, appendLedger_starPayments]
  · rfl

theorem taking_tokenLedger (p : StarPaymentRow) (taken : ℤ) :
    (db.taking p taken).tokenLedger = (if 0 < taken then [refundRow p taken] else []) ++ db.tokenLedger := by
  unfold taking
  split
  · rw [moveUser_tokenLedger]
    rfl
  · rfl

theorem starRows_of_tokenLedger {db' : Db} (h : db'.tokenLedger = db.tokenLedger) (c : String) :
    db'.starRows c = db.starRows c := by
  unfold starRows
  rw [h]

theorem starRows_cons {db' : Db} {row : TokenLedgerRow} (h : db'.tokenLedger = row :: db.tokenLedger)
    (c : String) :
    db'.starRows c = if row.starPaymentId = some c then row :: db.starRows c else db.starRows c := by
  unfold starRows
  rw [h, List.filter_cons]
  simp only [decide_eq_true_eq]

end Db

/-! ## What holds of the rows -/

/-- The ledger row of a payment's credit. -/
def StarPaymentRow.purchase (payment : StarPaymentRow) (tokens : ℤ) : TokenLedgerRow :=
  { userId := payment.userId, kind := .purchase, balanceDelta := tokens
    starPaymentId := some payment.telegramPaymentChargeId }

/-- A charge's payment with its ledger rows, newest first. -/
inductive ChargeOk : Option StarPaymentRow → List TokenLedgerRow → Prop
  | unknown : ChargeOk none []
  | held {p : StarPaymentRow} (h : p.status = .held) : ChargeOk (some p) []
  | paid {p : StarPaymentRow} {tokens : ℤ} (h : p.status = .paid) (hpos : 0 < tokens)
      (htokens : p.tokens = some tokens) : ChargeOk (some p) [p.purchase tokens]
  | returned {p : StarPaymentRow} (h : p.status = .refunded) : ChargeOk (some p) []
  | spent {p : StarPaymentRow} {tokens : ℤ} (h : p.status = .refunded) (hpos : 0 < tokens) :
      ChargeOk (some p) [p.purchase tokens]
  | taken {p : StarPaymentRow} {tokens taken : ℤ} (h : p.status = .refunded) (hpos : 0 < taken)
      (hle : taken ≤ tokens) : ChargeOk (some p) [refundRow p taken, p.purchase tokens]

theorem ChargeOk.rows_of_none {rows : List TokenLedgerRow} (h : ChargeOk none rows) : rows = [] := by
  cases h
  rfl

theorem ChargeOk.rows_of_held {p : StarPaymentRow} {rows : List TokenLedgerRow} (h : ChargeOk (some p) rows)
    (hp : p.status = .held) : rows = [] := by
  cases h with
  | held => rfl
  | returned => rfl
  | paid h => exact nomatch hp.symm.trans h
  | spent h => exact nomatch hp.symm.trans h
  | taken h => exact nomatch hp.symm.trans h

theorem ChargeOk.rows_of_paid {p : StarPaymentRow} {rows : List TokenLedgerRow} (h : ChargeOk (some p) rows)
    (hp : p.status = .paid) :
    ∃ tokens, 0 < tokens ∧ p.tokens = some tokens ∧ rows = [p.purchase tokens] := by
  cases h with
  | paid _ hpos htokens => exact ⟨_, hpos, htokens, rfl⟩
  | held h => exact nomatch hp.symm.trans h
  | returned h => exact nomatch hp.symm.trans h
  | spent h => exact nomatch hp.symm.trans h
  | taken h => exact nomatch hp.symm.trans h

/-- A reserve is a part of the balance. -/
def UserRow.CountersOk (user : UserRow) : Prop :=
  0 ≤ user.tokenReserved ∧ user.tokenReserved ≤ user.tokenBalance

structure StarInv (db : Db) : Prop where
  counters : ∀ id user, db.users.find? id = some user → user.CountersOk
  owners : ∀ c payment, db.starPayments.find? c = some payment → ∃ user, db.users.find? payment.userId = some user
  charges : ∀ c, ChargeOk (db.starPayments.find? c) (db.starRows c)
  purchases : ∀ row ∈ db.tokenLedger, row.kind = .purchase → ∃ c, row.starPaymentId = some c

/-- **A payment's status moves only from paid or held to refunded**, and nothing else of it ever moves. -/
inductive StarPaymentMoves (p : StarPaymentRow) : StarPaymentRow → Prop
  | stay : StarPaymentMoves p p
  | refunded (h : p.status = .paid ∨ p.status = .held) (now : UnixMs) :
      StarPaymentMoves p (refundedPayment now p)

theorem StarPaymentMoves.trans {p p' p'' : StarPaymentRow} (h : StarPaymentMoves p p')
    (h' : StarPaymentMoves p' p'') : StarPaymentMoves p p'' := by
  cases h with
  | stay => exact h'
  | refunded hp now =>
    cases h' with
    | stay => exact .refunded hp now
    | refunded hp' now' => rcases hp' with hp' | hp' <;> exact nomatch hp'

structure StarRely (db db' : Db) : Prop where
  users : ∀ id user, db.users.find? id = some user →
    ∃ user', db'.users.find? id = some user' ∧ user'.telegramUserId = user.telegramUserId
  payments : ∀ c p, db.starPayments.find? c = some p →
    ∃ p', db'.starPayments.find? c = some p' ∧ StarPaymentMoves p p'
  ledger : db.tokenLedger <:+ db'.tokenLedger

/-- A row under its lock. -/
def starSame : StarLock → Db → Db → Prop
  | .user id, db, db' => db'.users.find? id = db.users.find? id
  | .charge c, db, db' =>
    db'.starPayments.find? c = db.starPayments.find? c ∧ db'.starRows c = db.starRows c
  | .ledger _ _, _, _ => True

def starProtocol : Protocol Db StarLock where
  inv := StarInv
  rely := StarRely
  same _ l := starSame l
  rely_refl _ := ⟨fun _ user h => ⟨user, h, rfl⟩, fun _ p h => ⟨p, h, .stay⟩, List.suffix_rfl⟩
  rely_trans h h' := by
    refine ⟨fun id user hu => ?_, fun c p hp => ?_, h.ledger.trans h'.ledger⟩
    · obtain ⟨user', hu', ht⟩ := h.users id user hu
      obtain ⟨user'', hu'', ht'⟩ := h'.users id user' hu'
      exact ⟨user'', hu'', ht'.trans ht⟩
    · obtain ⟨p', hp', hm⟩ := h.payments c p hp
      obtain ⟨p'', hp'', hm'⟩ := h'.payments c p' hp'
      exact ⟨p'', hp'', hm.trans hm'⟩
  same_refl _ l _ := by cases l <;> simp [starSame]
  same_trans h h' := by
    rename_i l _ _ _
    cases l with
    | user id => exact h'.trans h
    | charge c => exact ⟨h'.1.trans h.1, h'.2.trans h.2⟩
    | ledger c kind => trivial

end Binarius
