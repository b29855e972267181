import Mathlib.Tactic
import Binarius.Db.TradeIntentOps.Create
import Binarius.Db.TradeIntentOps.Settle
import Binarius.Db.TokenOps
import Binarius.Lib.Runs

/-!
# Db.Ledger — the token ledger and its cached counters, over any run of committed transactions

`Txn` is a transaction that touches users, intents or the ledger; `Txn.elsewhere` is any commit that
touches none of them.

* `Books`: the three tables the invariant speaks about, and `Books.Step`, the five things a
  transaction can do to them.
* `Txn.steps_commit`: every commit is a run of such steps.
* `Books.Inv.step`: each step keeps the invariant; `inv_commitAll`: so does every run of commits.
* `ledger_invariant`: the invariant over every run from users with nothing.
-/

namespace Binarius

open Lib

/-! ## The transactions -/

/-- The tables no ledger transaction depends on but by reading them. -/
structure Surroundings where
  brokerAccounts : Table BrokerAccountRow
  brokerBalanceSnapshots : Table BalanceSnapshotRow
  tradingSessions : Table TradingSessionRow
  tradingSwitch : Option Bool
  outboxEvents : Table OutboxEventRow
  brokerTrades : Table BrokerTradeRow

def Db.withSurroundings (db : Db) (s : Surroundings) : Db :=
  { db with
    brokerAccounts := s.brokerAccounts
    brokerBalanceSnapshots := s.brokerBalanceSnapshots
    tradingSessions := s.tradingSessions
    tradingSwitch := s.tradingSwitch
    outboxEvents := s.outboxEvents
    brokerTrades := s.brokerTrades }

def Db.surroundings (db : Db) : Surroundings where
  brokerAccounts := db.brokerAccounts
  brokerBalanceSnapshots := db.brokerBalanceSnapshots
  tradingSessions := db.tradingSessions
  tradingSwitch := db.tradingSwitch
  outboxEvents := db.outboxEvents
  brokerTrades := db.brokerTrades

/-- A user who signs up: no token, no reserve. -/
def newUser (id : UserId) (telegramUserId : ℕ) : UserRow :=
  { id := id, telegramUserId := telegramUserId, status := .active, tradingMode := .demo
    tokenBalance := 0, tokenReserved := 0 }

def addUser (id : UserId) (telegramUserId : ℕ) : DbTx Unit := do
  let db ← get
  let users ← DbTx.demand (db.users.insert? (newUser id telegramUserId)) .vanished
  set { db with users := users }

/-- A change of a user's status or mode. -/
def editUser (id : UserId) (status : UserStatus) (mode : TradeMode) : DbTx Unit := do
  let db ← get
  let (_, users) ← DbTx.demand
    (db.users.updateAt id (fun _ => true) (fun u => { u with status := status, tradingMode := mode }))
    .vanished
  set { db with users := users }

/-- A transaction with its arguments. -/
inductive Txn
  | createTradeIntent (now : UnixMs) (id : IntentId) (input : CreateTradeIntentRequest)
      (session : Option IntentSession) (options : CreateTradeIntentOptions)
  | takeIntent (now : UnixMs) (o : TakeIntentOptions)
  | rejectIntent (now : UnixMs) (o : RejectIntentOptions)
  | markIntentUnknown (now : UnixMs) (o : MarkUnknownOptions)
  | markIntentAccepted (now : UnixMs) (o : MarkAcceptedOptions)
  | settleIntent (now : UnixMs) (o : SettleIntentOptions)
  | startReconciling (now : UnixMs) (id : IntentId) (expectedVersion : ℕ)
  | claimReconciling (now : UnixMs) (id : IntentId) (retryMs : ℤ)
  | concludeReconciled (now : UnixMs) (id : IntentId) (expectedVersion : ℕ) (trade : BrokerTrade)
  | markIntentManualReview (now : UnixMs) (id : IntentId) (expectedVersion : ℕ)
      (reason : TradeIntentFailureReason)
  | haltAccountForManualReview (now : UnixMs) (id : IntentId) (expectedVersion : ℕ)
      (reason : AccountHaltReason)
  | adjustTokens (isControl : Char → Bool) (input : AdjustTokensInput)
  | creditStarPayment (payment : StarPaymentInput)
  | recordStarRefund (now : UnixMs) (input : StarRefundInput)
  | addUser (id : UserId) (telegramUserId : ℕ)
  | editUser (id : UserId) (status : UserStatus) (mode : TradeMode)
  | elsewhere (s : Surroundings)

/-- What the transaction leaves when it ends: its own state, or the old one on a rollback. -/
def Txn.commit (db : Db) : Txn → Db
  | .createTradeIntent now id input session options =>
    (createInTransaction now id input session options).commit db
  | .takeIntent now o => (Binarius.takeIntent now o).commit db
  | .rejectIntent now o => (Binarius.rejectIntent now o).commit db
  | .markIntentUnknown now o => (Binarius.markIntentUnknown now o).commit db
  | .markIntentAccepted now o => (Binarius.markIntentAccepted now o).commit db
  | .settleIntent now o => (Binarius.settleIntent now o).commit db
  | .startReconciling now id v => (Binarius.startReconciling now id v).commit db
  | .claimReconciling now id retryMs => (Binarius.claimReconciling now id retryMs).commit db
  | .concludeReconciled now id v trade => (Binarius.concludeReconciled now id v trade).commit db
  | .markIntentManualReview now id v reason =>
    (Binarius.markIntentManualReview now id v reason).commit db
  | .haltAccountForManualReview now id v reason =>
    (Binarius.haltAccountForManualReview now id v reason).commit db
  | .adjustTokens isControl input => (Binarius.adjustTokens isControl input).commit db
  | .creditStarPayment payment => (Binarius.creditStarPayment payment).commit db
  | .recordStarRefund now input => (Binarius.recordStarRefund now input).commit db
  | .addUser id telegramUserId => (Binarius.addUser id telegramUserId).commit db
  | .editUser id status mode => (Binarius.editUser id status mode).commit db
  | .elsewhere s => db.withSurroundings s

/-- The database after a run of transactions, in the order they commit. -/
def commitAll (db : Db) (ts : List Txn) : Db := run Txn.commit db ts

/-! ## The books -/

/-- Users, intents and the ledger. -/
structure Books where
  users : Table UserRow
  intents : Table TradeIntentRow
  ledger : List TokenLedgerRow

def Db.books (db : Db) : Books := ⟨db.users, db.tradeIntents, db.tokenLedger⟩

namespace Books

/-- One column of a user's ledger rows, summed. -/
def ledgerSum (b : Books) (column : TokenLedgerRow → ℤ) (userId : UserId) : ℤ :=
  (b.ledger.map (fun e => if e.userId = userId then column e else 0)).sum

/-- The tokens a row reserves for a user: none once it is terminal. -/
def liveTokens (userId : UserId) (row : TradeIntentRow) : ℤ :=
  if row.userId = userId ∧ row.status.terminal = false then row.tokensReserved else 0

def isReserveOf (id : IntentId) (e : TokenLedgerRow) : Bool := e.kind = .reserve && e.intentId = some id

def isTerminalRowOf (id : IntentId) (e : TokenLedgerRow) : Bool :=
  (e.kind = .release || e.kind = .settle) && e.intentId = some id

/-- A ledger row and the move of its user's counters. -/
def post (b : Books) (user : UserRow) (row : TokenLedgerRow) : Books :=
  { b with
    ledger := row :: b.ledger
    users := b.users.put (user.posted row) }

/-- The five things a transaction can do to the books. -/
inductive Step : Books → Books → Prop
  /-- a live intent is written, and stays live with its reserve -/
  | move {b : Books} (row row' : TradeIntentRow) (hrow : b.intents.find? row'.id = some row)
      (huser : row'.userId = row.userId) (htokens : row'.tokensReserved = row.tokensReserved)
      (hlive : row.status.terminal = false) (hlive' : row'.status.terminal = false) :
      Step b { b with intents := b.intents.put row' }
  /-- a live intent ends: its reserve is zeroed and moved by one ledger row -/
  | finish {b b' : Books} (row row' : TradeIntentRow) (entry : TokenLedgerRow)
      (hrow : b.intents.find? row'.id = some row) (huser : row'.userId = row.userId)
      (hzero : row'.tokensReserved = 0) (hlive : row.status.terminal = false)
      (hterm : row'.status.terminal = true) (hkind : entry.kind = .release ∨ entry.kind = .settle)
      (hintent : entry.intentId = some row'.id) (howner : entry.userId = row.userId)
      (hreserved : entry.reservedDelta = -row.tokensReserved)
      (hbalance : entry.balanceDelta = 0 ∨ entry.balanceDelta = -row.tokensReserved)
      (hmove : 0 < row.tokensReserved → ∃ user, b.users.find? row.userId = some user ∧
        row.tokensReserved ≤ user.tokenReserved ∧
        b' = Books.post { b with intents := b.intents.put row' } user entry) : Step b b'
  /-- a new intent reserves tokens of a user who has them free -/
  | create {b : Books} (row : TradeIntentRow) (entry : TokenLedgerRow) {user : UserRow}
      {intents : Table TradeIntentRow}
      (huser : b.users.find? row.userId = some user) (hpos : 0 < row.tokensReserved)
      (hfree : row.tokensReserved ≤ user.tokenBalance - user.tokenReserved)
      (hlive : row.status.terminal = false) (hinsert : b.intents.insert? row = some intents)
      (hkind : entry.kind = .reserve) (hintent : entry.intentId = some row.id)
      (howner : entry.userId = row.userId) (hreserved : entry.reservedDelta = row.tokensReserved)
      (hbalance : entry.balanceDelta = 0) :
      Step b { Books.post b user entry with intents := intents }
  /-- a balance moves by one ledger row that names no intent -/
  | grant {b : Books} (entry : TokenLedgerRow) {user : UserRow}
      (huser : b.users.find? entry.userId = some user) (hintent : entry.intentId = none)
      (hreserved : entry.reservedDelta = 0)
      (hcover : user.tokenReserved ≤ user.tokenBalance →
        user.tokenReserved ≤ user.tokenBalance + entry.balanceDelta) :
      Step b (Books.post b user entry)
  /-- a user signs up with nothing -/
  | enrol {b : Books} {user : UserRow} {users : Table UserRow} (hzero : user.tokenBalance = 0)
      (hzero' : user.tokenReserved = 0) (hinsert : b.users.insert? user = some users) :
      Step b { b with users := users }
  /-- a user's other columns change -/
  | edit {b : Books} (user user' : UserRow) (huser : b.users.find? user'.id = some user)
      (hbalance : user'.tokenBalance = user.tokenBalance)
      (hreserved : user'.tokenReserved = user.tokenReserved) :
      Step b { b with users := b.users.put user' }

/-- The token ledger invariant. -/
structure Inv (b : Books) : Prop where
  balance : ∀ u ∈ b.users, u.tokenBalance = b.ledgerSum (·.balanceDelta) u.id
  reserved : ∀ u ∈ b.users, u.tokenReserved = b.ledgerSum (·.reservedDelta) u.id
  live : ∀ u ∈ b.users, u.tokenReserved = b.intents.sum (liveTokens u.id)
  bounds : ∀ u ∈ b.users, 0 ≤ u.tokenReserved ∧ u.tokenReserved ≤ u.tokenBalance
  reserveRow : ∀ r ∈ b.intents, b.ledger.countP (isReserveOf r.id) = 1
  terminalRow : ∀ r ∈ b.intents,
    b.ledger.countP (isTerminalRowOf r.id) = if r.status.terminal then 1 else 0
  holds : ∀ r ∈ b.intents, r.status.terminal = false → 0 < r.tokensReserved
  known : ∀ e ∈ b.ledger, ∀ id, e.intentId = some id → ∃ r, b.intents.find? id = some r
  owned : ∀ e ∈ b.ledger, ∃ u, b.users.find? e.userId = some u
  ownedIntents : ∀ r ∈ b.intents, ∃ u, b.users.find? r.userId = some u

variable {b b' : Books}

/-! ### What a ledger row does to the sums -/

@[simp] theorem ledgerSum_cons (users : Table UserRow) (intents : Table TradeIntentRow)
    (e : TokenLedgerRow) (ledger : List TokenLedgerRow) (column : TokenLedgerRow → ℤ) (userId : UserId) :
    ledgerSum ⟨users, intents, e :: ledger⟩ column userId =
      (if e.userId = userId then column e else 0) + ledgerSum ⟨users, intents, ledger⟩ column userId := by
  simp [ledgerSum]

theorem ledgerSum_eq_zero {column : TokenLedgerRow → ℤ} {userId : UserId}
    (h : ∀ e ∈ b.ledger, e.userId ≠ userId) : b.ledgerSum column userId = 0 := by
  refine List.sum_eq_zero (fun x hx => ?_)
  obtain ⟨e, he, rfl⟩ := List.mem_map.mp hx
  exact if_neg (h e he)

/-- What holds of every user after a ledger row holds of the one it moved and of every other. -/
theorem forall_mem_post {user : UserRow} {entry : TokenLedgerRow} {P : UserRow → Prop}
    (huser : b.users.find? user.id = some user) :
    (∀ u ∈ (b.post user entry).users, P u) ↔
      P (user.posted entry) ∧ ∀ u ∈ b.users, u.id ≠ user.id → P u :=
  Table.forall_mem_put (r := user.posted entry) huser

/-- The counters of every user after a ledger row and its move. -/
theorem Inv.post_sums (hb : b.Inv) {user : UserRow} {entry : TokenLedgerRow}
    (huser : b.users.find? entry.userId = some user) :
    ∀ u ∈ (b.post user entry).users,
      u.tokenBalance = (b.post user entry).ledgerSum (·.balanceDelta) u.id ∧
        u.tokenReserved = (b.post user entry).ledgerSum (·.reservedDelta) u.id := by
  have hid : user.id = entry.userId := Table.key_of_find? huser
  have hmem := Table.mem_of_find? huser
  refine (forall_mem_post (hid ▸ huser)).mpr ⟨?_, ?_⟩
  · have h1 := hb.balance user hmem
    have h2 := hb.reserved user hmem
    simp only [post, ledgerSum_cons, UserRow.posted, hid, if_true]
    simp only [hid] at h1 h2
    exact ⟨by rw [h1]; exact add_comm _ _, by rw [h2]; exact add_comm _ _⟩
  · intro u hu hne
    have hne' : entry.userId ≠ u.id := by
      rw [← hid]
      exact fun he => hne he.symm
    simp only [post, ledgerSum_cons, if_neg hne', zero_add]
    exact ⟨hb.balance u hu, hb.reserved u hu⟩

theorem owned_post (hb : b.Inv) {user : UserRow} {entry : TokenLedgerRow}
    (huser : b.users.find? entry.userId = some user) :
    ∀ e ∈ (b.post user entry).ledger, ∃ u, (b.post user entry).users.find? e.userId = some u := by
  intro e he
  rcases List.mem_cons.mp he with rfl | he
  · exact Table.exists_find?_put huser
  · obtain ⟨u, hu⟩ := hb.owned e he
    exact Table.exists_find?_put hu

/-! ### The steps keep the invariant -/

theorem Inv.move (hb : b.Inv) {row row' : TradeIntentRow} (hrow : b.intents.find? row'.id = some row)
    (huser : row'.userId = row.userId) (htokens : row'.tokensReserved = row.tokensReserved)
    (hlive : row.status.terminal = false) (hlive' : row'.status.terminal = false) :
    Inv { b with intents := b.intents.put row' } := by
  have hmem := Table.mem_of_find? hrow
  have hid : row.id = row'.id := Table.key_of_find? hrow
  have hput : b.intents.find? (key row') = some row := hrow
  have hsame : ∀ userId, liveTokens userId row' = liveTokens userId row := by
    intro userId
    simp [liveTokens, huser, htokens, hlive, hlive']
  refine ⟨hb.balance, hb.reserved, ?_, hb.bounds, ?_, ?_, ?_, ?_, hb.owned, ?_⟩
  · intro u hu
    have := hb.live u hu
    show u.tokenReserved = (b.intents.put row').sum (liveTokens u.id)
    rw [Table.sum_put hput, hsame]
    omega
  · refine (Table.forall_mem_put hput).mpr ⟨?_, fun x hx _ => hb.reserveRow x hx⟩
    rw [← hid]
    exact hb.reserveRow row hmem
  · refine (Table.forall_mem_put hput).mpr ⟨?_, fun x hx _ => hb.terminalRow x hx⟩
    rw [hlive', ← hlive, ← hid]
    exact hb.terminalRow row hmem
  · refine (Table.forall_mem_put hput).mpr ⟨?_, fun x hx _ => hb.holds x hx⟩
    intro _
    rw [htokens]
    exact hb.holds row hmem hlive
  · intro e he id hid
    obtain ⟨r, hr⟩ := hb.known e he id hid
    exact Table.exists_find?_put hr
  · refine (Table.forall_mem_put hput).mpr ⟨?_, fun x hx _ => hb.ownedIntents x hx⟩
    rw [huser]
    exact hb.ownedIntents row hmem

theorem Inv.finish (hb : b.Inv) {row row' : TradeIntentRow} {user : UserRow} {entry : TokenLedgerRow}
    (hrow : b.intents.find? row'.id = some row) (huser : row'.userId = row.userId)
    (hlive : row.status.terminal = false) (hterm : row'.status.terminal = true)
    (hkind : entry.kind = .release ∨ entry.kind = .settle)
    (hintent : entry.intentId = some row'.id) (howner : entry.userId = row.userId)
    (hreserved : entry.reservedDelta = -row.tokensReserved)
    (hbalance : entry.balanceDelta = 0 ∨ entry.balanceDelta = -row.tokensReserved)
    (hfound : b.users.find? row.userId = some user) (hle : row.tokensReserved ≤ user.tokenReserved) :
    Inv (Books.post { b with intents := b.intents.put row' } user entry) := by
  have hmem := Table.mem_of_find? hrow
  have hid : row.id = row'.id := Table.key_of_find? hrow
  have hput : b.intents.find? (key row') = some row := hrow
  have hentry : b.users.find? entry.userId = some user := by rw [howner]; exact hfound
  have huid : user.id = row.userId := Table.key_of_find? hfound
  have hkeep : b.users.find? user.id = some user := by rw [huid]; exact hfound
  have hpos := hb.holds row hmem hlive
  have hbound := hb.bounds user (Table.mem_of_find? hfound)
  -- the row's weight leaves the sum of its own user and of no other
  have hsum : ∀ userId, (b.intents.put row').sum (liveTokens userId) =
      b.intents.sum (liveTokens userId) - if row.userId = userId then row.tokensReserved else 0 := by
    intro userId
    rw [Table.sum_put hput]
    by_cases h : row.userId = userId <;> simp [liveTokens, hlive, hterm, h]
  -- no row of the ledger but the new one ends this intent
  have hreserve : isReserveOf row'.id entry = false := by
    rcases hkind with h | h <;> simp [isReserveOf, h]
  have hends : ∀ id, isTerminalRowOf id entry = decide (row'.id = id) := by
    intro id
    rcases hkind with h | h <;> simp [isTerminalRowOf, h, hintent]
  refine ⟨fun u hu => (hb.post_sums hentry u hu).1, fun u hu => (hb.post_sums hentry u hu).2,
    ?_, ?_, ?_, ?_, ?_, ?_, owned_post hb hentry, ?_⟩
  · refine (forall_mem_post hkeep).mpr ⟨?_, ?_⟩
    · have := hb.live user (Table.mem_of_find? hfound)
      show user.tokenReserved + entry.reservedDelta = (b.intents.put row').sum (liveTokens user.id)
      rw [hsum, if_pos huid.symm, hreserved]
      omega
    · intro u hu hne
      have := hb.live u hu
      have hne' : row.userId ≠ u.id := by
        rw [← huid]
        exact fun he => hne he.symm
      show u.tokenReserved = (b.intents.put row').sum (liveTokens u.id)
      rw [hsum, if_neg hne']
      omega
  · refine (forall_mem_post hkeep).mpr ⟨?_, fun u hu _ => hb.bounds u hu⟩
    show 0 ≤ user.tokenReserved + entry.reservedDelta ∧
      user.tokenReserved + entry.reservedDelta ≤ user.tokenBalance + entry.balanceDelta
    omega
  · refine (Table.forall_mem_put hput).mpr ⟨?_, ?_⟩
    · have := hb.reserveRow row hmem
      simp only [post, List.countP_cons, hreserve]
      simpa [hid] using this
    · intro x hx _
      have hx' : isReserveOf x.id entry = false := by
        rcases hkind with h | h <;> simp [isReserveOf, h]
      simpa [post, List.countP_cons, hx'] using hb.reserveRow x hx
  · refine (Table.forall_mem_put hput).mpr ⟨?_, ?_⟩
    · have := hb.terminalRow row hmem
      rw [hlive, hid] at this
      simpa [post, List.countP_cons, hends, hterm] using this
    · intro x hx hne
      have hne' : ¬ row'.id = x.id := fun he => hne he.symm
      simpa [post, List.countP_cons, hends, hne'] using hb.terminalRow x hx
  · refine (Table.forall_mem_put hput).mpr ⟨?_, fun x hx _ => hb.holds x hx⟩
    intro hl
    simp [hterm] at hl
  · intro e he id hid'
    rcases List.mem_cons.mp he with rfl | he
    · rw [hintent, Option.some.injEq] at hid'
      subst hid'
      exact Table.exists_find?_put hrow
    · obtain ⟨r, hr⟩ := hb.known e he id hid'
      exact Table.exists_find?_put hr
  · refine (Table.forall_mem_put hput).mpr ⟨?_, fun x hx _ => ?_⟩
    · rw [huser]
      exact Table.exists_find?_put hfound
    · obtain ⟨u, hu⟩ := hb.ownedIntents x hx
      exact Table.exists_find?_put hu

theorem Inv.create (hb : b.Inv) {row : TradeIntentRow} {user : UserRow} {intents : Table TradeIntentRow}
    {entry : TokenLedgerRow} (huser : b.users.find? row.userId = some user)
    (hpos : 0 < row.tokensReserved)
    (hfree : row.tokensReserved ≤ user.tokenBalance - user.tokenReserved)
    (hlive : row.status.terminal = false) (hinsert : b.intents.insert? row = some intents)
    (hkind : entry.kind = .reserve) (hintent : entry.intentId = some row.id)
    (howner : entry.userId = row.userId) (hreserved : entry.reservedDelta = row.tokensReserved)
    (hbalance : entry.balanceDelta = 0) :
    Inv { Books.post b user entry with intents := intents } := by
  have hentry : b.users.find? entry.userId = some user := by rw [howner]; exact huser
  have huid : user.id = row.userId := Table.key_of_find? huser
  have hkeep : b.users.find? user.id = some user := by rw [huid]; exact huser
  have hfresh := (Table.insert?_eq_some.mp hinsert).1
  have hbound := hb.bounds user (Table.mem_of_find? huser)
  have hsum : ∀ userId, intents.sum (liveTokens userId) =
      (if row.userId = userId then row.tokensReserved else 0) + b.intents.sum (liveTokens userId) := by
    intro userId
    rw [Table.sum_of_insert? hinsert]
    simp [liveTokens, hlive]
  -- a fresh id is named by no row of the ledger
  have hunnamed : ∀ e ∈ b.ledger, e.intentId ≠ some row.id := by
    intro e he hid
    obtain ⟨r, hr⟩ := hb.known e he _ hid
    have : b.intents.find? row.id = none := hfresh
    simp [this] at hr
  have hterminal : ∀ id, isTerminalRowOf id entry = false := by
    intro id
    simp [isTerminalRowOf, hkind]
  have hreserve : ∀ id, isReserveOf id entry = decide (row.id = id) := by
    intro id
    simp [isReserveOf, hkind, hintent]
  refine ⟨fun u hu => (hb.post_sums hentry u hu).1, fun u hu => (hb.post_sums hentry u hu).2,
    ?_, ?_, ?_, ?_, ?_, ?_, owned_post hb hentry, ?_⟩
  · refine (forall_mem_post hkeep).mpr ⟨?_, ?_⟩
    · have := hb.live user (Table.mem_of_find? huser)
      show user.tokenReserved + entry.reservedDelta = intents.sum (liveTokens user.id)
      rw [hsum, if_pos huid.symm, hreserved]
      omega
    · intro u hu hne
      have := hb.live u hu
      have hne' : row.userId ≠ u.id := by
        rw [← huid]
        exact fun he => hne he.symm
      show u.tokenReserved = intents.sum (liveTokens u.id)
      rw [hsum, if_neg hne']
      omega
  · refine (forall_mem_post hkeep).mpr ⟨?_, fun u hu _ => hb.bounds u hu⟩
    show 0 ≤ user.tokenReserved + entry.reservedDelta ∧
      user.tokenReserved + entry.reservedDelta ≤ user.tokenBalance + entry.balanceDelta
    omega
  · refine (Table.forall_mem_of_insert? hinsert).mpr ⟨?_, ?_⟩
    · have hnone : b.ledger.countP (isReserveOf row.id) = 0 := by
        refine List.countP_eq_zero.mpr (fun e he => ?_)
        simp [isReserveOf, hunnamed e he]
      simp [post, hreserve, hnone]
    · intro x hx
      have hne : ¬ row.id = x.id := fun he => Table.find?_eq_none.mp hfresh x hx he.symm
      simpa [post, List.countP_cons, hreserve, hne] using hb.reserveRow x hx
  · refine (Table.forall_mem_of_insert? hinsert).mpr ⟨?_, ?_⟩
    · have hnone : b.ledger.countP (isTerminalRowOf row.id) = 0 := by
        refine List.countP_eq_zero.mpr (fun e he => ?_)
        simp [isTerminalRowOf, hunnamed e he]
      simp [post, hterminal, hnone, hlive]
    · intro x hx
      simpa [post, List.countP_cons, hterminal] using hb.terminalRow x hx
  · exact (Table.forall_mem_of_insert? hinsert).mpr ⟨fun _ => hpos, hb.holds⟩
  · intro e he id hid
    rcases List.mem_cons.mp he with rfl | he
    · rw [hintent, Option.some.injEq] at hid
      subst hid
      exact ⟨row, by rw [Table.find?_of_insert? hinsert]; simp [key]⟩
    · obtain ⟨r, hr⟩ := hb.known e he id hid
      exact Table.exists_find?_of_insert? hinsert hr
  · refine (Table.forall_mem_of_insert? hinsert).mpr ⟨Table.exists_find?_put huser, fun x hx => ?_⟩
    obtain ⟨u, hu⟩ := hb.ownedIntents x hx
    exact Table.exists_find?_put hu

theorem Inv.grant (hb : b.Inv) {user : UserRow} {entry : TokenLedgerRow}
    (huser : b.users.find? entry.userId = some user) (hintent : entry.intentId = none)
    (hreserved : entry.reservedDelta = 0)
    (hcover : user.tokenReserved ≤ user.tokenBalance →
      user.tokenReserved ≤ user.tokenBalance + entry.balanceDelta) :
    Inv (b.post user entry) := by
  have huid : user.id = entry.userId := Table.key_of_find? huser
  have hkeep : b.users.find? user.id = some user := by rw [huid]; exact huser
  have hmem := Table.mem_of_find? huser
  have hnone : ∀ id, isReserveOf id entry = false ∧ isTerminalRowOf id entry = false := by
    intro id
    simp [isReserveOf, isTerminalRowOf, hintent]
  refine ⟨fun u hu => (hb.post_sums huser u hu).1, fun u hu => (hb.post_sums huser u hu).2,
    ?_, ?_, ?_, ?_, hb.holds, ?_, owned_post hb huser, ?_⟩
  · refine (forall_mem_post hkeep).mpr ⟨?_, fun u hu _ => hb.live u hu⟩
    have := hb.live user hmem
    show user.tokenReserved + entry.reservedDelta = b.intents.sum (liveTokens user.id)
    omega
  · refine (forall_mem_post hkeep).mpr ⟨?_, fun u hu _ => hb.bounds u hu⟩
    have hbound := hb.bounds user hmem
    have := hcover hbound.2
    show 0 ≤ user.tokenReserved + entry.reservedDelta ∧
      user.tokenReserved + entry.reservedDelta ≤ user.tokenBalance + entry.balanceDelta
    omega
  · intro r hr
    simpa [post, List.countP_cons, hnone] using hb.reserveRow r hr
  · intro r hr
    simpa [post, List.countP_cons, hnone] using hb.terminalRow r hr
  · intro e he id hid
    rcases List.mem_cons.mp he with rfl | he
    · simp [hintent] at hid
    · exact hb.known e he id hid
  · intro r hr
    obtain ⟨u, hu⟩ := hb.ownedIntents r hr
    exact Table.exists_find?_put hu

theorem Inv.enrol (hb : b.Inv) {user : UserRow} {users : Table UserRow} (hzero : user.tokenBalance = 0)
    (hzero' : user.tokenReserved = 0) (hinsert : b.users.insert? user = some users) :
    Inv { b with users := users } := by
  have hfresh : b.users.find? user.id = none := (Table.insert?_eq_some.mp hinsert).1
  -- neither the ledger nor an intent names the new user
  have hledger : ∀ e ∈ b.ledger, e.userId ≠ user.id := by
    intro e he hid
    obtain ⟨u, hu⟩ := hb.owned e he
    rw [hid, hfresh] at hu
    simp at hu
  have hintents : b.intents.sum (liveTokens user.id) = 0 := by
    refine List.sum_eq_zero (fun x hx => ?_)
    obtain ⟨r, hr, rfl⟩ := List.mem_map.mp hx
    have hne : r.userId ≠ user.id := by
      intro hid
      obtain ⟨u, hu⟩ := hb.ownedIntents r hr
      rw [hid, hfresh] at hu
      simp at hu
    simp [liveTokens, hne]
  refine ⟨?_, ?_, ?_, ?_, hb.reserveRow, hb.terminalRow, hb.holds, hb.known, ?_, ?_⟩
  · exact (Table.forall_mem_of_insert? hinsert).mpr
      ⟨by rw [hzero]; exact (ledgerSum_eq_zero (b := b) hledger).symm, hb.balance⟩
  · exact (Table.forall_mem_of_insert? hinsert).mpr
      ⟨by rw [hzero']; exact (ledgerSum_eq_zero (b := b) hledger).symm, hb.reserved⟩
  · exact (Table.forall_mem_of_insert? hinsert).mpr ⟨by rw [hzero']; exact hintents.symm, hb.live⟩
  · exact (Table.forall_mem_of_insert? hinsert).mpr ⟨by omega, hb.bounds⟩
  · intro e he
    obtain ⟨u, hu⟩ := hb.owned e he
    exact Table.exists_find?_of_insert? hinsert hu
  · intro r hr
    obtain ⟨u, hu⟩ := hb.ownedIntents r hr
    exact Table.exists_find?_of_insert? hinsert hu

theorem Inv.edit (hb : b.Inv) {user user' : UserRow} (huser : b.users.find? user'.id = some user)
    (hbalance : user'.tokenBalance = user.tokenBalance)
    (hreserved : user'.tokenReserved = user.tokenReserved) :
    Inv { b with users := b.users.put user' } := by
  have hmem := Table.mem_of_find? huser
  have hid : user.id = user'.id := Table.key_of_find? huser
  have hput : b.users.find? (key user') = some user := huser
  refine ⟨?_, ?_, ?_, ?_, hb.reserveRow, hb.terminalRow, hb.holds, hb.known, ?_, ?_⟩
  · exact (Table.forall_mem_put hput).mpr
      ⟨by rw [hbalance, ← hid]; exact hb.balance user hmem, fun u hu _ => hb.balance u hu⟩
  · exact (Table.forall_mem_put hput).mpr
      ⟨by rw [hreserved, ← hid]; exact hb.reserved user hmem, fun u hu _ => hb.reserved u hu⟩
  · exact (Table.forall_mem_put hput).mpr
      ⟨by rw [hreserved, ← hid]; exact hb.live user hmem, fun u hu _ => hb.live u hu⟩
  · exact (Table.forall_mem_put hput).mpr
      ⟨by rw [hreserved, hbalance]; exact hb.bounds user hmem, fun u hu _ => hb.bounds u hu⟩
  · intro e he
    obtain ⟨u, hu⟩ := hb.owned e he
    exact Table.exists_find?_put hu
  · intro r hr
    obtain ⟨u, hu⟩ := hb.ownedIntents r hr
    exact Table.exists_find?_put hu

/-- **One step keeps the books.** -/
theorem Inv.step (hb : b.Inv) (h : Step b b') : b'.Inv := by
  cases h with
  | move row row' hrow huser htokens hlive hlive' => exact hb.move hrow huser htokens hlive hlive'
  | finish row row' entry hrow huser _ hlive hterm hkind hintent howner hreserved hbalance hmove =>
    obtain ⟨_, hfound, hle, rfl⟩ := hmove (hb.holds _ (Table.mem_of_find? hrow) hlive)
    exact hb.finish hrow huser hlive hterm hkind hintent howner hreserved hbalance hfound hle
  | create row entry huser hpos hfree hlive hinsert hkind hintent howner hreserved hbalance =>
    exact hb.create huser hpos hfree hlive hinsert hkind hintent howner hreserved hbalance
  | grant entry huser hintent hreserved hcover => exact hb.grant huser hintent hreserved hcover
  | enrol hzero hzero' hinsert => exact hb.enrol hzero hzero' hinsert
  | edit user user' huser hbalance hreserved => exact hb.edit huser hbalance hreserved

/-- Any number of steps keep them too. -/
theorem Inv.steps (hb : b.Inv) (h : Relation.ReflTransGen Step b b') : b'.Inv := by
  induction h with
  | refl => exact hb
  | tail _ hstep ih => exact ih.step hstep

end Books

/-! ## Every transaction is a step or two of the books -/

section Refinement

open Books Relation

variable {now : UnixMs} {db db' : Db}

theorem move_setIntent (row row' : TradeIntentRow) (hrow : db.find row'.id = some row)
    (huser : row'.userId = row.userId) (htokens : row'.tokensReserved = row.tokensReserved)
    (hlive : row.status.terminal = false) (hlive' : row'.status.terminal = false) :
    Step db.books (db.setIntent row').books :=
  Step.move (b := db.books) row row' hrow huser htokens hlive hlive'

theorem finish_of_tokenMove (row row' : TradeIntentRow) (entry : TokenLedgerRow)
    (hrow : db.find row'.id = some row) (huser : row'.userId = row.userId)
    (hzero : row'.tokensReserved = 0) (hlive : row.status.terminal = false)
    (hterm : row'.status.terminal = true) (hkind : entry.kind = .release ∨ entry.kind = .settle)
    (hintent : entry.intentId = some row'.id) (howner : entry.userId = row.userId)
    (hreserved : entry.reservedDelta = -row.tokensReserved)
    (hbalance : entry.balanceDelta = 0 ∨ entry.balanceDelta = -row.tokensReserved)
    (hmove : TokenMove (db.setIntent row') row.userId row.tokensReserved entry db') :
    Step db.books db'.books := by
  refine Step.finish row row' entry hrow huser hzero hlive hterm hkind hintent howner hreserved hbalance ?_
  intro hpos
  rcases hmove with ⟨hnot, _⟩ | ⟨_, user, hfound, hle, rfl⟩
  · exact absurd hpos hnot
  · exact ⟨user, hfound, hle, rfl⟩

theorem step_rejectIntent {o : RejectIntentOptions} {res : Option TradeIntentRow}
    (h : (rejectIntent now o).run db = .ok (res, db')) : ReflTransGen Step db.books db'.books := by
  obtain ⟨_, rfl⟩ | ⟨row, hf, _, hc, _, _, _, hmove⟩ := rejectIntent_ok h
  · exact .refl
  · refine .single (finish_of_tokenMove row (rejectedRow now o.reason row)
      (releaseRow row.userId o.id row.tokensReserved) (Db.find_self hf) rfl rfl
      (not_terminal_of_canTransition hc) rfl (.inl rfl) ?_ rfl rfl (.inl rfl) hmove)
    simp [releaseRow, rejectedRow, Db.find_id hf]

theorem step_settleIntent {o : SettleIntentOptions} {res : Option TradeIntentRow}
    (h : (settleIntent now o).run db = .ok (res, db')) : ReflTransGen Step db.books db'.books := by
  obtain ⟨_, rfl⟩ | ⟨row, db₁, t, hf, _, hc, _, _, hmove, rfl⟩ := settleIntent_ok h
  · exact .refl
  · have hstep : Step db.books db₁.books := by
      refine finish_of_tokenMove row (settledRow now row) (settleRow row.userId o.id row.tokensReserved)
        (Db.find_self hf) rfl rfl (not_terminal_of_canTransition hc) rfl (.inr rfl) ?_ rfl rfl (.inr rfl)
        hmove
      simp [settleRow, settledRow, Db.find_id hf]
    exact .single hstep

theorem step_markIntentAccepted {o : MarkAcceptedOptions} {res : Option TradeIntentRow}
    (h : (markIntentAccepted now o).run db = .ok (res, db')) : ReflTransGen Step db.books db'.books := by
  obtain ⟨_, rfl⟩ | ⟨row, t, hf, _, hc, _, _, _, _, rfl⟩ := markIntentAccepted_ok h
  · exact .refl
  · exact .single (move_setIntent row (acceptedRow now o.transport row) (Db.find_self hf) rfl rfl
      (not_terminal_of_canTransition hc) rfl)

theorem step_concludeReconciled {id : IntentId} {v : ℕ} {trade : BrokerTrade}
    {res : Option TradeIntentRow} (h : (concludeReconciled now id v trade).run db = .ok (res, db')) :
    ReflTransGen Step db.books db'.books := by
  obtain ⟨_, rfl⟩ | ⟨accepted, db₁, ⟨_, hacc⟩, ⟨_, _, rfl⟩ | ⟨closed, settled, _, _, hset⟩⟩ :=
    concludeReconciled_ok h
  · exact .refl
  · exact step_markIntentAccepted hacc
  · exact (step_markIntentAccepted hacc).trans (step_settleIntent hset)

theorem step_createInTransaction {id : IntentId} {input : CreateTradeIntentRequest}
    {session : Option IntentSession} {options : CreateTradeIntentOptions} {res : CreateTradeIntentResult}
    (h : (createInTransaction now id input session options).run db = .ok (res, db')) :
    ReflTransGen Step db.books db'.books := by
  obtain ⟨_, _, _, rfl⟩ | ⟨user, account, t, e, hu, hres, _, hrow, ht, _, rfl, _⟩ :=
    createInTransaction_ok h
  · exact .refl
  · simp only [canReserve, Bool.and_eq_true, decide_eq_true_eq] at hres
    rw [hrow] at ht
    exact .single (Step.create (b := db.books) (queuedIntent now id input session user.id account)
      (reserveRow user.id id) hu (show (0 : ℤ) < tokensPerIntent by decide) hres.1.2 rfl ht rfl rfl rfl rfl rfl)

theorem step_adjustTokens {isControl : Char → Bool} {input : AdjustTokensInput}
    {res : AdjustTokensResult} (h : (adjustTokens isControl input).run db = .ok (res, db')) :
    ReflTransGen Step db.books db'.books := by
  obtain rfl | ⟨user, hu, hcover, rfl⟩ := adjustTokens_ok h
  · exact .refl
  · exact .single (Step.grant (b := db.books) (adjustmentRow input) hu rfl rfl (fun _ => hcover))

theorem step_creditStarPayment {payment : StarPaymentInput} {res : StarPaymentCredit}
    (h : (creditStarPayment payment).run db = .ok (res, db')) :
    ReflTransGen Step db.books db'.books := by
  obtain rfl | ⟨t, rfl | ⟨user, tokens, hu, hpos, rfl⟩⟩ := creditStarPayment_ok h
  · exact .refl
  · exact .refl
  · refine .single (Step.grant (b := db.books) (purchaseRow payment tokens) hu rfl rfl ?_)
    intro hle
    show user.tokenReserved ≤ user.tokenBalance + tokens
    omega

theorem step_recordStarRefund {input : StarRefundInput} {res : StarRefundRecord}
    (h : (recordStarRefund now input).run db = .ok (res, db')) :
    ReflTransGen Step db.books db'.books := by
  obtain rfl | ⟨t, rfl | ⟨payment, user, taken, hu, _, hcover, rfl⟩⟩ := recordStarRefund_ok h
  · exact .refl
  · exact .refl
  · refine .single (Step.grant (b := db.books) (refundRow payment taken) hu rfl rfl ?_)
    intro _
    show user.tokenReserved ≤ user.tokenBalance + -taken
    omega

theorem step_addUser {id : UserId} {telegramUserId : ℕ} {u : Unit}
    (h : (addUser id telegramUserId).run db = .ok (u, db')) : ReflTransGen Step db.books db'.books := by
  simp only [addUser, Tx.run_bind_eq_ok, Tx.run_get_eq_ok, DbTx.run_demand_eq_ok, Tx.run_set_eq_ok] at h
  obtain ⟨_, _, ⟨rfl, rfl⟩, t, _, ⟨ht, rfl⟩, rfl⟩ := h
  exact .single (Step.enrol (b := db.books) rfl rfl ht)

theorem step_editUser {id : UserId} {status : UserStatus} {mode : TradeMode} {u : Unit}
    (h : (editUser id status mode).run db = .ok (u, db')) : ReflTransGen Step db.books db'.books := by
  simp only [editUser, Tx.run_bind_eq_ok, Tx.run_get_eq_ok, DbTx.run_demand_eq_ok, Tx.run_set_eq_ok] at h
  obtain ⟨_, _, ⟨rfl, rfl⟩, ⟨_, t⟩, _, ⟨ht, rfl⟩, rfl⟩ := h
  obtain ⟨user, hf, _, rfl, rfl⟩ := Table.updateAt_eq_some.mp ht
  have hid : user.id = id := Table.key_of_find? hf
  exact .single (Step.edit (b := db.books) user _ (by rw [← hf, ← hid]; rfl) rfl rfl)

theorem step_takeIntent {o : TakeIntentOptions} {res : Option TradeIntentRow}
    (h : (takeIntent now o).run db = .ok (res, db')) : ReflTransGen Step db.books db'.books := by
  obtain ⟨_, rfl⟩ | ⟨row, row', hf, hs, _, _, _, rfl, rfl⟩ := takeIntent_ok h
  · exact .refl
  · exact .single (move_setIntent row _ (Db.find_self hf) rfl rfl (by rw [hs]; rfl) rfl)

theorem step_markIntentUnknown {o : MarkUnknownOptions} {res : Option TradeIntentRow}
    (h : (markIntentUnknown now o).run db = .ok (res, db')) : ReflTransGen Step db.books db'.books := by
  obtain ⟨_, rfl⟩ | ⟨row, row', hf, hs, _, _, rfl, rfl⟩ := markIntentUnknown_ok h
  · exact .refl
  · have hbooks : ∀ (e : OutboxEventRow) (db : Db), (insertEventOrIgnore e db).books = db.books := by
      intro e db
      unfold insertEventOrIgnore
      split <;> rfl
    rw [hbooks]
    exact .single (move_setIntent row _ (Db.find_self hf) rfl rfl (by rw [hs]; rfl) rfl)

theorem step_startReconciling {id : IntentId} {v : ℕ} {res : Option TradeIntentRow}
    (h : (startReconciling now id v).run db = .ok (res, db')) :
    ReflTransGen Step db.books db'.books := by
  obtain ⟨_, rfl⟩ | ⟨row, row', hf, hs, _, _, rfl, rfl⟩ := startReconciling_ok h
  · exact .refl
  · exact .single (move_setIntent row _ (Db.find_self hf) rfl rfl (by rw [hs]; rfl) rfl)

theorem step_claimReconciling {id : IntentId} {retryMs : ℤ} {res : Option TradeIntentRow}
    (h : (claimReconciling now id retryMs).run db = .ok (res, db')) :
    ReflTransGen Step db.books db'.books := by
  obtain ⟨_, rfl⟩ | ⟨row, hf, hs, _, _, rfl⟩ := claimReconciling_ok h
  · exact .refl
  · have hlive : row.status.terminal = false := by rw [hs]; rfl
    exact .single (move_setIntent row (claimed now row) (Db.find_self hf) rfl rfl
      hlive hlive)

theorem step_markIntentManualReview {id : IntentId} {v : ℕ} {reason : TradeIntentFailureReason}
    {res : Option TradeIntentRow}
    (h : (markIntentManualReview now id v reason).run db = .ok (res, db')) :
    ReflTransGen Step db.books db'.books := by
  cases res with
  | none => rw [transitionIntent_none h]
  | some row' =>
    obtain ⟨row, hf, hc, hm, rfl, rfl⟩ := transitionIntent_some h
    obtain ⟨hs, _, _⟩ := TransitionOptions.admits_eq_true.mp hm
    exact .single (move_setIntent row _ (Db.find_self hf) rfl rfl (by rw [hs]; rfl) rfl)

theorem step_haltAccountForManualReview {id : IntentId} {v : ℕ} {reason : AccountHaltReason}
    {res : Option TradeIntentRow}
    (h : (haltAccountForManualReview now id v reason).run db = .ok (res, db')) :
    ReflTransGen Step db.books db'.books := by
  obtain ⟨_, rfl⟩ | ⟨row, account, row', hf, hs, _, _, _, rfl, rfl⟩ := haltAccountForManualReview_ok h
  · exact .refl
  · exact .single (move_setIntent row _ (Db.find_self hf) rfl rfl (by rw [hs]; rfl) rfl)

theorem steps_of_run {α : Type} {t : DbTx α}
    (h : ∀ a db', t.run db = .ok (a, db') → ReflTransGen Step db.books db'.books) :
    ReflTransGen Step db.books (t.commit db).books :=
  Tx.commit_induction (P := fun db' : Db => ReflTransGen Step db.books db'.books) .refl h

/-- **Every commit is a run of steps of the books.** -/
theorem Txn.steps_commit (t : Txn) (db : Db) : ReflTransGen Step db.books (t.commit db).books := by
  cases t with
  | createTradeIntent now id input session options =>
    exact steps_of_run (fun _ _ h => step_createInTransaction h)
  | takeIntent now o => exact steps_of_run (fun _ _ h => step_takeIntent h)
  | rejectIntent now o => exact steps_of_run (fun _ _ h => step_rejectIntent h)
  | markIntentUnknown now o => exact steps_of_run (fun _ _ h => step_markIntentUnknown h)
  | markIntentAccepted now o => exact steps_of_run (fun _ _ h => step_markIntentAccepted h)
  | settleIntent now o => exact steps_of_run (fun _ _ h => step_settleIntent h)
  | startReconciling now id v => exact steps_of_run (fun _ _ h => step_startReconciling h)
  | claimReconciling now id retryMs => exact steps_of_run (fun _ _ h => step_claimReconciling h)
  | concludeReconciled now id v trade => exact steps_of_run (fun _ _ h => step_concludeReconciled h)
  | markIntentManualReview now id v reason =>
    exact steps_of_run (fun _ _ h => step_markIntentManualReview h)
  | haltAccountForManualReview now id v reason =>
    exact steps_of_run (fun _ _ h => step_haltAccountForManualReview h)
  | adjustTokens isControl input => exact steps_of_run (fun _ _ h => step_adjustTokens h)
  | creditStarPayment payment => exact steps_of_run (fun _ _ h => step_creditStarPayment h)
  | recordStarRefund now input => exact steps_of_run (fun _ _ h => step_recordStarRefund h)
  | addUser id telegramUserId => exact steps_of_run (fun _ _ h => step_addUser h)
  | editUser id status mode => exact steps_of_run (fun _ _ h => step_editUser h)
  | elsewhere s => exact .refl

end Refinement

/-- The invariant of the books after one commit. -/
theorem Txn.inv_commit (t : Txn) {db : Db} (h : db.books.Inv) : (t.commit db).books.Inv :=
  h.steps (t.steps_commit db)

theorem inv_commitAll (ts : List Txn) {db : Db} (h : db.books.Inv) : (commitAll db ts).books.Inv :=
  run_induction (P := fun db : Db => db.books.Inv) h (fun _ t => t.inv_commit) ts

/-- Users with nothing, and no other row. -/
structure Db.StartsEmpty (db : Db) : Prop where
  users : ∀ u ∈ db.users, u.tokenBalance = 0 ∧ u.tokenReserved = 0
  intents : db.tradeIntents.rows = []
  ledger : db.tokenLedger = []

theorem inv_of_startsEmpty {db : Db} (h : db.StartsEmpty) : db.books.Inv := by
  have hnone : ∀ r, ¬ r ∈ db.tradeIntents := by
    intro r hr
    rw [← Table.mem_rows, h.intents] at hr
    simp at hr
  have hsum : ∀ column userId, db.books.ledgerSum column userId = 0 := by
    intro column userId
    simp [Books.ledgerSum, Db.books, h.ledger]
  have hlive : ∀ userId, db.books.intents.sum (Books.liveTokens userId) = 0 := by
    intro userId
    simp [Table.sum, Db.books, h.intents]
  refine ⟨?_, ?_, ?_, ?_, fun r hr => absurd hr (hnone r), fun r hr => absurd hr (hnone r),
    fun r hr => absurd hr (hnone r), ?_, ?_, fun r hr => absurd hr (hnone r)⟩
  · intro u hu
    rw [hsum, (h.users u hu).1]
  · intro u hu
    rw [hsum, (h.users u hu).2]
  · intro u hu
    rw [hlive, (h.users u hu).2]
  · intro u hu
    have := h.users u hu
    omega
  · intro e he
    simp [Db.books, h.ledger] at he
  · intro e he
    simp [Db.books, h.ledger] at he

/-- **The token ledger invariant.**  After every commit of every run from users with nothing, each
user's counters are the sums of their ledger rows and of their live intents' reserves, the reserve lies
between zero and the balance, and every intent has one reserve row, and one release or settle row iff it
is terminal. -/
theorem ledger_invariant {db : Db} (h : db.StartsEmpty) (ts : List Txn) : (commitAll db ts).books.Inv :=
  inv_commitAll ts (inv_of_startsEmpty h)

/-- One user with an active account, and trading open. -/
def oneUserDb : Db where
  users := ⟨[newUser 1 42], by decide⟩
  brokerAccounts := ⟨[{ id := 7, userId := 1, status := .active, tradingHalted := false, haltedReason := none }],
    by decide⟩
  brokerBalanceSnapshots := Table.empty
  tradingSessions := Table.empty
  tradingSwitch := some true
  tradeIntents := Table.empty
  tokenLedger := []
  outboxEvents := Table.empty
  starPayments := Table.empty
  brokerTrades := Table.empty

/-- A purchase, a trade that the broker rejects, and a second one that is taken. -/
def twoTrades : List Txn :=
  let request (clientRequestId : String) : CreateTradeIntentRequest :=
    { telegramUserId := 42, brokerAccountId := none, mode := .demo, assetId := 3, amount := ['1']
      action := .up, durationSec := 5, clientRequestId := clientRequestId }
  [.creditStarPayment
    { telegramPaymentChargeId := "c", providerPaymentChargeId := none, packageCode := "p50", userId := 1
      currency := "XTR", totalAmount := 100, payerTelegramUserId := 42, paidAt := 0 },
   .createTradeIntent 10 5 (request "r") none {},
   .takeIntent 20 { id := 5, expectedVersion := 3, maxAgeMs := 1000 },
   .rejectIntent 30
    { id := 5, fromStatus := .submitting, expectedVersion := some 4, reason := .brokerRejected },
   .createTradeIntent 40 6 (request "s") none {},
   .takeIntent 50 { id := 6, expectedVersion := 3, maxAgeMs := 1000 }]

theorem ledger_invariant_twoTrades :
    (commitAll oneUserDb twoTrades).books.Inv ∧
      ((commitAll oneUserDb twoTrades).users.find? 1).map (fun u => (u.tokenBalance, u.tokenReserved)) =
        some (50, 1) ∧ (commitAll oneUserDb twoTrades).tokenLedger.length = 4 :=
  ⟨ledger_invariant ⟨by decide, rfl, rfl⟩ twoTrades, by decide, by decide⟩

end Binarius
