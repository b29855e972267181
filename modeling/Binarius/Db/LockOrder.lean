import Mathlib.Tactic

/-!
# Db.LockOrder — the locks of nine transactions (packages/db/src: oauth-ops.ts, referral-reward-ops.ts,
bonus-rule-ops.ts, postback-ops.ts, user-ops.ts, trading-session-ops.ts, star-payment-ops.ts)

* `RowLockMode.conflicts`: PostgreSQL's table of row locks, and an insert that waits for an uncommitted one.
* `TxKind.script`: **the lock requests of a transaction, in the code's order**, foreign keys included.
* `LockTable.act`: one request, commit or rollback of any of the transactions.

A transaction may end after any of its requests.  An update that changes a column of a unique key takes
the row `for update`: here only the attachment of deposits does (`deposit_events_id_user_key`).  Rows that
a transaction has just inserted are its own: who meets their key waits on the key.
-/

namespace Binarius

inductive RowLockMode
  | keyShare
  | share
  | noKeyUpdate
  | update
  /-- takes a unique key -/
  | insert
  /-- an insert that finds the key taken, once nobody holds it uncommitted -/
  | meet
  deriving DecidableEq, Repr

/-- What a held lock does to an asked one. -/
def RowLockMode.conflicts : RowLockMode → RowLockMode → Bool
  | .keyShare, .update => true
  | .share, .noKeyUpdate => true
  | .share, .update => true
  | .noKeyUpdate, .share => true
  | .noKeyUpdate, .noKeyUpdate => true
  | .noKeyUpdate, .update => true
  | .update, .keyShare => true
  | .update, .share => true
  | .update, .noKeyUpdate => true
  | .update, .update => true
  | .insert, .insert => true
  | .insert, .meet => true
  | _, _ => false

/-- A row, or the value of a unique key. -/
inductive LockTarget
  | user (id : ℕ)
  | account (id : ℕ)
  | session (id : ℕ)
  | deposit (id : ℕ)
  | starPayment (id : ℕ)
  | referral (invitee : ℕ)
  | bonusRule (id : ℕ)
  | telegramId (value : ℕ)
  | brokerUserId (value : ℕ)
  | invitee (user : ℕ)
  | depositPayment (value : ℕ)
  | postbackId (value : ℕ)
  | activeSession (account : ℕ)
  | charge (value : ℕ)
  | linkBonus (user : ℕ)
  | referralReward (invitee : ℕ)
  | ledgerPayment (value : ℕ)
  deriving DecidableEq, Repr

structure LockRequest where
  target : LockTarget
  mode : RowLockMode
  /-- the committed account the row was found by, or the account an insert creates -/
  account : Option ℕ
  deriving DecidableEq, Repr

def lock (target : LockTarget) (mode : RowLockMode) : LockRequest := ⟨target, mode, none⟩

def LockRequest.blocks (held asked : LockRequest) : Bool :=
  decide (held.target = asked.target) && held.mode.conflicts asked.mode

/-- The rows there are.  Users are numbered in the order their rows were committed, so an inviter comes
before whom it invited. -/
structure LockWorld where
  inviter : ℕ → Option ℕ
  older : ∀ u i, inviter u = some i → i < u
  owner : ℕ → ℕ
  trader : ℕ → ℕ
  sessionOwner : ℕ → ℕ
  depositTrader : ℕ → ℕ

/-- How `upsertUser` came to its row. -/
inductive UserPath
  | found
  | created
  | raced
  deriving DecidableEq, Repr

/-- What became of the account's insert. -/
inductive AccountPath
  | inserted
  | existing
  | taken
  deriving DecidableEq, Repr

inductive BonusPath
  | skipped
  | granted (rule : ℕ)
  | already
  deriving DecidableEq, Repr

section Scripts

def upsertUserLocks (t u : ℕ) : UserPath → List LockRequest
  | .found => [lock (.user u) .noKeyUpdate]
  | .created => [lock (.telegramId t) .insert, lock (.user u) .noKeyUpdate]
  | .raced => [lock (.telegramId t) .meet, lock (.user u) .noKeyUpdate]

/-- `lockReferralInviter` -/
def inviterLocks : Option ℕ → List LockRequest
  | some i => [lock (.user i) .noKeyUpdate]
  | none => []

/-- `applyBonus`: the ledger row with its foreign keys, and the payee's balance. -/
def bonusLocks (key reference : LockTarget) (payee : ℕ) : BonusPath → List LockRequest
  | .skipped => []
  | .already => [lock key .meet]
  | .granted rule =>
    [lock key .insert, lock (.user payee) .keyShare, lock reference .keyShare,
      lock (.bonusRule rule) .keyShare, lock (.user payee) .noKeyUpdate]

/-- `grantReferralReward` -/
def rewardLocks (u : ℕ) (path : BonusPath) : Option ℕ → List LockRequest
  | some i => bonusLocks (.referralReward u) (.referral u) i path
  | none => []

/-- `attachDepositsToAccount`: one statement, its rows in any order. -/
def attachLocks (u a : ℕ) (deposits : List ℕ) : List LockRequest :=
  deposits.map (fun d => lock (.deposit d) .update) ++
    [lock (.user u) .keyShare, lock (.account a) .keyShare]

/-- `creditActivation` -/
def activationLocks (u a : ℕ) (inviter : Option ℕ) (deposits : List ℕ) (linkBonus reward : BonusPath) :
    List LockRequest :=
  attachLocks u a deposits ++ (bonusLocks (.linkBonus u) (.account a) u linkBonus ++
    rewardLocks u reward inviter)

end Scripts

inductive TxKind
  | linkBrokerAccount (t u : ℕ) (user : UserPath) (inviter : Option ℕ) (a : ℕ) (account : AccountPath)
      (activate : Bool) (deposits : List ℕ) (linkBonus reward : BonusPath)
  | confirmBrokerAccount (u : ℕ) (inviter : Option ℕ) (a : ℕ) (deposits : List ℕ)
      (linkBonus reward : BonusPath)
  | recordUserStart (t u : ℕ) (created : Bool) (inviter : Option ℕ)
  | recordPostback (account : Option ℕ) (payment : ℕ) (recorded : Bool) (owner : Option (ℕ × ℕ))
      (postback : ℕ) (journaled : Bool) (deposit : ℕ)
  | setTradingMode (u : ℕ) (sessions : List ℕ) (deposits : List (ℕ × ℕ))
  | switchTradingModeOnDeposit (u deposit account : ℕ)
  | markDepositModeSwitch (deposit : ℕ)
  | createTradingSession (u a : ℕ)
  | creditStarPayment (u charge payment entry : ℕ) (recorded : Bool)
  | recordStarRefund (u payment entry : ℕ)
  deriving DecidableEq, Repr

namespace TxKind

variable (world : LockWorld)

/-- The account's part of a login. -/
def accountLocks (u a : ℕ) : AccountPath → List LockRequest
  | .inserted => [⟨.brokerUserId (world.trader a), .insert, some a⟩, lock (.user u) .keyShare]
  | .existing => [lock (.brokerUserId (world.trader a)) .meet, ⟨.account a, .noKeyUpdate, some a⟩,
      lock (.account a) .noKeyUpdate]
  | .taken => [lock (.brokerUserId (world.trader a)) .meet, ⟨.account a, .noKeyUpdate, some a⟩]

/-- The trader's account, if there is one, as a delivery reads it. -/
def sharedAccountLocks : Option ℕ → List LockRequest
  | some a => [⟨.account a, .share, some a⟩]
  | none => []

/-- The insert of a deposit, or its conflict. -/
def depositLocks (payment : ℕ) (recorded : Bool) (owner : Option (ℕ × ℕ)) : List LockRequest :=
  lock (.depositPayment payment) (if recorded then .insert else .meet) ::
    (match owner with
      | some (u, a) => [lock (.user u) .keyShare, lock (.account a) .keyShare]
      | none => [])

/-- **The lock requests of a transaction**, in the code's order. -/
def script : TxKind → List LockRequest
  | .linkBrokerAccount t u user inviter a account activate deposits linkBonus reward =>
    upsertUserLocks t u user ++ (inviterLocks inviter ++ (accountLocks world u a account ++
      (if account = .taken then []
        else if activate then activationLocks u a inviter deposits linkBonus reward
        else rewardLocks u reward inviter)))
  | .confirmBrokerAccount u inviter a deposits linkBonus reward =>
    lock (.user u) .noKeyUpdate :: (inviterLocks inviter ++
      (⟨.account a, .noKeyUpdate, some a⟩ :: lock (.account a) .noKeyUpdate ::
        activationLocks u a inviter deposits linkBonus reward))
  | .recordUserStart t u created inviter =>
    lock (.telegramId t) (if created then .insert else .meet) :: lock (.user u) .noKeyUpdate ::
      (match inviter with
        | some i => [lock (.invitee u) .insert, lock (.user u) .keyShare, lock (.user i) .keyShare]
        | none => [])
  | .recordPostback account payment recorded owner postback journaled deposit =>
    (sharedAccountLocks account ++ (depositLocks payment recorded owner ++
        [lock (.postbackId postback) (if journaled then .insert else .meet)])) ++
      [lock (.deposit deposit) .keyShare]
  | .setTradingMode u sessions deposits =>
    lock (.user u) .noKeyUpdate :: (sessions.map (fun s => lock (.session s) .noKeyUpdate) ++
      deposits.map (fun d => ⟨.deposit d.1, .noKeyUpdate, some d.2⟩))
  | .switchTradingModeOnDeposit u deposit account =>
    [lock (.user u) .noKeyUpdate, lock (.user u) .noKeyUpdate, ⟨.deposit deposit, .noKeyUpdate, some account⟩]
  | .markDepositModeSwitch deposit => [lock (.deposit deposit) .noKeyUpdate]
  | .createTradingSession u a =>
    [lock (.user u) .noKeyUpdate, lock (.account a) .noKeyUpdate, lock (.activeSession a) .insert,
      lock (.account a) .keyShare]
  | .creditStarPayment u charge payment entry recorded =>
    if recorded then
      [lock (.user u) .noKeyUpdate, lock (.charge charge) .insert, lock (.user u) .keyShare,
        lock (.ledgerPayment entry) .insert, lock (.user u) .keyShare, lock (.starPayment payment) .keyShare,
        lock (.user u) .noKeyUpdate]
    else [lock (.user u) .noKeyUpdate, lock (.charge charge) .meet]
  | .recordStarRefund u payment entry =>
    [lock (.user u) .noKeyUpdate, lock (.starPayment payment) .noKeyUpdate,
      lock (.ledgerPayment entry) .insert, lock (.user u) .keyShare, lock (.starPayment payment) .keyShare,
      lock (.user u) .noKeyUpdate, lock (.starPayment payment) .noKeyUpdate]

/-- What the statements' predicates say of the rows they pick. -/
def Valid : TxKind → Prop
  | .linkBrokerAccount _ u _ inviter a account _ deposits _ _ =>
    (∀ i ∈ inviter, world.inviter u = some i) ∧ (account ≠ .taken → world.owner a = u) ∧
      deposits.Nodup ∧ ∀ d ∈ deposits, world.depositTrader d = world.trader a
  | .confirmBrokerAccount u inviter a deposits _ _ =>
    (∀ i ∈ inviter, world.inviter u = some i) ∧ world.owner a = u ∧
      deposits.Nodup ∧ ∀ d ∈ deposits, world.depositTrader d = world.trader a
  | .setTradingMode u sessions deposits =>
    sessions.Nodup ∧ (∀ s ∈ sessions, world.sessionOwner s = u) ∧ (deposits.map Prod.fst).Nodup ∧
      ∀ d ∈ deposits, world.owner d.2 = u ∧ world.trader d.2 = world.depositTrader d.1
  | .switchTradingModeOnDeposit u deposit account =>
    world.owner account = u ∧ world.trader account = world.depositTrader deposit
  | _ => True

instance (kind : TxKind) : Decidable (kind.Valid world) := by
  unfold Valid
  cases kind <;> infer_instance

end TxKind

structure LockTx where
  kind : TxKind
  done : List LockRequest
  rest : List LockRequest
  /-- the moment it began to wait for the next -/
  waiting : Option ℕ
  ended : Bool
  deriving Repr

structure LockTable where
  txs : List LockTx
  /-- the committed account of a broker's user -/
  accounts : ℕ → Option ℕ
  clock : ℕ

namespace LockTable

def start : LockTable := ⟨[], fun _ => none, 0⟩

inductive Act
  | begin (kind : TxKind)
  /-- the next request, or the wait for it once more -/
  | ask (index : ℕ)
  | commit (index : ℕ)
  | abort (index : ℕ)

variable (world : LockWorld) (s : LockTable)

/-- An account's key is free to an insert; a row found by an account is there with it. -/
def Ready (q : LockRequest) : Prop :=
  match q.mode, q.target, q.account with
  | .insert, .brokerUserId b, _ => s.accounts b = none
  | .insert, _, _ => True
  | _, _, some a => s.accounts (world.trader a) = some a
  | _, _, none => True

instance (q : LockRequest) : Decidable (s.Ready world q) := by
  unfold Ready
  split <;> infer_instance

/-- Another transaction holds it against the request. -/
def contended (index : ℕ) (q : LockRequest) : Bool :=
  (List.range s.txs.length).any (fun j =>
    decide (j ≠ index) && (match s.txs[j]? with
      | some t => !t.ended && t.done.any (fun p => p.blocks q)
      | none => false))

def setTx (index : ℕ) (t : LockTx) : LockTable := { s with txs := s.txs.set index t }

/-- The accounts a transaction inserted. -/
def commitAccounts (accounts : ℕ → Option ℕ) (p : LockRequest) : ℕ → Option ℕ :=
  match p.mode, p.target with
  | .insert, .brokerUserId b => Function.update accounts b p.account
  | _, _ => accounts

/-- One event; what is not enabled changes nothing. -/
def act (s : LockTable) : Act → LockTable
  | .begin kind =>
    if kind.Valid world then { s with txs := s.txs ++ [⟨kind, [], kind.script world, none, false⟩] } else s
  | .ask index =>
    match s.txs[index]? with
    | some t =>
      match t.rest with
      | q :: rest =>
        if t.ended = false ∧ s.Ready world q then
          if s.contended index q = true then
            if t.waiting = none then
              { s.setTx index { t with waiting := some s.clock } with clock := s.clock + 1 }
            else s
          else s.setTx index { t with done := t.done ++ [q], rest := rest, waiting := none }
        else s
      | [] => s
    | none => s
  | .commit index =>
    match s.txs[index]? with
    | some t =>
      if t.ended = false ∧ t.waiting = none then
        { s.setTx index { t with ended := true } with accounts := t.done.foldl commitAccounts s.accounts }
      else s
    | none => s
  | .abort index =>
    match s.txs[index]? with
    | some t => s.setTx index { t with ended := true }
    | none => s

/-- Waits for `q` since `moment`. -/
def Waits (index : ℕ) (q : LockRequest) (moment : ℕ) : Prop :=
  ∃ t, s.txs[index]? = some t ∧ t.ended = false ∧ t.waiting = some moment ∧ t.rest.head? = some q

/-- Holds `p` until it ends. -/
def Holds (index : ℕ) (p : LockRequest) : Prop :=
  ∃ t, s.txs[index]? = some t ∧ t.ended = false ∧ p ∈ t.done

/-- **The waits-for relation**: on a holder, or on who asked for the same before. -/
def WaitsFor (i j : ℕ) : Prop :=
  i ≠ j ∧ ∃ q moment, s.Waits i q moment ∧
    ((∃ p, s.Holds j p ∧ p.blocks q = true) ∨
      ∃ q' moment', s.Waits j q' moment' ∧ moment' < moment ∧ q'.blocks q = true)

end LockTable

end Binarius
