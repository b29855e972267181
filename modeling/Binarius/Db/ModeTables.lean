import Mathlib.Tactic
import Binarius.Db.Accounts.Mode
import Binarius.Lib.Tracks

/-!
# Db.ModeTables — users, accounts, deposits and sessions, and what their writers owe each other
(packages/db/src: user-ops.ts, deposit-mode-switch-ops.ts, trading-session-ops.ts)

The tables are seen through their lookups, and only in the columns that the trading mode depends on: a
bonus or a reserve does not show.

* `ModeTables.Ok`: **an active session runs in its owner's mode**, and is its account's only one.
* `ModeTables.Grows`: an outcome of a deposit is written once; a session that is not active never is again.
* `ModeTables.Same`: what a lock protects; the users lock, also that no session of the user starts.
* `guarantee_changed` and the others: what a commit of each write owes.
-/

namespace Binarius

open Lib

/-! ## The tables -/

section Keys

variable {κ ρ : Type} [DecidableEq κ]

/-- The row of a key, written. -/
def modifyKey (k : κ) (f : ρ → ρ) (rows : κ → Option ρ) : κ → Option ρ :=
  fun j => if k = j then (rows j).map f else rows j

/-- A row of a key that is free. -/
def insertKey (k : κ) (row : ρ) (rows : κ → Option ρ) : κ → Option ρ :=
  fun j => if k = j then (rows j).or (some row) else rows j

theorem insertKey_free {k : κ} {row : ρ} {rows : κ → Option ρ} (h : rows k = none) (j : κ) :
    insertKey k row rows j = if k = j then some row else rows j := by
  unfold insertKey
  split
  · rename_i hj
    rw [← hj, h]
    rfl
  · rfl

theorem find?_inserted_insertKey [Keyed ρ κ] (t : Table ρ) (row : ρ) :
    (t.inserted row).find? = insertKey (key row) row t.find? := by
  funext j
  cases ht : t.find? (key row) with
  | none => rw [Table.find?_inserted ht, insertKey_free ht]
  | some old =>
    have hsame : t.inserted row = t := by
      unfold Table.inserted
      rw [Table.insert?_eq_none.mpr ⟨old, ht⟩]
      rfl
    rw [hsame]
    unfold insertKey
    split
    · rename_i hj
      rw [← hj, ht]
      rfl
    · rfl

end Keys

structure ModeUser where
  telegramUserId : ℕ
  status : UserStatus
  tradingMode : TradeMode
  deriving DecidableEq, Repr

structure ModeAccount where
  userId : UserId
  status : BrokerAccountStatus
  tradingHalted : Bool
  deriving DecidableEq, Repr

structure ModeDeposit where
  source : PostbackSource
  brokerUserId : List Char
  owner : Option (UserId × AccountId)
  modeSwitch : Option DepositModeSwitch
  deriving DecidableEq, Repr

/-- What the writers of the mode, of the outcomes and of the sessions share. -/
structure ModeTables where
  user : UserId → Option ModeUser
  account : AccountId → Option ModeAccount
  deposit : DepositKey → Option ModeDeposit
  session : SessionId → Option TradingSessionRow

def UserRow.modeUser (user : UserRow) : ModeUser := ⟨user.telegramUserId, user.status, user.tradingMode⟩

def LinkedAccountRow.modeAccount (account : LinkedAccountRow) : ModeAccount :=
  ⟨account.userId, account.status, account.tradingHalted⟩

def DepositEventRow.modeDeposit (deposit : DepositEventRow) : ModeDeposit :=
  ⟨deposit.source, deposit.brokerUserId, deposit.owner, deposit.modeSwitch⟩

def AccountsDb.modeTables (db : AccountsDb) : ModeTables where
  user id := (db.users.find? id).map UserRow.modeUser
  account id := (db.brokerAccounts.find? id).map LinkedAccountRow.modeAccount
  deposit key := (db.deposit key).map DepositEventRow.modeDeposit
  session := db.tradingSessions.find?

def TradingSessionRow.stopped (session : TradingSessionRow) : TradingSessionRow :=
    { session with status := .stopped }

def ModeDeposit.closed (outcome : DepositModeSwitch) (deposit : ModeDeposit) : ModeDeposit :=
  { deposit with modeSwitch := some outcome }

namespace ModeTables

/-- The user that a session's account belongs to. -/
def ownerOf (t : ModeTables) (accountId : AccountId) : Option UserId := (t.account accountId).map (·.userId)

/-- What the switch made of a deposit. -/
def outcome (t : ModeTables) (key : DepositKey) : Option DepositModeSwitch :=
  (t.deposit key).bind ModeDeposit.modeSwitch

/-! ### Writes -/

def setUser (id : UserId) (f : ModeUser → ModeUser) (t : ModeTables) : ModeTables :=
  { t with user := modifyKey id f t.user }

def addUser (id : UserId) (row : ModeUser) (t : ModeTables) : ModeTables :=
  { t with user := insertKey id row t.user }

def setAccount (id : AccountId) (f : ModeAccount → ModeAccount) (t : ModeTables) : ModeTables :=
  { t with account := modifyKey id f t.account }

def addAccount (id : AccountId) (row : ModeAccount) (t : ModeTables) : ModeTables :=
  { t with account := insertKey id row t.account }

def setDeposit (key : DepositKey) (f : ModeDeposit → ModeDeposit) (t : ModeTables) : ModeTables :=
  { t with deposit := modifyKey key f t.deposit }

def addDeposit (key : DepositKey) (row : ModeDeposit) (t : ModeTables) : ModeTables :=
  { t with deposit := fun j => if key = j then some row else t.deposit j }

def stopSession (id : SessionId) (t : ModeTables) : ModeTables :=
  { t with session := modifyKey id TradingSessionRow.stopped t.session }

def addSession (row : TradingSessionRow) (t : ModeTables) : ModeTables :=
  { t with session := insertKey row.id row t.session }

/-- A switch of the mode: the sessions it stops and the deposits it closes. -/
def changed (uid : UserId) (mode : TradeMode) (outcome : DepositModeSwitch) (stopped : List SessionId)
    (marked : List DepositKey) (t : ModeTables) : ModeTables where
  user := modifyKey uid (fun u => { u with tradingMode := mode }) t.user
  account := t.account
  deposit k := if k ∈ marked then (t.deposit k).map (ModeDeposit.closed outcome) else t.deposit k
  session i := if i ∈ stopped then (t.session i).map TradingSessionRow.stopped else t.session i

/-! ### The invariant and the protocol -/

structure Ok (t : ModeTables) : Prop where
  ownerUser : ∀ id uid, t.ownerOf id = some uid → ∃ u, t.user uid = some u
  sessionOwner : ∀ id s, t.session id = some s → ∃ uid, t.ownerOf s.brokerAccountId = some uid
  mode : ∀ id s uid u, t.session id = some s → s.status = .active → t.ownerOf s.brokerAccountId = some uid →
    t.user uid = some u → s.mode = u.tradingMode
  one : ∀ id id' s s', t.session id = some s → t.session id' = some s' → s.status = .active →
    s'.status = .active → s.brokerAccountId = s'.brokerAccountId → id = id'

/-- A deposit's owner and its outcome are written once. -/
structure ModeDepositGrows (d d' : ModeDeposit) : Prop where
  owner : ∀ o, d.owner = some o → d'.owner = some o
  modeSwitch : ∀ o, d.modeSwitch = some o → d'.modeSwitch = some o

/-- What every commit keeps: whose Telegram account a user is, whose account an account is, the deposits'
owners and outcomes; a session is stopped at most. -/
structure Grows (t t' : ModeTables) : Prop where
  users : ∀ id u, t.user id = some u → ∃ u', t'.user id = some u' ∧ u'.telegramUserId = u.telegramUserId
  accounts : ∀ id uid, t.ownerOf id = some uid → t'.ownerOf id = some uid
  deposits : ∀ k d, t.deposit k = some d → ∃ d', t'.deposit k = some d' ∧ ModeDepositGrows d d'
  sessions : ∀ id s, t.session id = some s → t'.session id = some s ∨
    (s.status = .active ∧ t'.session id = some s.stopped)

/-- The row of a lock. -/
def Row (l : AccountsLock) (t t' : ModeTables) : Prop :=
  match l with
  | .user id => t'.user id = t.user id
  | .account id => t'.account id = t.account id
  | .deposit key => t'.deposit key = t.deposit key
  | .session id => t'.session id = t.session id
  | _ => True

/-- No session of the user started: one that is not stopped was there, on an account that was the user's. -/
def NoneStarted (uid : UserId) (t t' : ModeTables) : Prop :=
  ∀ id s, t'.session id = some s → s.status ≠ .stopped → t'.ownerOf s.brokerAccountId = some uid →
    t.session id = some s ∧ t.ownerOf s.brokerAccountId = some uid

/-- What a lock protects. -/
def Same (l : AccountsLock) (t t' : ModeTables) : Prop :=
  Row l t t' ∧ match l with
    | .user id => NoneStarted id t t'
    | _ => True

variable {t t' t'' : ModeTables}

theorem Grows.refl (t : ModeTables) : t.Grows t :=
  ⟨fun _ u h => ⟨u, h, rfl⟩, fun _ _ h => h, fun _ d h => ⟨d, h, ⟨fun _ ho => ho, fun _ ho => ho⟩⟩,
    fun _ _ h => .inl h⟩

theorem Grows.trans (h : t.Grows t') (h' : t'.Grows t'') : t.Grows t'' := by
  refine ⟨fun id u hu => ?_, fun id uid ha => h'.accounts id uid (h.accounts id uid ha),
    fun k d hd => ?_, fun id s hs => ?_⟩
  · obtain ⟨u', hu', heq⟩ := h.users id u hu
    obtain ⟨u'', hu'', heq'⟩ := h'.users id u' hu'
    exact ⟨u'', hu'', heq'.trans heq⟩
  · obtain ⟨d', hd', hgrows⟩ := h.deposits k d hd
    obtain ⟨d'', hd'', hgrows'⟩ := h'.deposits k d' hd'
    exact ⟨d'', hd'', fun o ho => hgrows'.owner o (hgrows.owner o ho),
      fun o ho => hgrows'.modeSwitch o (hgrows.modeSwitch o ho)⟩
  · rcases h.sessions id s hs with hs' | ⟨hactive, hs'⟩
    · exact h'.sessions id s hs'
    · rcases h'.sessions id _ hs' with hs'' | ⟨hstopped, -⟩
      · exact .inr ⟨hactive, hs''⟩
      · cases hstopped

/-- A session that is not active stays as it is. -/
theorem Grows.inactive (h : t.Grows t') {id : SessionId} {s : TradingSessionRow}
    (hs : t.session id = some s)
    (hne : s.status ≠ .active) : t'.session id = some s := by
  rcases h.sessions id s hs with hs' | ⟨hactive, -⟩
  · exact hs'
  · exact absurd hactive hne

theorem Row.refl (l : AccountsLock) (t : ModeTables) : Row l t t := by
  cases l with
  | _ => first | rfl | trivial

theorem Row.trans {l : AccountsLock} (h : Row l t t') (h' : Row l t' t'') : Row l t t'' := by
  cases l with
  | _ => first | exact Eq.trans h' h | trivial

theorem NoneStarted.trans {uid : UserId} (h : NoneStarted uid t t') (h' : NoneStarted uid t' t'') :
    NoneStarted uid t t'' := by
  rintro id s hs hne howner
  obtain ⟨hs', howner'⟩ := h' id s hs hne howner
  exact h id s hs' hne howner'

theorem Same.refl (l : AccountsLock) (t : ModeTables) : Same l t t := by
  refine ⟨.refl l t, ?_⟩
  cases l with
  | user uid => exact fun id s hs _ howner => ⟨hs, howner⟩
  | _ => trivial

theorem Same.trans {l : AccountsLock} (h : Same l t t') (h' : Same l t' t'') : Same l t t'' := by
  refine ⟨h.1.trans h'.1, ?_⟩
  cases l with
  | user uid => exact NoneStarted.trans h.2 h'.2
  | _ => trivial

end ModeTables

/-- What the writers owe each other. -/
def modeTablesProtocol : Protocol ModeTables AccountsLock where
  inv t := t.Ok
  rely t t' := t.Grows t'
  same _ l t t' := ModeTables.Same l t t'
  rely_refl t := .refl t
  rely_trans h h' := h.trans h'
  same_refl _ l t := .refl l t
  same_trans h h' := h.trans h'

def modeRows : Protocol.RowView modeTablesProtocol where
  row := ModeTables.Row
  of_same h := h.1

abbrev modeProtocol : Protocol AccountsDb AccountsLock := modeTablesProtocol.comap AccountsDb.modeTables

abbrev modeView : Protocol.RowView modeProtocol := modeRows.comap AccountsDb.modeTables

/-! ## The writes, seen in the tables -/

namespace AccountsDb

section Views

theorem any_modeUser (p : ModeUser → Bool) (db : AccountsDb) (id : UserId) :
    (db.modeTables.user id).any p = (db.users.find? id).any (fun user => p user.modeUser) := Option.any_map

theorem any_modeAccount (p : ModeAccount → Bool) (db : AccountsDb) (id : AccountId) :
    (db.modeTables.account id).any p = (db.brokerAccounts.find? id).any (fun account =>
      p account.modeAccount) :=
  Option.any_map

theorem any_modeDeposit (p : ModeDeposit → Bool) (db : AccountsDb) (key : DepositKey) :
    (db.modeTables.deposit key).any p = (db.deposit key).any (fun deposit => p deposit.modeDeposit) :=
  Option.any_map

theorem modeTables_updateUser {id : UserId} {f : UserRow → UserRow} {g : ModeUser → ModeUser}
    (hf : ∀ u, (f u).id = u.id) (hg : ∀ u, (f u).modeUser = g u.modeUser) (db : AccountsDb) :
    (db.updateUser id f).modeTables = db.modeTables.setUser id g := by
  unfold modeTables ModeTables.setUser
  congr 1
  funext j
  show Option.map _ ((db.users.modified id f).find? j) = modifyKey _ _ _ _
  rw [Table.find?_modified hf]
  unfold modifyKey
  split
  · rw [Option.map_map, Option.map_map]
    exact congrArg (Option.map · _) (funext hg)
  · rfl

/-- A write of a user's other columns does not show. -/
theorem modeTables_updateUser_other {id : UserId} {f : UserRow → UserRow} (hf : ∀ u, (f u).id = u.id)
    (hg : ∀ u, (f u).modeUser = u.modeUser) (db : AccountsDb) :
    (db.updateUser id f).modeTables = db.modeTables := by
  rw [modeTables_updateUser hf (fun u => (hg u).trans (id_eq u.modeUser).symm)]
  unfold ModeTables.setUser modifyKey
  congr 1
  funext j
  split
  · exact Option.map_id_apply
  · rfl

theorem modeTables_insertUser (row : UserRow) (db : AccountsDb) :
    (db.insertUser row).modeTables = db.modeTables.addUser row.id row.modeUser := by
  unfold modeTables ModeTables.addUser
  congr 1
  funext j
  show Option.map _ ((db.users.inserted row).find? j) = insertKey _ _ _ _
  rw [find?_inserted_insertKey]
  unfold insertKey
  show Option.map _ (if row.id = j then _ else _) =
    if row.id = j then ((db.users.find? j).map UserRow.modeUser).or _ else _
  split
  · cases db.users.find? j <;> rfl
  · rfl

theorem modeTables_updateAccount {id : AccountId} {f : LinkedAccountRow → LinkedAccountRow}
    {g : ModeAccount → ModeAccount} (hf : ∀ a, (f a).id = a.id)
    (hg : ∀ a, (f a).modeAccount = g a.modeAccount) (db : AccountsDb) :
    (db.updateAccount id f).modeTables = db.modeTables.setAccount id g := by
  unfold modeTables ModeTables.setAccount
  congr 1
  funext j
  show Option.map _ ((db.brokerAccounts.modified id f).find? j) = modifyKey _ _ _ _
  rw [Table.find?_modified hf]
  unfold modifyKey
  split
  · rw [Option.map_map, Option.map_map]
    exact congrArg (Option.map · _) (funext hg)
  · rfl

theorem modeTables_insertAccount (row : LinkedAccountRow) (db : AccountsDb) :
    (db.insertAccount row).modeTables = db.modeTables.addAccount row.id row.modeAccount := by
  unfold modeTables ModeTables.addAccount
  congr 1
  funext j
  show Option.map _ ((db.brokerAccounts.inserted row).find? j) = insertKey _ _ _ _
  rw [find?_inserted_insertKey]
  unfold insertKey
  show Option.map _ (if row.id = j then _ else _) =
    if row.id = j then ((db.brokerAccounts.find? j).map LinkedAccountRow.modeAccount).or _ else _
  split
  · cases db.brokerAccounts.find? j <;> rfl
  · rfl

theorem modeTables_updateDeposit {key : DepositKey} {f : DepositEventRow → DepositEventRow}
    {g : ModeDeposit → ModeDeposit} (hf : ∀ d, (f d).key = d.key)
    (hg : ∀ d, (f d).modeDeposit = g d.modeDeposit) (db : AccountsDb) :
    (db.updateDeposit key f).modeTables = db.modeTables.setDeposit key g := by
  unfold modeTables ModeTables.setDeposit
  congr 1
  funext j
  show Option.map _ (rowAt _ (modifyAt _ key f db.depositEvents) j) = modifyKey _ _ _ _
  rw [rowAt_modifyAt hf]
  unfold modifyKey
  split
  · rw [Option.map_map]
    show _ = Option.map g (Option.map _ (db.deposit j))
    rw [Option.map_map]
    exact congrArg (Option.map · _) (funext hg)
  · rfl

theorem modeTables_insertDeposit (row : DepositEventRow) (db : AccountsDb) :
    (db.insertDeposit row).modeTables = db.modeTables.addDeposit row.key row.modeDeposit := by
  unfold modeTables ModeTables.addDeposit
  congr 1
  funext j
  show Option.map _ (rowAt _ (row :: db.depositEvents) j) = _
  rw [rowAt_cons]
  split
  · rfl
  · rfl

theorem modeTables_stopSession (id : SessionId) (db : AccountsDb) :
    (db.stopSession id).modeTables = db.modeTables.stopSession id := by
  unfold modeTables ModeTables.stopSession
  congr 1
  funext j
  exact Table.find?_modified (show ∀ session : TradingSessionRow, key session.stopped = key session from
    fun _ => rfl) id j

theorem modeTables_insertSession (row : TradingSessionRow) (db : AccountsDb) :
    (db.insertSession row).modeTables = db.modeTables.addSession row := by
  unfold modeTables ModeTables.addSession
  congr 1
  exact find?_inserted_insertKey db.tradingSessions row

end Views

end AccountsDb

/-! ## What a commit owes -/

namespace ModeTables

section Writes

variable {held : List (AccountsLock × LockMode)} {t t' : ModeTables}

theorem guarantee_of_rows (hok : t'.Ok) (hgrows : t.Grows t') (hrow : ∀ l, (l, .exclusive) ∉ held →
    Row l t t')
    (hnone : ∀ uid, (.user uid, .exclusive) ∉ held → NoneStarted uid t t') :
    modeTablesProtocol.Guarantee held t t' := by
  have hsame : ∀ l, (l, .exclusive) ∉ held → Same l t t' := by
    intro l hl
    refine ⟨hrow l hl, ?_⟩
    cases l with
    | user uid => exact hnone uid hl
    | _ => trivial
  exact ⟨hok, hgrows, fun l hl => hsame l (hl .exclusive), hsame⟩

/-- A write of one key leaves every other. -/
theorem modifyKey_ne {κ ρ : Type} [DecidableEq κ] {k j : κ} (h : k ≠ j) (f : ρ → ρ) (rows : κ → Option ρ) :
    modifyKey k f rows j = rows j := if_neg h

theorem modifyKey_isSome {κ ρ : Type} [DecidableEq κ] (k j : κ) (f : ρ → ρ) (rows : κ → Option ρ) {r : ρ}
    (h : rows j = some r) : ∃ r', modifyKey k f rows j = some r' ∧ (r' = r ∨ r' = f r) := by
  unfold modifyKey
  rw [h]
  split
  · exact ⟨f r, rfl, .inr rfl⟩
  · exact ⟨r, rfl, .inl rfl⟩

theorem of_modifyKey {κ ρ : Type} [DecidableEq κ] {k j : κ} {f : ρ → ρ} {rows : κ → Option ρ} {r' : ρ}
    (h : modifyKey k f rows j = some r') : ∃ r, rows j = some r ∧ (r' = r ∨ r' = f r) := by
  unfold modifyKey at h
  split at h
  · obtain ⟨r, hr, rfl⟩ := Option.map_eq_some_iff.mp h
    exact ⟨r, hr, .inr rfl⟩
  · exact ⟨r', h, .inl rfl⟩

/-- A write whose rows pass through one function of the row it is about. -/
theorem row_modifyKey {κ ρ : Type} [DecidableEq κ] {k j : κ} {f : ρ → ρ} {rows rows' : κ → Option ρ}
    (h : rows' j = rows j) : modifyKey k f rows' j = modifyKey k f rows j := by
  unfold modifyKey
  rw [h]

theorem row_insertKey {κ ρ : Type} [DecidableEq κ] {k j : κ} {row : ρ} {rows rows' : κ → Option ρ}
    (h : rows' j = rows j) : insertKey k row rows' j = insertKey k row rows j := by
  unfold insertKey
  rw [h]

theorem local_setUser (id : UserId) (f : ModeUser → ModeUser) : modeRows.Local (setUser id f) := by
  intro l a b hab
  cases l with
  | user j => exact row_modifyKey hab
  | _ => exact hab

theorem local_addUser (id : UserId) (row : ModeUser) : modeRows.Local (addUser id row) := by
  intro l a b hab
  cases l with
  | user j => exact row_insertKey hab
  | _ => exact hab

theorem local_setAccount (id : AccountId) (f : ModeAccount → ModeAccount) :
    modeRows.Local (setAccount id f) := by
  intro l a b hab
  cases l with
  | account j => exact row_modifyKey hab
  | _ => exact hab

theorem local_addAccount (id : AccountId) (row : ModeAccount) : modeRows.Local (addAccount id row) := by
  intro l a b hab
  cases l with
  | account j => exact row_insertKey hab
  | _ => exact hab

theorem local_setDeposit (key : DepositKey) (f : ModeDeposit → ModeDeposit) :
    modeRows.Local (setDeposit key f) := by
  intro l a b hab
  cases l with
  | deposit j => exact row_modifyKey hab
  | _ => exact hab

theorem local_addDeposit (key : DepositKey) (row : ModeDeposit) : modeRows.Local (addDeposit key row) := by
  intro l a b hab
  cases l with
  | deposit j =>
    show (if key = j then some row else b.deposit j) = if key = j then some row else a.deposit j
    rw [show b.deposit j = a.deposit j from hab]
  | _ => exact hab

theorem local_stopSession (id : SessionId) : modeRows.Local (stopSession id) := by
  intro l a b hab
  cases l with
  | session j => exact row_modifyKey hab
  | _ => exact hab

/-! ### Users -/

theorem guarantee_setUser {id : UserId} {f : ModeUser → ModeUser} (hok : t.Ok)
    (htelegram : ∀ u, (f u).telegramUserId = u.telegramUserId) (hmode : ∀ u,
      (f u).tradingMode = u.tradingMode)
    (hlock : (.user id, .exclusive) ∈ held) :
    modeTablesProtocol.Guarantee held t (t.setUser id f) := by
  have hgrows : t.Grows (t.setUser id f) := by
    refine ⟨fun j u hu => ?_, (Grows.refl t).accounts, (Grows.refl t).deposits, (Grows.refl t).sessions⟩
    obtain ⟨u', hu', rfl | rfl⟩ := modifyKey_isSome id j f t.user hu
    · exact ⟨_, hu', rfl⟩
    · exact ⟨_, hu', htelegram u⟩
  refine guarantee_of_rows ⟨fun j uid ha => ?_, hok.sessionOwner, fun j s uid u hs hactive ha hu => ?_,
    hok.one⟩
    hgrows (fun l hl => ?_) (fun _ _ _ _ hs _ ha => ⟨hs, ha⟩)
  · obtain ⟨u, hu⟩ := hok.ownerUser j uid ha
    obtain ⟨u', hu', -⟩ := hgrows.users uid u hu
    exact ⟨u', hu'⟩
  · obtain ⟨u₀, hu₀, rfl | rfl⟩ := of_modifyKey hu
    · exact hok.mode j s uid _ hs hactive ha hu₀
    · rw [hmode]
      exact hok.mode j s uid u₀ hs hactive ha hu₀
  · cases l with
    | user j =>
      refine modifyKey_ne ?_ f t.user
      rintro rfl
      exact hl hlock
    | _ => first | rfl | trivial

theorem guarantee_addUser {id : UserId} {row : ModeUser} (hok : t.Ok) (hnone : t.user id = none)
    (hlock : (.user id, .exclusive) ∈ held) : modeTablesProtocol.Guarantee held t (t.addUser id row) := by
  have hgrows : t.Grows (t.addUser id row) := by
    refine ⟨fun j u hu => ⟨u, ?_, rfl⟩, (Grows.refl t).accounts, (Grows.refl t).deposits,
      (Grows.refl t).sessions⟩
    refine (insertKey_free hnone j).trans ?_
    rw [if_neg]
    · exact hu
    · rintro rfl
      rw [hnone] at hu
      cases hu
  refine guarantee_of_rows ⟨fun j uid ha => ?_, hok.sessionOwner, fun j s uid u hs hactive ha hu => ?_,
    hok.one⟩
    hgrows (fun l hl => ?_) (fun _ _ _ _ hs _ ha => ⟨hs, ha⟩)
  · obtain ⟨u, hu⟩ := hok.ownerUser j uid ha
    obtain ⟨u', hu', -⟩ := hgrows.users uid u hu
    exact ⟨u', hu'⟩
  · -- the owner was there before
    obtain ⟨u₀, hu₀⟩ := hok.ownerUser _ uid ha
    have hu : insertKey id row t.user uid = some u := hu
    rw [insertKey_free hnone, if_neg] at hu
    · exact hok.mode j s uid u hs hactive ha hu
    · rintro rfl
      rw [hnone] at hu₀
      cases hu₀
  · cases l with
    | user j =>
      refine (insertKey_free hnone j).trans (if_neg ?_)
      rintro rfl
      exact hl hlock
    | _ => first | rfl | trivial

/-! ### Accounts -/

theorem ownerOf_setAccount {id : AccountId} {f : ModeAccount → ModeAccount}
    (hf : ∀ a, (f a).userId = a.userId)
    (j : AccountId) : (t.setAccount id f).ownerOf j = t.ownerOf j := by
  show Option.map _ (modifyKey id f t.account j) = Option.map _ (t.account j)
  unfold modifyKey
  split
  · rw [Option.map_map]
    exact congrArg (Option.map · _) (funext hf)
  · rfl

theorem guarantee_setAccount {id : AccountId} {f : ModeAccount → ModeAccount} (hok : t.Ok)
    (hf : ∀ a, (f a).userId = a.userId) (hlock : (.account id, .exclusive) ∈ held) :
    modeTablesProtocol.Guarantee held t (t.setAccount id f) := by
  have howner : ∀ j, (t.setAccount id f).ownerOf j = t.ownerOf j := ownerOf_setAccount hf
  refine guarantee_of_rows ⟨fun j uid ha => ?_, fun j s hs => ?_, fun j s uid u hs hactive ha hu => ?_,
    hok.one⟩
    ⟨(Grows.refl t).users, fun j uid ha => ?_, (Grows.refl t).deposits, (Grows.refl t).sessions⟩
      (fun l hl => ?_)
    (fun uid _ id s hs _ ha => ⟨hs, (howner _).symm.trans ha⟩)
  · rw [howner] at ha
    exact hok.ownerUser j uid ha
  · rw [howner]
    exact hok.sessionOwner j s hs
  · rw [howner] at ha
    exact hok.mode j s uid u hs hactive ha hu
  · rw [howner]
    exact ha
  · cases l with
    | account j =>
      refine modifyKey_ne ?_ f t.account
      rintro rfl
      exact hl hlock
    | _ => first | rfl | trivial

/-- A new account has no sessions. -/
theorem guarantee_addAccount {id : AccountId} {row : ModeAccount} (hok : t.Ok) (hnone : t.account id = none)
    (huser : ∃ u, t.user row.userId = some u) (hlock : (.account id, .exclusive) ∈ held) :
    modeTablesProtocol.Guarantee held t (t.addAccount id row) := by
  have howner : ∀ j, (t.addAccount id row).ownerOf j = if id = j then some row.userId else t.ownerOf j := by
    intro j
    show Option.map _ (insertKey id row t.account j) = _
    rw [insertKey_free hnone]
    split <;> rfl
  have hold : ∀ j uid, t.ownerOf j = some uid → (t.addAccount id row).ownerOf j = some uid := by
    intro j uid ha
    rw [howner, if_neg]
    · exact ha
    · rintro rfl
      rw [show t.ownerOf id = none by unfold ownerOf; rw [hnone]; rfl] at ha
      cases ha
  have hsession : ∀ j s uid, t.session j = some s → (t.addAccount id row).ownerOf s.brokerAccountId =
    some uid →
      t.ownerOf s.brokerAccountId = some uid := by
    intro j s uid hs ha
    obtain ⟨uid', ha'⟩ := hok.sessionOwner j s hs
    obtain rfl := Option.some.inj ((hold _ _ ha').symm.trans ha)
    exact ha'
  refine guarantee_of_rows ⟨fun j uid ha => ?_, fun j s hs => ?_, fun j s uid u hs hactive ha hu => ?_,
    hok.one⟩
    ⟨(Grows.refl t).users, hold, (Grows.refl t).deposits, (Grows.refl t).sessions⟩ (fun l hl => ?_)
    (fun uid _ id s hs _ ha => ⟨hs, hsession id s uid hs ha⟩)
  · rw [howner] at ha
    split at ha
    · obtain rfl := Option.some.inj ha
      exact huser
    · exact hok.ownerUser j uid ha
  · obtain ⟨uid, ha⟩ := hok.sessionOwner j s hs
    exact ⟨uid, hold _ _ ha⟩
  · exact hok.mode j s uid u hs hactive (hsession j s uid hs ha) hu
  · cases l with
    | account j =>
      refine (insertKey_free hnone j).trans (if_neg ?_)
      rintro rfl
      exact hl hlock
    | _ => first | rfl | trivial

/-! ### Deposits -/

/-- A deposit's owner or its outcome is written where it had none. -/
theorem guarantee_setDeposit {key : DepositKey} {f : ModeDeposit → ModeDeposit} (hok : t.Ok)
    (hf : ∀ d, t.deposit key = some d → ModeDepositGrows d (f d)) (hlock : (.deposit key, .exclusive) ∈
      held) :
    modeTablesProtocol.Guarantee held t (t.setDeposit key f) := by
  refine guarantee_of_rows ⟨hok.ownerUser, hok.sessionOwner, hok.mode, hok.one⟩
    ⟨(Grows.refl t).users, (Grows.refl t).accounts, fun j d hd => ?_, (Grows.refl t).sessions⟩
      (fun l hl => ?_)
    (fun _ _ _ _ hs _ ha => ⟨hs, ha⟩)
  · show ∃ d', modifyKey key f t.deposit j = some d' ∧ _
    unfold modifyKey
    split
    · rename_i hj
      subst hj
      rw [hd]
      exact ⟨f d, rfl, hf d hd⟩
    · exact ⟨d, hd, fun _ ho => ho, fun _ ho => ho⟩
  · cases l with
    | deposit j =>
      refine modifyKey_ne ?_ f t.deposit
      rintro rfl
      exact hl hlock
    | _ => first | rfl | trivial

theorem guarantee_addDeposit {key : DepositKey} {row : ModeDeposit} (hok : t.Ok)
    (hnone : t.deposit key = none)
    (hlock : (.deposit key, .exclusive) ∈ held) :
    modeTablesProtocol.Guarantee held t (t.addDeposit key row) := by
  refine guarantee_of_rows ⟨hok.ownerUser, hok.sessionOwner, hok.mode, hok.one⟩
    ⟨(Grows.refl t).users, (Grows.refl t).accounts, fun j d hd => ⟨d, ?_, fun _ ho => ho, fun _ ho => ho⟩,
      (Grows.refl t).sessions⟩ (fun l hl => ?_) (fun _ _ _ _ hs _ ha => ⟨hs, ha⟩)
  · refine (if_neg ?_).trans hd
    rintro rfl
    rw [hnone] at hd
    cases hd
  · cases l with
    | deposit j =>
      refine if_neg ?_
      rintro rfl
      exact hl hlock
    | _ => first | rfl | trivial

/-! ### Sessions -/

theorem guarantee_stopSession {id : SessionId} (hok : t.Ok)
    (hactive : ∀ s, t.session id = some s → s.status = .active) (hlock : (.session id, .exclusive) ∈ held) :
    modeTablesProtocol.Guarantee held t (t.stopSession id) := by
  have hold : ∀ {j s}, (t.stopSession id).session j = some s → s.status ≠ .stopped → t.session j =
    some s := by
    intro j s hs hne
    obtain ⟨s₀, hs₀, rfl | rfl⟩ := of_modifyKey hs
    · exact hs₀
    · exact absurd rfl hne
  have hne : ∀ {s : TradingSessionRow}, s.status = .active → s.status ≠ .stopped := by
    rintro s hs hstopped
    rw [hs] at hstopped
    cases hstopped
  refine guarantee_of_rows ⟨hok.ownerUser, fun j s hs => ?_, fun j s uid u hs hs' => ?_,
      fun j j' s s' hs hs' ha ha' => ?_⟩
    ⟨(Grows.refl t).users, (Grows.refl t).accounts, (Grows.refl t).deposits, fun j s hs => ?_⟩
      (fun l hl => ?_)
    (fun _ _ _ _ hs hne ha => ⟨hold hs hne, ha⟩)
  · obtain ⟨s₀, hs₀, rfl | rfl⟩ := of_modifyKey hs
    · exact hok.sessionOwner j _ hs₀
    · exact hok.sessionOwner j s₀ hs₀
  · exact hok.mode j s uid u (hold hs (hne hs')) hs'
  · exact hok.one j j' s s' (hold hs (hne ha)) (hold hs' (hne ha')) ha ha'
  · show modifyKey _ _ _ _ = _ ∨ _ ∧ modifyKey _ _ _ _ = _
    unfold modifyKey
    split
    · rename_i hj
      subst hj
      rw [hs]
      exact .inr ⟨hactive s hs, rfl⟩
    · exact .inl hs
  · cases l with
    | session j =>
      refine modifyKey_ne ?_ _ t.session
      rintro rfl
      exact hl hlock
    | _ => first | rfl | trivial

/-- A session starts under its owner's lock, in the owner's mode, on an account that runs none. -/
theorem guarantee_addSession {row : TradingSessionRow} {uid : UserId} {u : ModeUser} (hok : t.Ok)
    (hfresh : t.session row.id = none) (howner : t.ownerOf row.brokerAccountId = some uid)
    (huser : t.user uid = some u) (hmode : row.mode = u.tradingMode)
    (hone : ∀ id s, t.session id = some s → s.status = .active → s.brokerAccountId ≠ row.brokerAccountId)
    (hsession : (.session row.id, .exclusive) ∈ held) (hlock : (.user uid, .exclusive) ∈ held) :
    modeTablesProtocol.Guarantee held t (t.addSession row) := by
  have hfind : ∀ j, (t.addSession row).session j = if row.id = j then some row else t.session j :=
    insertKey_free hfresh
  have hcases : ∀ {j s}, (t.addSession row).session j = some s → (j = row.id ∧ s = row) ∨ t.session j =
    some s := by
    intro j s hs
    rw [hfind] at hs
    split at hs
    · rename_i hj
      exact .inl ⟨hj.symm, (Option.some.inj hs).symm⟩
    · exact .inr hs
  refine guarantee_of_rows ⟨hok.ownerUser, fun j s hs => ?_, fun j s uid' u' hs hactive ha hu => ?_,
      fun j j' s s' hs hs' hactive hactive' heq => ?_⟩
    ⟨(Grows.refl t).users, (Grows.refl t).accounts, (Grows.refl t).deposits, fun j s hs => .inl ?_⟩
    (fun l hl => ?_) (fun uid' hl j s hs _ ha => ?_)
  · rcases hcases hs with ⟨rfl, rfl⟩ | hs
    · exact ⟨uid, howner⟩
    · exact hok.sessionOwner j s hs
  · rcases hcases hs with ⟨rfl, rfl⟩ | hs
    · obtain rfl := Option.some.inj (howner.symm.trans ha)
      obtain rfl := Option.some.inj (huser.symm.trans hu)
      exact hmode
    · exact hok.mode j s uid' u' hs hactive ha hu
  · rcases hcases hs with ⟨rfl, rfl⟩ | hold
    · rcases hcases hs' with ⟨rfl, rfl⟩ | hold'
      · rfl
      · exact absurd heq.symm (hone j' s' hold' hactive')
    · rcases hcases hs' with ⟨rfl, rfl⟩ | hold'
      · exact absurd heq (hone j s hold hactive)
      · exact hok.one j j' s s' hold hold' hactive hactive' heq
  · rw [hfind, if_neg]
    · exact hs
    · rintro rfl
      rw [hfresh] at hs
      cases hs
  · cases l with
    | session j =>
      refine (hfind j).trans (if_neg ?_)
      rintro rfl
      exact hl hsession
    | _ => first | rfl | trivial
  · rcases hcases hs with ⟨rfl, rfl⟩ | hs
    · obtain rfl := Option.some.inj (howner.symm.trans ha)
      exact absurd hlock hl
    · exact ⟨hs, ha⟩

/-! ### The mode -/

/-- **A switch of the mode stops every active session of its user.** -/
theorem guarantee_changed {uid : UserId} {mode : TradeMode} {outcome : DepositModeSwitch}
    {stopped : List SessionId} {marked : List DepositKey} (hok : t.Ok)
      (hlock : (.user uid, .exclusive) ∈ held)
    (hstopped : ∀ i ∈ stopped, (.session i, .exclusive) ∈ held)
    (hactive : ∀ i ∈ stopped, ∀ s, t.session i = some s → s.status = .active)
    (hmarked : ∀ k ∈ marked, (.deposit k, .exclusive) ∈ held)
    (hwaiting : ∀ k ∈ marked, ∀ d, t.deposit k = some d → d.modeSwitch = none)
    (hall : ∀ i s, t.session i = some s → s.status = .active → t.ownerOf s.brokerAccountId = some uid →
      i ∈ stopped) :
    modeTablesProtocol.Guarantee held t (t.changed uid mode outcome stopped marked) := by
  have hold : ∀ {j s}, (t.changed uid mode outcome stopped marked).session j = some s →
    s.status ≠ .stopped →
      j ∉ stopped ∧ t.session j = some s := by
    intro j s hs hne
    by_cases hj : j ∈ stopped
    · obtain ⟨s₀, -, rfl⟩ := Option.map_eq_some_iff.mp ((if_pos hj).symm.trans hs)
      exact absurd rfl hne
    · exact ⟨hj, (if_neg hj).symm.trans hs⟩
  have hne : ∀ {s : TradingSessionRow}, s.status = .active → s.status ≠ .stopped := by
    rintro s hs hstopped
    rw [hs] at hstopped
    cases hstopped
  refine guarantee_of_rows ⟨fun j uid' ha => ?_, fun j s hs => ?_, fun j s uid' u hs hs' ha hu => ?_,
      fun j j' s s' hs hs' ha ha' => ?_⟩
    ⟨fun j u hu => ?_, (Grows.refl t).accounts, fun k d hd => ?_, fun j s hs => ?_⟩ (fun l hl => ?_)
    (fun _ _ _ _ hs hne ha => ⟨(hold hs hne).2, ha⟩)
  · obtain ⟨u, hu⟩ := hok.ownerUser j uid' ha
    obtain ⟨u', hu', -⟩ := modifyKey_isSome uid uid' (fun u => { u with tradingMode := mode }) t.user hu
    exact ⟨u', hu'⟩
  · by_cases hj : j ∈ stopped
    · obtain ⟨s₀, hs₀, rfl⟩ := Option.map_eq_some_iff.mp ((if_pos hj).symm.trans hs)
      exact hok.sessionOwner j s₀ hs₀
    · exact hok.sessionOwner j s ((if_neg hj).symm.trans hs)
  · -- an active session is another user's
    obtain ⟨hj, hs⟩ := hold hs (hne hs')
    have hu : modifyKey uid _ t.user uid' = some u := hu
    rw [modifyKey_ne] at hu
    · exact hok.mode j s uid' u hs hs' ha hu
    · rintro rfl
      exact hj (hall j s hs hs' ha)
  · exact hok.one j j' s s' (hold hs (hne ha)).2 (hold hs' (hne ha')).2 ha ha'
  · obtain ⟨u', hu', rfl | rfl⟩ := modifyKey_isSome uid j (fun u => { u with tradingMode := mode })
      t.user hu
    · exact ⟨_, hu', rfl⟩
    · exact ⟨_, hu', rfl⟩
  · show ∃ d', (if k ∈ marked then (t.deposit k).map _ else t.deposit k) = some d' ∧ _
    split
    · rename_i hk
      rw [hd]
      refine ⟨_, rfl, fun _ ho => ho, fun o ho => ?_⟩
      rw [hwaiting k hk d hd] at ho
      cases ho
    · exact ⟨d, hd, fun _ ho => ho, fun _ ho => ho⟩
  · by_cases hj : j ∈ stopped
    · refine .inr ⟨hactive j hj s hs, (if_pos hj).trans ?_⟩
      rw [hs]
      rfl
    · exact .inl ((if_neg hj).trans hs)
  · cases l with
    | user j =>
      refine modifyKey_ne ?_ _ t.user
      rintro rfl
      exact hl hlock
    | deposit k => exact if_neg fun hk => hl (hmarked k hk)
    | session i => exact if_neg fun hi => hl (hstopped i hi)
    | _ => first | rfl | trivial

end Writes

end ModeTables

end Binarius
