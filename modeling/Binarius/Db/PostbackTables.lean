import Mathlib.Tactic
import Binarius.Db.Accounts.Postback
import Binarius.Lib.RelyGuarantee

/-!
# Db.PostbackTables — accounts, deposits and the journal, and what their writers owe each other
(packages/db/src: postback-ops.ts, oauth-ops.ts)

* `PostbackTables.Ok`: the unique keys, and **the attribution of every deposit whose delivery found the
  account**.
* `postbackProtocol`: what every commit keeps, and what each lock protects.
* `guarantee_insertDeposit`, `guarantee_insertDelivery`: the writes of a delivery.
* `Rewrites.guarantee`: an account's row with the attribution of its deposits.
-/

namespace Binarius

open Lib

/-! ## The tables -/

/-- What the postbacks and the activations share. -/
structure PostbackTables where
  accounts : Table LinkedAccountRow
  deposits : List DepositEventRow
  journal : List PostbackDeliveryRow

def AccountsDb.postbackTables (db : AccountsDb) : PostbackTables :=
  ⟨db.brokerAccounts, db.depositEvents, db.postbackDeliveries⟩

/-- A deposit whose delivery found the account is its owner's once it was confirmed, nobody's while it is
pending. -/
structure LinkedAccountRow.Attributes (account : LinkedAccountRow) (deposit : DepositEventRow) : Prop where
  trader : account.brokerUserId = deposit.brokerUserId
  pending : account.status = .pending → deposit.owner = none
  confirmed : account.status ≠ .pending → deposit.owner = some (account.userId, account.id)

namespace PostbackTables

def account (t : PostbackTables) (id : AccountId) : Option LinkedAccountRow := t.accounts.find? id

def deposit (t : PostbackTables) (key : DepositKey) : Option DepositEventRow :=
  rowAt DepositEventRow.key t.deposits key

def journaled (t : PostbackTables) (source : PostbackSource) (postbackId : List Char) : Bool :=
  t.journal.any (fun delivery => delivery.source = source && delivery.postbackId = some postbackId &&
    delivery.notRejected)

def hasTrader (t : PostbackTables) (brokerUserId : List Char) : Prop :=
  ∃ id account, t.account id = some account ∧ account.brokerUserId = brokerUserId

/-- A deposit of this account, by its delivery's own reading. -/
def keysFound (t : PostbackTables) (id : AccountId) : Set DepositKey :=
  { key | ∃ deposit ∈ t.deposits, deposit.found = some id ∧ deposit.key = key }

/-- The unique keys of the three tables, and the attribution of every deposit whose delivery found the
trader's account. -/
structure Ok (t : PostbackTables) : Prop where
  deposits : (t.deposits.map DepositEventRow.key).Nodup
  journal : ((t.journal.filter PostbackDeliveryRow.notRejected).map
    (fun delivery => (delivery.source, delivery.postbackId))).Nodup
  traders : ∀ i j a b, t.account i = some a → t.account j = some b → a.brokerUserId = b.brokerUserId → i = j
  attributed : ∀ deposit ∈ t.deposits, ∀ id, deposit.found = some id →
    ∃ account, t.account id = some account ∧ account.Attributes deposit

/-- What every commit keeps: an account stays its owner's and is not pending again; a deposit is only
attributed, once; the journal grows. -/
structure Grows (t t' : PostbackTables) : Prop where
  accounts : ∀ id a, t.account id = some a → ∃ a', t'.account id = some a' ∧ a'.userId = a.userId ∧
    a'.brokerUserId = a.brokerUserId ∧ (a.status ≠ .pending → a'.status ≠ .pending)
  deposits : ∀ key d, t.deposit key = some d →
    ∃ d', t'.deposit key = some d' ∧ (d' = d ∨ d.owner = none ∧ ∃ owner, d' = attached owner d)
  journal : t.journal <:+ t'.journal

/-- What a lock protects: the row; of an account held exclusively, also the deliveries that find it. -/
def Same (mode : LockMode) (l : AccountsLock) (t t' : PostbackTables) : Prop :=
  match l with
  | .account id => t'.account id = t.account id ∧ (mode = .exclusive → t'.keysFound id ⊆ t.keysFound id)
  | .brokerUser brokerUserId => t'.hasTrader brokerUserId → t.hasTrader brokerUserId
  | .deposit key => t'.deposit key = t.deposit key
  | .delivery source postbackId => t'.journaled source postbackId = t.journaled source postbackId
  | _ => True

variable {t t' t'' : PostbackTables}

theorem Grows.refl (t : PostbackTables) : t.Grows t :=
  ⟨fun _ a h => ⟨a, h, rfl, rfl, id⟩, fun _ d h => ⟨d, h, .inl rfl⟩, List.suffix_rfl⟩

theorem Grows.trans (h : t.Grows t') (h' : t'.Grows t'') : t.Grows t'' := by
  refine ⟨fun id a ha => ?_, fun key d hd => ?_, h.journal.trans h'.journal⟩
  · obtain ⟨a', ha', huser, htrader, hstatus⟩ := h.accounts id a ha
    obtain ⟨a'', ha'', huser', htrader', hstatus'⟩ := h'.accounts id a' ha'
    exact ⟨a'', ha'', huser'.trans huser, htrader'.trans htrader, fun hne => hstatus' (hstatus hne)⟩
  · obtain ⟨d', hd', hcase⟩ := h.deposits key d hd
    obtain ⟨d'', hd'', hcase'⟩ := h'.deposits key d' hd'
    refine ⟨d'', hd'', ?_⟩
    rcases hcase with rfl | ⟨hnone, owner, rfl⟩
    · exact hcase'
    · rcases hcase' with rfl | ⟨hnone', _⟩
      · exact .inr ⟨hnone, owner, rfl⟩
      · cases hnone'

theorem Same.refl (mode : LockMode) (l : AccountsLock) (t : PostbackTables) : Same mode l t t := by
  cases l with
  | account id => exact ⟨rfl, fun _ => subset_rfl⟩
  | brokerUser brokerUserId => exact id
  | _ => first | rfl | trivial

theorem Same.trans {mode : LockMode} {l : AccountsLock} (h : Same mode l t t') (h' : Same mode l t' t'') :
    Same mode l t t'' := by
  cases l with
  | account id => exact ⟨h'.1.trans h.1, fun hmode => (h'.2 hmode).trans (h.2 hmode)⟩
  | brokerUser brokerUserId => exact fun hnew => h (h' hnew)
  | deposit key => exact Eq.trans h' h
  | delivery source postbackId => exact Eq.trans h' h
  | _ => trivial

theorem deposit_eq_some_of_mem (h : t.Ok) {d : DepositEventRow} (hd : d ∈ t.deposits) :
    t.deposit d.key = some d :=
  rowAt_of_mem h.deposits hd

/-- A deposit seen now that was there before is the same, or was attributed since. -/
theorem Grows.deposit_back (h : t.Grows t') (hok : t'.Ok) {d d' : DepositEventRow}
    (hd : t.deposit d'.key = some d)
    (hd' : d' ∈ t'.deposits) : d' = d ∨ d.owner = none ∧ ∃ owner, d' = attached owner d := by
  obtain ⟨d'', hd'', hcase⟩ := h.deposits _ d hd
  rw [deposit_eq_some_of_mem hok hd'] at hd''
  obtain rfl := Option.some.inj hd''
  exact hcase

/-- A trader's account is found by its trader. -/
theorem hasTrader_of_find {db : AccountsDb} {brokerUserId : List Char} {a : LinkedAccountRow}
    (h : db.accountOfBrokerUser brokerUserId = some a) :
    db.postbackTables.account a.id = some a ∧ a.brokerUserId = brokerUserId :=
  ⟨Table.find?_of_mem (List.mem_of_find?_eq_some h), by simpa using List.find?_some h⟩

theorem not_hasTrader {db : AccountsDb} {brokerUserId : List Char}
    (h : db.accountOfBrokerUser brokerUserId = none) : ¬ db.postbackTables.hasTrader brokerUserId := by
  rintro ⟨id, a, ha, hb⟩
  have hnot := List.find?_eq_none.mp h a (Table.mem_of_find? ha)
  exact hnot (by simpa using hb)

end PostbackTables

/-! ## The protocol -/

/-- What the postbacks, the logins and the confirmations owe each other. -/
def postbackProtocol : Protocol AccountsDb AccountsLock where
  inv db := db.postbackTables.Ok
  rely db db' := db.postbackTables.Grows db'.postbackTables
  same mode l db db' := PostbackTables.Same mode l db.postbackTables db'.postbackTables
  rely_refl db := .refl db.postbackTables
  rely_trans h h' := h.trans h'
  same_refl mode l db := .refl mode l db.postbackTables
  same_trans h h' := h.trans h'

section Commits

open PostbackTables

variable {held : List (AccountsLock × LockMode)} {db db' : AccountsDb}

theorem guarantee_congr {dbA dbB : AccountsDb} (hA : dbA.postbackTables = db.postbackTables)
    (hB : dbB.postbackTables = db'.postbackTables) (h : postbackProtocol.Guarantee held dbA dbB) :
    postbackProtocol.Guarantee held db db' := by
  obtain ⟨hinv, hrely, hexclusive, hshare⟩ := h
  refine ⟨?_, ?_, fun l hl => ?_, fun l hl => ?_⟩
  · show db'.postbackTables.Ok
    rw [← hB]
    exact hinv
  · show db.postbackTables.Grows db'.postbackTables
    rw [← hA, ← hB]
    exact hrely
  · show Same .exclusive l db.postbackTables db'.postbackTables
    rw [← hA, ← hB]
    exact hexclusive l hl
  · show Same .share l db.postbackTables db'.postbackTables
    rw [← hA, ← hB]
    exact hshare l hl

/-- A transaction that leaves the three tables. -/
theorem guarantee_of_tables (hok : db.postbackTables.Ok) (h : db'.postbackTables = db.postbackTables) :
    postbackProtocol.Guarantee held db db' :=
  guarantee_congr rfl h.symm (Protocol.Guarantee.refl hok)

theorem journaled_cons (t : PostbackTables) (row : PostbackDeliveryRow) (source : PostbackSource)
    (postbackId : List Char) :
    ({ t with journal := row :: t.journal } : PostbackTables).journaled source postbackId =
      ((row.source = source && row.postbackId = some postbackId && row.notRejected) ||
        t.journaled source postbackId) := rfl

/-- A journal row that was not rejected takes its postback id, under the key's lock. -/
theorem guarantee_insertDelivery (hok : db.postbackTables.Ok) {row : PostbackDeliveryRow}
    (hfree : row.notRejected = true → ∃ postbackId, row.postbackId = some postbackId ∧
      db.postbackTables.journaled row.source postbackId = false ∧
      (.delivery row.source postbackId, .exclusive) ∈ held) :
    postbackProtocol.Guarantee held db (db.insertDelivery row) := by
  have hsame : ∀ mode l, (l, .exclusive) ∉ held →
      Same mode l db.postbackTables (db.insertDelivery row).postbackTables := by
    intro mode l hl
    cases l with
    | account id => exact ⟨rfl, fun _ => subset_rfl⟩
    | brokerUser brokerUserId => exact id
    | deposit key => rfl
    | delivery source postbackId =>
      refine (journaled_cons db.postbackTables row source postbackId).trans ?_
      cases hrow : row.notRejected with
      | false => rw [Bool.and_false, Bool.false_or]
      | true =>
        obtain ⟨p, hp, hnot, hlock⟩ := hfree hrow
        have hne : ¬ (row.source = source ∧ row.postbackId = some postbackId) := by
          rintro ⟨rfl, hid⟩
          rw [hp] at hid
          obtain rfl := Option.some.inj hid
          exact hl hlock
        rw [Bool.and_true, ← Bool.decide_and, decide_eq_false hne, Bool.false_or]
    | _ => trivial
  refine ⟨⟨hok.deposits, ?_, hok.traders, hok.attributed⟩, ⟨(Grows.refl _).accounts,
    (Grows.refl _).deposits,
    List.suffix_cons row _⟩, fun l hl => hsame .exclusive l (hl .exclusive), fun l hl => hsame .share l hl⟩
  show ((List.filter _ (row :: db.postbackDeliveries)).map _).Nodup
  rw [List.filter_cons]
  split
  · rename_i hrow
    obtain ⟨p, hp, hnot, -⟩ := hfree hrow
    rw [List.map_cons, List.nodup_cons]
    refine ⟨fun hmem => ?_, hok.journal⟩
    obtain ⟨r, hr, heq⟩ := List.mem_map.mp hmem
    obtain ⟨hmem, hkept⟩ := List.mem_filter.mp hr
    obtain ⟨hsource, hid⟩ := Prod.mk.inj heq
    have htaken : db.postbackTables.journaled row.source p = true := by
      refine List.any_eq_true.mpr ⟨r, hmem, ?_⟩
      simp [hsource, hid, hp, hkept]
    rw [hnot] at htaken
    cases htaken
  · exact hok.journal

/-- A deposit takes its payment's key, under the key's lock and a share of the account's. -/
theorem guarantee_insertDeposit (hok : db.postbackTables.Ok) {row : DepositEventRow}
    (hfree : db.postbackTables.deposit row.key = none) (hlock : (.deposit row.key, .exclusive) ∈ held)
    (hfound : ∀ id, row.found = some id → (∃ mode, (.account id, mode) ∈ held) ∧
      ∃ account, db.postbackTables.account id = some account ∧ account.Attributes row) :
    postbackProtocol.Guarantee held db (db.insertDeposit row) := by
  have hdeposit : ∀ key, row.key ≠ key →
      (db.insertDeposit row).postbackTables.deposit key = db.postbackTables.deposit key := by
    intro key hne
    show rowAt _ (row :: _) key = _
    rw [rowAt_cons, if_neg hne]
    rfl
  refine ⟨⟨nodup_cons_key hok.deposits hfree, hok.journal, hok.traders, ?_⟩,
    ⟨(Grows.refl _).accounts, fun key d hd => ?_, List.suffix_rfl⟩, fun l hl => ?_, fun l hl => ?_⟩
  · rintro d hd id hid
    rcases List.mem_cons.mp hd with rfl | hd
    · exact (hfound id hid).2
    · exact hok.attributed d hd id hid
  · refine ⟨d, ?_, .inl rfl⟩
    rw [hdeposit key (fun hkey => ?_)]
    · exact hd
    · rw [← hkey, hfree] at hd
      cases hd
  · cases l with
    | account id =>
      refine ⟨rfl, fun _ => ?_⟩
      rintro key ⟨d, hd, hid, hkey⟩
      rcases List.mem_cons.mp hd with rfl | hd
      · obtain ⟨⟨mode, hmode⟩, -⟩ := hfound id hid
        exact absurd hmode (hl mode)
      · exact ⟨d, hd, hid, hkey⟩
    | brokerUser brokerUserId => exact id
    | deposit key =>
      refine hdeposit key (fun hkey => ?_)
      rw [hkey] at hlock
      exact hl _ hlock
    | delivery source postbackId => rfl
    | _ => trivial
  · cases l with
    | account id => exact ⟨rfl, fun hmode => absurd hmode (by decide)⟩
    | brokerUser brokerUserId => exact id
    | deposit key =>
      refine hdeposit key (fun hkey => ?_)
      rw [hkey] at hlock
      exact hl hlock
    | delivery source postbackId => rfl
    | _ => trivial

/-! ## Activations -/

/-- The deposits of these payments, attributed. -/
def PostbackTables.attach (t : PostbackTables) (keys : List DepositKey) (owner : UserId × AccountId) :
    PostbackTables :=
  { t with
    deposits := keys.foldl (fun rows key => modifyAt DepositEventRow.key key (attached owner) rows) t.deposits }

theorem key_attached (owner : UserId × AccountId) (d : DepositEventRow) :
    (attached owner d).key = d.key := rfl

theorem deposit_attach (t : PostbackTables) (keys : List DepositKey) (owner : UserId × AccountId)
    (key : DepositKey) :
    (t.attach keys owner).deposit key =
      if key ∈ keys then (t.deposit key).map (attached owner) else t.deposit key := by
  have h := rowAt_foldl_modifyAt (key_attached owner) (fun _ => rfl) keys key t.deposits
  by_cases hkey : key ∈ keys
  · rw [if_pos hkey] at h ⊢
    exact h
  · rw [if_neg hkey] at h ⊢
    exact h

/-- What a transaction knows of the deposits it attached: each was nobody's and the trader's, and of those
whose delivery found the account, as far as it looked, none is left. -/
structure AttachOk (id : AccountId) (userId : UserId) (trader : List Char) (looked : DepositKey → Prop)
    (keys : List DepositKey) (held : List (AccountsLock × LockMode)) (t : PostbackTables) : Prop where
  locked : ∀ key ∈ keys, (.deposit key, .exclusive) ∈ held
  free : ∀ key ∈ keys, ∀ d, t.deposit key = some d → d.owner = none ∧ d.brokerUserId = trader
  left : ∀ d ∈ t.deposits, d.found = some id → looked d.key → d.key ∈ keys ∨ d.owner = some (userId, id)

/-- A row that an activation, a login or a revocation writes over what is there. -/
structure Rewrites (id : AccountId) (row : LinkedAccountRow) (held : List (AccountsLock × LockMode))
    (t : PostbackTables) : Prop where
  id_eq : row.id = id
  lock : (.account id, .exclusive) ∈ held
  old : ∀ a, t.account id = some a → row.userId = a.userId ∧ row.brokerUserId = a.brokerUserId ∧
    (a.status ≠ .pending → row.status ≠ .pending)
  new : t.account id = none →
    ¬ t.hasTrader row.brokerUserId ∧ (.brokerUser row.brokerUserId, .exclusive) ∈ held

variable {id : AccountId} {row : LinkedAccountRow} {t t' : PostbackTables} {keys : List DepositKey}

/-- No other account is the trader's. -/
theorem Rewrites.unique (h : Rewrites id row held t) (hok : t.Ok) {i : AccountId} {a : LinkedAccountRow}
    (ha : t.account i = some a) (htrader : a.brokerUserId = row.brokerUserId) : i = id := by
  cases hid : t.account id with
  | none => exact absurd ⟨i, a, ha, htrader⟩ (h.new hid).1
  | some a₀ => exact hok.traders i id a a₀ ha hid (htrader.trans (h.old a₀ hid).2.1)

/-- **An account's row with the attribution of its deposits** keeps the tables and what others rely on. -/
theorem Rewrites.guarantee (h : Rewrites id row held db.postbackTables) (hok : db.postbackTables.Ok)
    (hattach : AttachOk id row.userId row.brokerUserId (fun _ => row.status ≠ .pending) keys held
      db.postbackTables)
    (hpending : row.status = .pending → keys = [] ∧
      ∀ a, db.postbackTables.account id = some a → a.status = .pending)
    (haccount : ∀ j, db'.postbackTables.account j =
      if id = j then some row else db.postbackTables.account j)
    (hdeposits : db'.postbackTables.deposits = (db.postbackTables.attach keys (row.userId, id)).deposits)
    (hjournal : db'.postbackTables.journal = db.postbackTables.journal) :
    postbackProtocol.Guarantee held db db' := by
  have hkeys : db'.postbackTables.deposits.map DepositEventRow.key =
      db.postbackTables.deposits.map DepositEventRow.key := by
    rw [hdeposits]
    exact map_key_foldl_modifyAt (key_attached (row.userId, id)) keys _
  have hnodup : (db'.postbackTables.deposits.map DepositEventRow.key).Nodup := by
    rw [hkeys]
    exact hok.deposits
  have hdeposit : ∀ key, db'.postbackTables.deposit key =
      if key ∈ keys then (db.postbackTables.deposit key).map (attached (row.userId, id))
      else db.postbackTables.deposit key := by
    intro key
    unfold PostbackTables.deposit
    rw [hdeposits]
    exact deposit_attach db.postbackTables keys (row.userId, id) key
  have hback : ∀ d' ∈ db'.postbackTables.deposits, ∃ d ∈ db.postbackTables.deposits, d.key = d'.key ∧
      (d'.key ∉ keys ∧ d' = d ∨ d'.key ∈ keys ∧ d' = attached (row.userId, id) d) := by
    intro d' hd'
    have hself := (rowAt_of_mem hnodup hd').symm.trans (hdeposit d'.key)
    split at hself
    · rename_i hmem
      obtain ⟨d, hd, heq⟩ := Option.map_eq_some_iff.mp hself.symm
      exact ⟨d, mem_of_rowAt hd, key_of_rowAt hd, .inr ⟨hmem, heq.symm⟩⟩
    · rename_i hmem
      exact ⟨d', mem_of_rowAt hself.symm, rfl, .inl ⟨hmem, rfl⟩⟩
  have hactive : ∀ key ∈ keys, row.status ≠ .pending := by
    intro key hkey hp
    rw [(hpending hp).1] at hkey
    cases hkey
  have hok' : db'.postbackTables.Ok := by
    refine ⟨hnodup, ?_, fun i j a b ha hb htrader => ?_, fun d' hd' i hfound => ?_⟩
    · rw [hjournal]
      exact hok.journal
    · rw [haccount] at ha hb
      split at ha
      · rename_i hi
        obtain rfl := Option.some.inj ha
        split at hb
        · rename_i hj
          exact hi.symm.trans hj
        · exact hi.symm.trans (h.unique hok hb htrader.symm).symm
      · split at hb
        · rename_i hj
          obtain rfl := Option.some.inj hb
          exact (h.unique hok ha htrader).trans hj
        · exact hok.traders i j a b ha hb htrader
    · obtain ⟨d, hd, hkey, hcase⟩ := hback d' hd'
      have hdfound : d.found = some i := by
        rcases hcase with ⟨-, rfl⟩ | ⟨-, rfl⟩
        · exact hfound
        · exact hfound
      obtain ⟨a, ha, htrader, hown, hconf⟩ := hok.attributed d hd i hdfound
      rw [haccount]
      by_cases hi : id = i
      · subst hi
        rw [if_pos rfl]
        obtain ⟨huser, htrader', hstatus⟩ := h.old a ha
        refine ⟨row, rfl, ?_⟩
        rcases hcase with ⟨hnot, rfl⟩ | ⟨hmem, rfl⟩
        · refine ⟨htrader'.trans htrader, fun hp => hown ((hpending hp).2 a ha), fun hne => ?_⟩
          rw [h.id_eq]
          rcases hattach.left d' hd hfound hne with hmem | howner
          · exact absurd hmem hnot
          · exact howner
        · refine ⟨htrader'.trans htrader, fun hp => absurd hp (hactive _ hmem), fun _ => ?_⟩
          rw [h.id_eq]
          rfl
      · rw [if_neg hi]
        refine ⟨a, ha, ?_⟩
        rcases hcase with ⟨-, rfl⟩ | ⟨hmem, rfl⟩
        · exact ⟨htrader, hown, hconf⟩
        · have hself : db.postbackTables.deposit d.key = some d := deposit_eq_some_of_mem hok hd
          obtain ⟨-, htrader'⟩ := hattach.free d.key hmem d hself
          exact absurd (h.unique hok ha (htrader.trans htrader')).symm hi
  have hgrows : db.postbackTables.Grows db'.postbackTables := by
    refine ⟨fun i a ha => ?_, fun key d hd => ?_, ?_⟩
    · rw [haccount]
      by_cases hi : id = i
      · subst hi
        rw [if_pos rfl]
        obtain ⟨huser, htrader, hstatus⟩ := h.old a ha
        exact ⟨row, rfl, huser, htrader, hstatus⟩
      · rw [if_neg hi]
        exact ⟨a, ha, rfl, rfl, fun hne => hne⟩
    · rw [hdeposit, hd]
      split
      · rename_i hmem
        exact ⟨_, rfl, .inr ⟨(hattach.free key hmem d hd).1, _, rfl⟩⟩
      · exact ⟨d, rfl, .inl rfl⟩
    · rw [hjournal]
  have hsame : ∀ mode l, (l, .exclusive) ∉ held → Same mode l db.postbackTables db'.postbackTables := by
    intro mode l hl
    cases l with
    | account i =>
      have hi : id ≠ i := by
        rintro rfl
        exact hl h.lock
      refine ⟨by rw [haccount, if_neg hi], fun _ => ?_⟩
      rintro key ⟨d', hd', hfound, rfl⟩
      obtain ⟨d, hd, hkey, hcase⟩ := hback d' hd'
      refine ⟨d, hd, ?_, hkey⟩
      rcases hcase with ⟨-, rfl⟩ | ⟨-, rfl⟩
      · exact hfound
      · exact hfound
    | brokerUser brokerUserId =>
      rintro ⟨i, a, ha, htrader⟩
      rw [haccount] at ha
      split at ha
      · obtain rfl := Option.some.inj ha
        cases hid : db.postbackTables.account id with
        | some a₀ => exact ⟨id, a₀, hid, (h.old a₀ hid).2.1.symm.trans htrader⟩
        | none =>
          have hlock := (h.new hid).2
          rw [htrader] at hlock
          exact absurd hlock hl
      · exact ⟨i, a, ha, htrader⟩
    | deposit key =>
      show db'.postbackTables.deposit key = db.postbackTables.deposit key
      rw [hdeposit, if_neg (fun hmem => hl (hattach.locked key hmem))]
    | delivery source postbackId =>
      show db'.postbackTables.journaled source postbackId = db.postbackTables.journaled source postbackId
      unfold PostbackTables.journaled
      rw [hjournal]
    | _ => trivial
  exact ⟨hok', hgrows, fun l hl => hsame .exclusive l (hl .exclusive), fun l hl => hsame .share l hl⟩

end Commits

end Binarius
