import Mathlib.Tactic
import Binarius.Db.Accounts.Link
import Binarius.Lib.Owed

/-!
# Db.BonusTables — users, accounts, rules and the bonus ledger, and what their writers owe each other
(packages/db/src: oauth-ops.ts, bonus-rule-ops.ts, link-bonus-ops.ts, referral-reward-ops.ts)

* `BonusTables.Ok`: one link bonus a user, one reward a referral, and **every amount is its rule
  version's**.
* `bonusProtocol`: what every commit keeps, and what each lock protects.
* `guarantee_addBonus` and the other writes: what a commit of each owes, and what it passes on.
-/

namespace Binarius

open Lib

/-! ## The tables -/

section Inserted

variable {ρ κ : Type} [Keyed ρ κ] [DecidableEq κ]

theorem inserted_of_taken {t : Table ρ} {r r' : ρ} (h : t.find? (key r) = some r') : t.inserted r = t := by
  unfold Table.inserted
  rw [Table.insert?_eq_none.mpr ⟨r', h⟩]
  rfl

/-- What a key shows after an insert depends on what it showed before. -/
theorem find?_inserted_congr {t t' : Table ρ} (r : ρ) {k : κ} (h : t'.find? k = t.find? k) :
    (t'.inserted r).find? k = (t.inserted r).find? k := by
  have hother : ∀ u : Table ρ, key r ≠ k → (u.inserted r).find? k = u.find? k := by
    intro u hne
    cases hu : u.find? (key r) with
    | none => rw [Table.find?_inserted hu, if_neg hne]
    | some r' => rw [inserted_of_taken hu]
  by_cases hk : key r = k
  · subst hk
    cases ht : t.find? (key r) with
    | none => rw [Table.find?_inserted ht, Table.find?_inserted (h.trans ht), if_pos rfl, if_pos rfl]
    | some r' => rw [inserted_of_taken ht, inserted_of_taken (h.trans ht), h]
  · rw [hother t' hk, hother t hk, h]

end Inserted

/-- What the logins, the confirmations and the rule writers share. -/
structure BonusTables where
  users : Table UserRow
  accounts : Table LinkedAccountRow
  rules : List BonusRuleRow
  ledger : List BonusLedgerRow

def AccountsDb.bonusTables (db : AccountsDb) : BonusTables :=
  ⟨db.users, db.brokerAccounts, db.bonusRules, db.bonusLedger⟩

/-- The fixed amount of a rule version. -/
def BonusRuleRow.tokens (rule : BonusRuleRow) : Option ℤ :=
  (parseBonusRuleParams rule.kind rule.params).bind BonusRuleParams.tokens

namespace BonusTables

def user (t : BonusTables) (id : UserId) : Option UserRow := t.users.find? id

def account (t : BonusTables) (id : AccountId) : Option LinkedAccountRow := t.accounts.find? id

def rule (t : BonusTables) (id : BonusRuleId) : Option BonusRuleRow := rowAt BonusRuleRow.id t.rules id

def hasLinkBonus (t : BonusTables) (userId : UserId) : Bool :=
  t.ledger.any (fun row => row.userId = userId && row.brokerAccountId.isSome)

def hasReward (t : BonusTables) (referralId : ReferralId) : Bool :=
  t.ledger.any (fun row => row.referralId = some referralId)

def balance (t : BonusTables) (userId : UserId) : ℤ := ((t.user userId).map (·.tokenBalance)).getD 0

/-! ### Writes -/

def setUser (id : UserId) (f : UserRow → UserRow) (t : BonusTables) : BonusTables :=
  { t with users := t.users.modified id f }

def addUser (row : UserRow) (t : BonusTables) : BonusTables := { t with users := t.users.inserted row }

def setAccount (id : AccountId) (f : LinkedAccountRow → LinkedAccountRow) (t : BonusTables) : BonusTables :=
  { t with accounts := t.accounts.modified id f }

def addAccount (row : LinkedAccountRow) (t : BonusTables) : BonusTables :=
  { t with accounts := t.accounts.inserted row }

def addBonus (row : BonusLedgerRow) (t : BonusTables) : BonusTables := { t with ledger := row :: t.ledger }

def addRule (row : BonusRuleRow) (t : BonusTables) : BonusTables := { t with rules := row :: t.rules }

def setRule (id : BonusRuleId) (isActive : Bool) (t : BonusTables) : BonusTables :=
  { t with rules := modifyAt BonusRuleRow.id id (fun rule => { rule with isActive := isActive }) t.rules }

/-! ### The invariant and the protocol -/

/-- The ledger's two partial unique indexes, and the amounts. -/
structure Ok (t : BonusTables) : Prop where
  rules : (t.rules.map BonusRuleRow.id).Nodup
  linkBonus : ((t.ledger.filter (fun row => row.brokerAccountId.isSome)).map BonusLedgerRow.userId).Nodup
  reward : (t.ledger.filterMap BonusLedgerRow.referralId).Nodup
  amounts : ∀ row ∈ t.ledger, ∃ rule, t.rule row.bonusRuleId = some rule ∧ rule.tokens =
    some row.balanceDelta

/-- What every commit keeps: whose Telegram account a user is, whose broker account an account is, what
a rule version pays, the ledger. -/
structure Grows (t t' : BonusTables) : Prop where
  users : ∀ id u, t.user id = some u → ∃ u', t'.user id = some u' ∧ u'.telegramUserId = u.telegramUserId
  accounts : ∀ id a, t.account id = some a → ∃ a', t'.account id = some a' ∧ a'.brokerUserId =
    a.brokerUserId
  rules : ∀ id rule, t.rule id = some rule → ∃ rule', t'.rule id = some rule' ∧ rule'.tokens = rule.tokens
  ledger : t.ledger <:+ t'.ledger

/-- What a lock protects. -/
def Same (l : AccountsLock) (t t' : BonusTables) : Prop :=
  match l with
  | .user id => t'.user id = t.user id
  | .account id => t'.account id = t.account id
  | .linkBonus userId => t'.hasLinkBonus userId = t.hasLinkBonus userId
  | .referralReward referralId => t'.hasReward referralId = t.hasReward referralId
  | .rule id => t'.rule id = t.rule id
  | _ => True

variable {t t' t'' : BonusTables}

theorem Grows.refl (t : BonusTables) : t.Grows t :=
  ⟨fun _ u h => ⟨u, h, rfl⟩, fun _ a h => ⟨a, h, rfl⟩, fun _ rule h => ⟨rule, h, rfl⟩, List.suffix_rfl⟩

theorem Grows.trans (h : t.Grows t') (h' : t'.Grows t'') : t.Grows t'' := by
  refine ⟨fun id u hu => ?_, fun id a ha => ?_, fun id rule hrule => ?_, h.ledger.trans h'.ledger⟩
  · obtain ⟨u', hu', heq⟩ := h.users id u hu
    obtain ⟨u'', hu'', heq'⟩ := h'.users id u' hu'
    exact ⟨u'', hu'', heq'.trans heq⟩
  · obtain ⟨a', ha', heq⟩ := h.accounts id a ha
    obtain ⟨a'', ha'', heq'⟩ := h'.accounts id a' ha'
    exact ⟨a'', ha'', heq'.trans heq⟩
  · obtain ⟨rule', hrule', heq⟩ := h.rules id rule hrule
    obtain ⟨rule'', hrule'', heq'⟩ := h'.rules id rule' hrule'
    exact ⟨rule'', hrule'', heq'.trans heq⟩

theorem Grows.tokens (h : t.Grows t') {id : BonusRuleId} {tokens : ℤ}
    (hrule : ∃ rule, t.rule id = some rule ∧ rule.tokens = some tokens) :
    ∃ rule, t'.rule id = some rule ∧ rule.tokens = some tokens := by
  obtain ⟨rule, hrule, htokens⟩ := hrule
  obtain ⟨rule', hrule', heq⟩ := h.rules id rule hrule
  exact ⟨rule', hrule', heq.trans htokens⟩

theorem Same.refl (l : AccountsLock) (t : BonusTables) : Same l t t := by
  cases l with
  | _ => first | rfl | trivial

theorem Same.trans {l : AccountsLock} (h : Same l t t') (h' : Same l t' t'') : Same l t t'' := by
  cases l with
  | _ => first | exact Eq.trans h' h | trivial

end BonusTables

/-- What the payers and the rule writers owe each other. -/
def bonusTablesProtocol : Protocol BonusTables AccountsLock where
  inv t := t.Ok
  rely t t' := t.Grows t'
  same _ l t t' := BonusTables.Same l t t'
  rely_refl t := .refl t
  rely_trans h h' := h.trans h'
  same_refl _ l t := .refl l t
  same_trans h h' := h.trans h'

abbrev bonusProtocol : Protocol AccountsDb AccountsLock := bonusTablesProtocol.comap AccountsDb.bonusTables

namespace BonusTables

section Writes

variable {held : List (AccountsLock × LockMode)} {t t' : BonusTables}

theorem guarantee_of_same (hok : t'.Ok) (hgrows : t.Grows t')
    (hsame : ∀ l, (l, .exclusive) ∉ held → Same l t t') : bonusTablesProtocol.Guarantee held t t' :=
  ⟨hok, hgrows, fun l hl => hsame l (hl .exclusive), fun l hl => hsame l hl⟩

/-! ### Users -/

section Users

variable {id : UserId} {f : UserRow → UserRow}

theorem user_setUser (hf : ∀ u, (f u).id = u.id) (t : BonusTables) (j : UserId) :
    (t.setUser id f).user j = if id = j then (t.user j).map f else t.user j :=
  Table.find?_modified hf id j

theorem guarantee_setUser (hok : t.Ok) (hf : ∀ u, (f u).id = u.id)
    (htelegram : ∀ u, (f u).telegramUserId = u.telegramUserId) (hlock : (.user id, .exclusive) ∈ held) :
    bonusTablesProtocol.Guarantee held t (t.setUser id f) := by
  refine guarantee_of_same ⟨hok.rules, hok.linkBonus, hok.reward, hok.amounts⟩
    ⟨fun j u hu => ?_, (Grows.refl t).accounts, (Grows.refl t).rules, List.suffix_rfl⟩ (fun l hl => ?_)
  · rw [user_setUser hf, hu]
    split
    · exact ⟨f u, rfl, htelegram u⟩
    · exact ⟨u, rfl, rfl⟩
  · cases l with
    | user j =>
      refine (user_setUser hf t j).trans (if_neg ?_)
      rintro rfl
      exact hl hlock
    | _ => first | rfl | trivial

theorem passes_setUser (hf : ∀ u, (f u).id = u.id) : bonusTablesProtocol.Passes (setUser id f) := by
  intro mode l a b hab
  cases l with
  | user j =>
    show (b.setUser id f).user j = (a.setUser id f).user j
    have hj : b.user j = a.user j := hab
    rw [user_setUser hf, user_setUser hf, hj]
  | _ => exact hab

theorem user_addUser {row : UserRow} (h : t.user row.id = none) (j : UserId) :
    (t.addUser row).user j = if row.id = j then some row else t.user j :=
  Table.find?_inserted h j

theorem guarantee_addUser {row : UserRow} (hok : t.Ok) (hnone : t.user row.id = none)
    (hlock : (.user row.id, .exclusive) ∈ held) :
    bonusTablesProtocol.Guarantee held t (t.addUser row) := by
  refine guarantee_of_same ⟨hok.rules, hok.linkBonus, hok.reward, hok.amounts⟩
    ⟨fun j u hu => ⟨u, ?_, rfl⟩, (Grows.refl t).accounts, (Grows.refl t).rules, List.suffix_rfl⟩
      (fun l hl => ?_)
  · rw [user_addUser hnone, if_neg]
    · exact hu
    · rintro rfl
      rw [hnone] at hu
      cases hu
  · cases l with
    | user j =>
      refine (user_addUser hnone j).trans (if_neg ?_)
      rintro rfl
      exact hl hlock
    | _ => first | rfl | trivial

theorem passes_addUser (row : UserRow) : bonusTablesProtocol.Passes (addUser row) := by
  intro mode l a b hab
  cases l with
  | user j =>
    exact find?_inserted_congr row hab
  | _ => exact hab

end Users

/-! ### Accounts -/

section Accounts

variable {id : AccountId} {f : LinkedAccountRow → LinkedAccountRow}

theorem account_setAccount (hf : ∀ a, (f a).id = a.id) (t : BonusTables) (j : AccountId) :
    (t.setAccount id f).account j = if id = j then (t.account j).map f else t.account j :=
  Table.find?_modified hf id j

theorem guarantee_setAccount (hok : t.Ok) (hf : ∀ a, (f a).id = a.id)
    (htrader : ∀ a, (f a).brokerUserId = a.brokerUserId) (hlock : (.account id, .exclusive) ∈ held) :
    bonusTablesProtocol.Guarantee held t (t.setAccount id f) := by
  refine guarantee_of_same ⟨hok.rules, hok.linkBonus, hok.reward, hok.amounts⟩
    ⟨(Grows.refl t).users, fun j a ha => ?_, (Grows.refl t).rules, List.suffix_rfl⟩ (fun l hl => ?_)
  · rw [account_setAccount hf, ha]
    split
    · exact ⟨f a, rfl, htrader a⟩
    · exact ⟨a, rfl, rfl⟩
  · cases l with
    | account j =>
      refine (account_setAccount hf t j).trans (if_neg ?_)
      rintro rfl
      exact hl hlock
    | _ => first | rfl | trivial

theorem passes_setAccount (hf : ∀ a, (f a).id = a.id) : bonusTablesProtocol.Passes (setAccount id f) := by
  intro mode l a b hab
  cases l with
  | account j =>
    show (b.setAccount id f).account j = (a.setAccount id f).account j
    have hj : b.account j = a.account j := hab
    rw [account_setAccount hf, account_setAccount hf, hj]
  | _ => exact hab

theorem account_addAccount {row : LinkedAccountRow} (h : t.account row.id = none) (j : AccountId) :
    (t.addAccount row).account j = if row.id = j then some row else t.account j :=
  Table.find?_inserted h j

theorem guarantee_addAccount {row : LinkedAccountRow} (hok : t.Ok) (hnone : t.account row.id = none)
    (hlock : (.account row.id, .exclusive) ∈ held) :
    bonusTablesProtocol.Guarantee held t (t.addAccount row) := by
  refine guarantee_of_same ⟨hok.rules, hok.linkBonus, hok.reward, hok.amounts⟩
    ⟨(Grows.refl t).users, fun j a ha => ⟨a, ?_, rfl⟩, (Grows.refl t).rules, List.suffix_rfl⟩
      (fun l hl => ?_)
  · rw [account_addAccount hnone, if_neg]
    · exact ha
    · rintro rfl
      rw [hnone] at ha
      cases ha
  · cases l with
    | account j =>
      refine (account_addAccount hnone j).trans (if_neg ?_)
      rintro rfl
      exact hl hlock
    | _ => first | rfl | trivial

theorem passes_addAccount (row : LinkedAccountRow) : bonusTablesProtocol.Passes (addAccount row) := by
  intro mode l a b hab
  cases l with
  | account j =>
    exact find?_inserted_congr row hab
  | _ => exact hab

end Accounts

/-! ### The ledger -/

theorem hasLinkBonus_addBonus (row : BonusLedgerRow) (t : BonusTables) (userId : UserId) :
    (t.addBonus row).hasLinkBonus userId =
      ((row.userId = userId && row.brokerAccountId.isSome) || t.hasLinkBonus userId) := List.any_cons

theorem hasReward_addBonus (row : BonusLedgerRow) (t : BonusTables) (referralId : ReferralId) :
    (t.addBonus row).hasReward referralId = (decide (row.referralId = some referralId) || t.hasReward
      referralId) :=
  List.any_cons

theorem passes_addBonus (row : BonusLedgerRow) : bonusTablesProtocol.Passes (addBonus row) := by
  intro mode l a b hab
  cases l with
  | linkBonus userId =>
    show (b.addBonus row).hasLinkBonus userId = (a.addBonus row).hasLinkBonus userId
    have h : b.hasLinkBonus userId = a.hasLinkBonus userId := hab
    rw [hasLinkBonus_addBonus, hasLinkBonus_addBonus, h]
  | referralReward referralId =>
    show (b.addBonus row).hasReward referralId = (a.addBonus row).hasReward referralId
    have h : b.hasReward referralId = a.hasReward referralId := hab
    rw [hasReward_addBonus, hasReward_addBonus, h]
  | _ => exact hab

/-- A bonus takes its arbiter's key, under the key's lock, with its rule version's amount. -/
theorem guarantee_addBonus {reference : BonusReference} {userId : UserId} {tokens : ℤ} {rule : BonusRuleRow}
    (hok : t.Ok) (hfree : match reference with
      | .brokerAccount _ => t.hasLinkBonus userId = false
      | .referral id => t.hasReward id = false)
    (hrule : ∃ rule', t.rule rule.id = some rule' ∧ rule'.tokens = some tokens)
    (hlock : (reference.arbiter userId, .exclusive) ∈ held) :
    bonusTablesProtocol.Guarantee held t (t.addBonus (reference.row userId tokens rule)) := by
  have hamounts : ∀ row ∈ reference.row userId tokens rule :: t.ledger,
      ∃ rule', t.rule row.bonusRuleId = some rule' ∧ rule'.tokens = some row.balanceDelta := by
    rintro row hmem
    rcases List.mem_cons.mp hmem with rfl | hmem
    · exact hrule
    · exact hok.amounts row hmem
  have hgrows : t.Grows (t.addBonus (reference.row userId tokens rule)) :=
    ⟨(Grows.refl t).users, (Grows.refl t).accounts, (Grows.refl t).rules, List.suffix_cons _ _⟩
  cases reference with
  | brokerAccount id =>
    refine guarantee_of_same ⟨hok.rules, ?_, hok.reward, hamounts⟩ hgrows (fun l hl => ?_)
    · show (userId :: (t.ledger.filter _).map _).Nodup
      refine List.nodup_cons.mpr ⟨fun hmem => ?_, hok.linkBonus⟩
      obtain ⟨row, hrow, rfl⟩ := List.mem_map.mp hmem
      obtain ⟨hmem, hsome⟩ := List.mem_filter.mp hrow
      have htaken : t.hasLinkBonus row.userId = true :=
        List.any_eq_true.mpr ⟨row, hmem, by simpa using hsome⟩
      rw [hfree] at htaken
      cases htaken
    · cases l with
      | linkBonus j =>
        have hne : userId ≠ j := by
          rintro rfl
          exact hl hlock
        refine (hasLinkBonus_addBonus _ t j).trans ?_
        simp [BonusReference.row, hne]
      | referralReward j => exact hasReward_addBonus _ t j
      | _ => first | rfl | trivial
  | referral id =>
    refine guarantee_of_same ⟨hok.rules, hok.linkBonus, ?_, hamounts⟩ hgrows (fun l hl => ?_)
    · show (id :: t.ledger.filterMap _).Nodup
      refine List.nodup_cons.mpr ⟨fun hmem => ?_, hok.reward⟩
      obtain ⟨row, hmem, hid⟩ := List.mem_filterMap.mp hmem
      have htaken : t.hasReward id = true := List.any_eq_true.mpr ⟨row, hmem, by simpa using hid⟩
      rw [hfree] at htaken
      cases htaken
    · cases l with
      | linkBonus j =>
        refine (hasLinkBonus_addBonus _ t j).trans ?_
        simp [BonusReference.row]
      | referralReward j =>
        have hne : id ≠ j := by
          rintro rfl
          exact hl hlock
        refine (hasReward_addBonus _ t j).trans ?_
        simp [BonusReference.row, hne]
      | _ => first | rfl | trivial

/-! ### The rules -/

theorem rule_addRule (row : BonusRuleRow) (t : BonusTables) (id : BonusRuleId) :
    (t.addRule row).rule id = if row.id = id then some row else t.rule id := rowAt_cons row t.rules id

theorem id_active (isActive : Bool) (rule : BonusRuleRow) :
    ({ rule with isActive := isActive } : BonusRuleRow).id = rule.id := rfl

theorem rule_setRule (id : BonusRuleId) (isActive : Bool) (t : BonusTables) (j : BonusRuleId) :
    (t.setRule id isActive).rule j =
      if id = j then (t.rule j).map (fun rule => { rule with isActive := isActive }) else t.rule j :=
  rowAt_modifyAt (id_active isActive) id j t.rules

theorem Grows.of_rules (h : ∀ id rule, t.rule id = some rule →
    ∃ rule', t'.rule id = some rule' ∧ rule'.tokens = rule.tokens) (husers : t'.users = t.users)
    (haccounts : t'.accounts = t.accounts) (hledger : t'.ledger = t.ledger) : t.Grows t' := by
  refine ⟨fun id u hu => ⟨u, ?_, rfl⟩, fun id a ha => ⟨a, ?_, rfl⟩, h, ?_⟩
  · show t'.users.find? id = some u
    rw [husers]
    exact hu
  · show t'.accounts.find? id = some a
    rw [haccounts]
    exact ha
  · rw [hledger]

theorem Ok.of_rules (hok : t.Ok) (hgrows : t.Grows t') (hrules : (t'.rules.map BonusRuleRow.id).Nodup)
    (hledger : t'.ledger = t.ledger) : t'.Ok := by
  refine ⟨hrules, ?_, ?_, fun row hmem => ?_⟩
  · rw [hledger]
    exact hok.linkBonus
  · rw [hledger]
    exact hok.reward
  · rw [hledger] at hmem
    exact hgrows.tokens (hok.amounts row hmem)

theorem guarantee_addRule {row : BonusRuleRow} (hok : t.Ok) (hnone : t.rule row.id = none)
    (hlock : (.rule row.id, .exclusive) ∈ held) : bonusTablesProtocol.Guarantee held t (t.addRule row) := by
  have hgrows : t.Grows (t.addRule row) := by
    refine Grows.of_rules (fun id rule hrule => ⟨rule, ?_, rfl⟩) rfl rfl rfl
    rw [rule_addRule, if_neg]
    · exact hrule
    · rintro rfl
      rw [hnone] at hrule
      cases hrule
  refine guarantee_of_same (hok.of_rules hgrows (nodup_cons_key hok.rules hnone) rfl) hgrows
    (fun l hl => ?_)
  cases l with
  | rule id =>
    refine (rule_addRule row t id).trans (if_neg ?_)
    rintro rfl
    exact hl hlock
  | _ => first | rfl | trivial

theorem passes_addRule (row : BonusRuleRow) : bonusTablesProtocol.Passes (addRule row) := by
  intro mode l a b hab
  cases l with
  | rule id =>
    show (b.addRule row).rule id = (a.addRule row).rule id
    have h : b.rule id = a.rule id := hab
    rw [rule_addRule, rule_addRule, h]
  | _ => exact hab

theorem guarantee_setRule {id : BonusRuleId} {isActive : Bool} (hok : t.Ok)
    (hlock : (.rule id, .exclusive) ∈ held) :
    bonusTablesProtocol.Guarantee held t (t.setRule id isActive) := by
  have hgrows : t.Grows (t.setRule id isActive) := by
    refine Grows.of_rules (fun j rule hrule => ?_) rfl rfl rfl
    rw [rule_setRule, hrule]
    split
    · exact ⟨_, rfl, rfl⟩
    · exact ⟨rule, rfl, rfl⟩
  have hrules : ((t.setRule id isActive).rules.map BonusRuleRow.id).Nodup := by
    show ((modifyAt BonusRuleRow.id id _ t.rules).map _).Nodup
    rw [map_key_modifyAt (id_active isActive)]
    exact hok.rules
  refine guarantee_of_same (hok.of_rules hgrows hrules rfl) hgrows (fun l hl => ?_)
  cases l with
  | rule j =>
    refine (rule_setRule id isActive t j).trans (if_neg ?_)
    rintro rfl
    exact hl hlock
  | _ => first | rfl | trivial

theorem passes_setRule (id : BonusRuleId) (isActive : Bool) :
    bonusTablesProtocol.Passes (setRule id isActive) := by
  intro mode l a b hab
  cases l with
  | rule j =>
    show (b.setRule id isActive).rule j = (a.setRule id isActive).rule j
    have h : b.rule j = a.rule j := hab
    rw [rule_setRule, rule_setRule, h]
  | _ => exact hab

end Writes

end BonusTables

end Binarius
