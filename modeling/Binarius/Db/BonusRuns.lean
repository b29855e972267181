import Mathlib.Tactic
import Binarius.Db.BonusPayers

/-!
# Db.BonusRuns — every interleaving of the payers and the rule writers
(packages/db/src: oauth-ops.ts, bonus-rule-ops.ts, link-bonus-ops.ts, referral-reward-ops.ts)

* `BonusPost`: what a commit does to the ledger, the balances and the accounts.
* `bonus_linkBrokerAccount`, `bonus_confirmBrokerAccount`: the two payers.
* `bonuses_paid_once`: **one link bonus a user and one reward a referral, over any run**.
-/

namespace Binarius

open Lib

/-! ## What a commit does -/

inductive BonusCall
  | linkBrokerAccount (now : UnixMs) (input : LinkBrokerAccountInput)
  | confirmBrokerAccount (now : UnixMs) (telegramUserId : ℕ) (accountId : AccountId)
  | createBonusRuleVersion (code : String) (kind : Option BonusRuleKind) (params : RawParams)
  | activateBonusRuleVersion (code : String) (version : ℕ)
  | deactivateBonusRule (code : String)
  | recordUserStart (id : UserId) (telegramUserId : ℕ) (referral : Option ReferralRow)
  | setUserStatus (id : UserId) (status : UserStatus)
  | revokeAccount (id : AccountId)

/-- The answers of the payers. -/
inductive BonusReply
  | login (result : LinkResult)
  | confirmation (result : ConfirmResult)
  | done

/-- A transaction that pays nothing, and its answer is left out. -/
def AccountsTx.unpaid {α : Type} (p : AccountsTx α) : AccountsTx BonusReply := do
  let _ ← p
  return .done

def BonusCall.program : BonusCall → AccountsTx BonusReply
  | .linkBrokerAccount now input => do
    let result ← AccountsTx.linkBrokerAccount now input
    return .login result
  | .confirmBrokerAccount now telegramUserId accountId => do
    let result ← AccountsTx.confirmBrokerAccount now telegramUserId accountId
    return .confirmation result
  | .createBonusRuleVersion code kind params => (AccountsTx.createBonusRuleVersion code kind params).unpaid
  | .activateBonusRuleVersion code version => (AccountsTx.activateBonusRuleVersion code version).unpaid
  | .deactivateBonusRule code => (AccountsTx.deactivateBonusRule code).unpaid
  | .recordUserStart id telegramUserId referral =>
    (AccountsTx.recordUserStart (newUserRow id telegramUserId) referral).unpaid
  | .setUserStatus id status => (AccountsTx.setUserStatus id status).unpaid
  | .revokeAccount id => (AccountsTx.revokeAccount id).unpaid

/-- The account that a payer answers with. -/
def BonusReply.account : BonusReply → Option LinkedAccountRow
  | .login (.linked account _ _) => some account
  | .confirmation (.confirmed account _ _) => some account
  | _ => none

/-- The rows are those that the answer tells of: an `already_granted` or an `already_rewarded` writes
none. -/
def BonusReply.Writes (reply : BonusReply) (link reward : List BonusLedgerRow) : Prop :=
  match reply with
  | .login (.linked account grant referral) =>
    grant.elim (link = []) (·.Writes account.userId account link) ∧
      referral.elim (reward = []) (·.Writes account reward)
  | .confirmation (.confirmed account grant referral) =>
    grant.Writes account.userId account link ∧ referral.Writes account reward
  | _ => link = [] ∧ reward = []

/-- Who makes an account active: its login that activates, its callback when it is not pending, the
confirmation of its owner. -/
def BonusCall.Activates (call : BonusCall) (t : BonusTables) (id : AccountId) (account : LinkedAccountRow) :
    Prop :=
  match call with
  | .linkBrokerAccount _ input =>
    account.brokerUserId = input.brokerUserId ∧
      (input.activate = true ∨ ∃ old, t.account id = some old ∧ old.status ≠ .pending)
  | .confirmBrokerAccount _ telegramUserId accountId =>
    id = accountId ∧ ∃ u, t.user account.userId = some u ∧ u.telegramUserId = telegramUserId
  | _ => False

/-- What a commit does to the ledger, the balances and the accounts. -/
structure BonusPost (call : BonusCall) (t t' : BonusTables) (reply : BonusReply)
    (link reward : List BonusLedgerRow) : Prop where
  writes : reply.Writes link reward
  ledger : t'.ledger = reward ++ link ++ t.ledger
  balance : ∀ userId, t'.balance userId = t.balance userId + credits (reward ++ link) userId
  triggered : ∀ row ∈ reward ++ link, ∃ account, reply.account = some account ∧
    t'.account account.id = some account ∧ account.status = .active ∧ account.isPartnerClient = true
  inviter : ∀ row ∈ reward, t'.Usable row.userId
  activated : ∀ id a, t'.account id = some a → a.status = .active →
    (∃ old, t.account id = some old ∧ old.status = .active) ∨ call.Activates t id a
  confirmed : ∀ id a, t'.account id = some a → a.status ≠ .pending →
    (∃ old, t.account id = some old ∧ old.status ≠ .pending) ∨ a.status = .active

section Commits

open AccountsTx TxProg BonusTables

variable {held : List (AccountsLock × LockMode)} {db : AccountsDb} {writes : AccountsDb → AccountsDb}
  {known : List UserId} {link reward : List BonusLedgerRow} {t t' : BonusTables} {call : BonusCall}
  {reply : BonusReply} {account : LinkedAccountRow} {old : Option LinkedAccountRow}

theorem LinkBonusGrant.Writes.partner {grant : LinkBonusGrant} {userId : UserId}
    (h : grant.Writes userId account link) : ∀ row ∈ link, account.isPartnerClient = true := by
  cases grant with
  | granted tokens => exact fun _ _ => h.1
  | skipped reason =>
    obtain rfl : link = [] := h
    exact fun _ hmem => absurd hmem List.not_mem_nil

theorem ReferralRewardResult.Writes.partner {result : ReferralRewardResult}
    (h : result.Writes account reward) : ∀ row ∈ reward, account.isPartnerClient = true := by
  cases result with
  | rewarded referralId inviterUserId tokens ruleId => exact fun _ _ => h.1
  | skipped reason referralId =>
    obtain rfl : reward = [] := h
    exact fun _ hmem => absurd hmem List.not_mem_nil

/-- Bonus rows are written for a partner's client. -/
theorem BonusReply.Writes.partner (h : reply.Writes link reward) (hreply : reply.account = some account) :
    ∀ row ∈ reward ++ link, account.isPartnerClient = true := by
  rintro row hmem
  cases reply with
  | login result =>
    cases result with
    | linked account' grant referral =>
      obtain rfl := Option.some.inj hreply
      obtain ⟨hgrant, hreferral⟩ := h
      rcases List.mem_append.mp hmem with hmem | hmem
      · cases referral with
        | none =>
          obtain rfl : reward = [] := hreferral
          cases hmem
        | some result => exact ReferralRewardResult.Writes.partner hreferral row hmem
      · cases grant with
        | none =>
          obtain rfl : link = [] := hgrant
          cases hmem
        | some grant => exact LinkBonusGrant.Writes.partner hgrant row hmem
    | refused reason => cases hreply
  | confirmation result =>
    cases result with
    | confirmed account' grant referral =>
      obtain rfl := Option.some.inj hreply
      rcases List.mem_append.mp hmem with hmem | hmem
      · exact ReferralRewardResult.Writes.partner h.2 row hmem
      · exact LinkBonusGrant.Writes.partner h.1 row hmem
    | refused reason => cases hreply
  | done => cases hreply

/-- A payer's account: the row it wrote over the row it found. -/
def BonusTables.Wrote (account : LinkedAccountRow) (old : Option LinkedAccountRow) (t : BonusTables)
    (accounts : Table LinkedAccountRow) : Prop :=
  t.account account.id = old ∧ ∀ j, accounts.find? j = if account.id = j then some account else t.account j

/-- Nothing is paid and no account is written. -/
structure BonusTables.Quiet (t t' : BonusTables) : Prop where
  ledger : t'.ledger = t.ledger
  balance : ∀ userId, t'.balance userId = t.balance userId
  accounts : t'.accounts = t.accounts

theorem BonusTables.Quiet.refl (t : BonusTables) : Quiet t t := ⟨rfl, fun _ => rfl, rfl⟩

theorem BonusTables.Quiet.post (h : Quiet t t') (hwrites : reply.Writes [] []) :
    BonusPost call t t' reply [] [] := by
  have haccount : ∀ {id a}, t'.account id = some a → t.account id = some a := by
    intro id a ha
    show t.accounts.find? id = some a
    rw [← h.accounts]
    exact ha
  refine ⟨hwrites, h.ledger, fun userId => ?_, fun _ hmem => absurd hmem List.not_mem_nil,
    fun _ hmem => absurd hmem List.not_mem_nil, fun id a ha hactive => .inl ⟨a, haccount ha, hactive⟩,
    fun id a ha hne => .inl ⟨a, haccount ha, hne⟩⟩
  rw [h.balance]
  exact (add_zero _).symm

theorem BonusTables.Effect.quiet {A : BonusTables → Table LinkedAccountRow → Prop}
    (h : Effect A known [] [] t t') (hA : A t t'.accounts → t'.accounts = t.accounts) : Quiet t t' :=
  ⟨h.ledger, fun userId => (h.balance userId).trans (add_zero _), hA h.accounts⟩

theorem BonusTables.Effect.withAccounts {A A' : BonusTables → Table LinkedAccountRow → Prop}
    {rows credited : List BonusLedgerRow} {accounts : Table LinkedAccountRow}
    (h : Effect A known rows credited t t') (hA : A' t accounts) :
    Effect A' known rows credited t { t' with accounts := accounts } :=
  ⟨h.rules, h.ledger, h.balance, hA, h.known⟩

/-- **A payer's commit.** -/
theorem BonusTables.Effect.post {A : BonusTables → Table LinkedAccountRow → Prop}
    (h : Effect A known (reward ++ link) (reward ++ link) t t') (hwrote : Wrote account old t t'.accounts)
    (hreply : reply.account = some account) (hwrites : reply.Writes link reward)
    (hrows : ∀ row ∈ reward, row.userId ∈ known)
    (hactive : reward ++ link ≠ [] → account.status = .active)
    (hactivates : account.status = .active → call.Activates t account.id account)
    (hconfirmed : account.status ≠ .pending → account.status = .active) :
    BonusPost call t t' reply link reward := by
  have haccount : ∀ {j a}, t'.account j = some a →
      (j = account.id ∧ a = account) ∨ t.account j = some a := by
    intro j a ha
    rw [show t'.account j = _ from hwrote.2 j] at ha
    split at ha
    · rename_i hj
      exact .inl ⟨hj.symm, (Option.some.inj ha).symm⟩
    · exact .inr ha
  refine ⟨hwrites, h.ledger, h.balance, fun row hmem => ?_, fun row hmem => h.known _ (hrows row hmem),
    fun j a ha hstatus => ?_, fun j a ha hne => ?_⟩
  · refine ⟨account, hreply, (hwrote.2 account.id).trans (if_pos rfl), hactive ?_,
      hwrites.partner hreply row hmem⟩
    rintro hnil
    rw [hnil] at hmem
    cases hmem
  · rcases haccount ha with ⟨rfl, rfl⟩ | hold
    · exact .inr (hactivates hstatus)
    · exact .inl ⟨a, hold, hstatus⟩
  · rcases haccount ha with ⟨rfl, rfl⟩ | hold
    · exact .inr (hconfirmed hne)
    · exact .inl ⟨a, hold, hne⟩

theorem wrote_addAccount (haccounts : t'.accounts = t.accounts) (hnone : t'.account account.id = none) :
    Wrote account none t (t'.addAccount account).accounts := by
  have hsame : ∀ j, t'.account j = t.account j := fun j => congrArg (Table.find? · j) haccounts
  refine ⟨(hsame _).symm.trans hnone, fun j => ?_⟩
  rw [← hsame]
  exact account_addAccount hnone j

theorem wrote_setAccount (f : LinkedAccountRow → LinkedAccountRow) (haccounts : t'.accounts = t.accounts)
    (hf : ∀ a, (f a).id = a.id) (ha : t'.account account.id = some account) :
    Wrote (f account) (some account) t (t'.setAccount account.id f).accounts := by
  have hsame : ∀ j, t'.account j = t.account j := fun j => congrArg (Table.find? · j) haccounts
  refine ⟨?_, fun j => ?_⟩
  · rw [hf, ← hsame]
    exact ha
  · refine (account_setAccount hf t' j).trans ?_
    rw [hf, ← hsame]
    by_cases hj : account.id = j
    · subst hj
      rw [if_pos rfl, if_pos rfl, ha]
      rfl
    · rw [if_neg hj, if_neg hj]

/-- A login makes an account active when it activates, or when the account is not pending. -/
theorem relogin_active {input : LinkBrokerAccountInput} (h : (input.relogin account).status = .active) :
    input.activate = true ∨ account.status ≠ .pending := by
  by_contra hnot
  push Not at hnot
  obtain ⟨hactivate, hpending⟩ := hnot
  simp [LinkBrokerAccountInput.relogin, hactivate, hpending] at h

theorem relogin_status {input : LinkBrokerAccountInput} (h : (input.relogin account).status ≠ .pending) :
    (input.relogin account).status = .active := by
  unfold LinkBrokerAccountInput.relogin at h ⊢
  dsimp only at h ⊢
  split at h
  · exact absurd rfl h
  · rename_i hnot
    exact if_neg hnot

/-- What a call's commits do. -/
abbrev CommitsBonus (call : BonusCall) (reply : BonusReply) : List (AccountsLock × LockMode) →
    (AccountsDb → AccountsDb) → AccountsDb → Prop :=
  bonusProtocol.Commits (fun a b reply => ∃ link reward,
    BonusPost call a.bonusTables b.bonusTables reply link reward) reply

theorem bonus_linkBrokerAccount (hok : bonusProtocol.inv db) (now : UnixMs)
    (input : LinkBrokerAccountInput) :
    bonusProtocol.wp (BonusCall.linkBrokerAccount now input).program
      (CommitsBonus (.linkBrokerAccount now input)) [] (fun x => x) db := by
  have h₀ : Paying (fun t accounts => accounts = t.accounts) [] [] [] [] id db :=
    Protocol.Owes.start hok (fun s => Effect.start s.bonusTables)
  have hquiet : ∀ {known held writes db' reason},
      Paying (fun t accounts => accounts = t.accounts) known [] [] held writes db' →
      CommitsBonus (.linkBrokerAccount now input) (.login (.refused reason)) held writes db' := by
    rintro known held writes db' reason h
    exact h.commits (fun a b heffect => ⟨[], [], (heffect.quiet fun hA => hA).post ⟨rfl, rfl⟩⟩)
  unfold BonusCall.program AccountsTx.linkBrokerAccount
  rw [Protocol.wp_monad_bind, Protocol.wp_monad_bind]
  refine wp_upsertUser h₀ (fun held₁ writes₁ db₁ h₁ => hquiet h₁) (fun userId held₁ writes₁ db₁ h₁ => ?_)
  dsimp only
  rw [Protocol.wp_monad_bind]
  refine wp_lockReferralInviter h₁ (fun inviter known held₂ writes₂ db₂ hknown hknows h₂ => ?_)
  have huser : userId ∈ known := hknown _ List.mem_cons_self
  rw [Protocol.wp_monad_bind]
  refine h₂.wp_insertNew
    (fun a b => Effect (Wrote (input.row userId) none) known [] [] a.bonusTables b.bonusTables)
    (fun a b hsame => ?_) ((passes_addAccount _).comap fun _ => rfl)
    (fun a b hok heffect hfresh => ⟨Protocol.Guarantee.comap ?_, ?_⟩) (fun db₃ h₃ => ?_) (fun db₃ h₃ => ?_)
  · exact congrArg Option.isNone hsame
  · exact guarantee_addAccount hok (Option.isNone_iff_eq_none.mp hfresh) List.mem_cons_self
  · exact heffect.withAccounts (wrote_addAccount heffect.accounts (Option.isNone_iff_eq_none.mp hfresh))
  · rw [if_neg Bool.false_ne_true, Protocol.wp_monad_bind]
    refine Protocol.wp_selectForKey (fun _ _ _ => trivial) (fun _ _ _ _ _ _ _ => trivial)
      (fun db₄ db₅ i existing henv₄ hfind henv₅ hexisting => ?_)
    obtain rfl : existing.id = i := Table.key_of_find? hexisting
    have htrader : existing.brokerUserId = input.brokerUserId := by
      have hbefore : (writes₂ db₄).bonusTables.accounts = db₄.bonusTables.accounts :=
        (h₃.env henv₄).now.accounts
      have hafter : (writes₂ db₅).bonusTables.accounts = db₅.bonusTables.accounts :=
        ((h₃.env henv₄).env henv₅).now.accounts
      obtain ⟨found, hfound, hid⟩ := Option.map_eq_some_iff.mp hfind
      have hthere : (writes₂ db₄).bonusTables.accounts.find? found.id = some found :=
        Table.find?_of_mem (List.mem_of_find?_eq_some hfound)
      rw [hbefore] at hthere
      obtain ⟨a, ha, heq⟩ := henv₅.rely.accounts found.id found hthere
      have hexisting : (writes₂ db₅).bonusTables.accounts.find? existing.id = some existing := hexisting
      rw [hafter, ← hid] at hexisting
      obtain rfl := Option.some.inj (ha.symm.trans hexisting)
      exact heq.trans (by simpa using List.find?_some hfound)
    have h₅ := (h₃.env (henv₄.trans henv₅)).lock (.account existing.id) .exclusive
    dsimp only
    split
    · exact hquiet h₅
    · rename_i hmine
      rw [Protocol.wp_monad_bind]
      -- the row it found is the row it writes
      have h₆ := h₅.learn (fun b => b.bonusTables.account existing.id = some existing) List.mem_cons_self
        hexisting (fun a b hsame hF => hF.symm ▸ hsame)
      refine h₆.wp_change (fun a b => Effect (Wrote (input.relogin existing) (some existing)) known [] []
        a.bonusTables b.bonusTables) (fun a b hsame => ?_)
        ((passes_setAccount fun _ => by rfl).comap fun _ => rfl)
        (fun a b hok heffect _ => ⟨Protocol.Guarantee.comap ?_, ?_⟩) (fun _ _ _ _ => trivial)
        (fun db₆ _ h₇ => ?_)
      · exact congrArg Option.isSome hsame
      · exact guarantee_setAccount hok (fun _ => by rfl) (fun _ => by rfl) List.mem_cons_self
      · exact heffect.1.withAccounts (wrote_setAccount input.relogin heffect.1.accounts
          (fun _ => by rfl) heffect.2)
      · rw [if_pos rfl, Protocol.wp_monad_bind]
        refine bonus_creditActivation h₇ huser hknows (fun hactivate => ?_)
          (fun grant result link reward held₄ writes₄ db₄ hgrant hresult hrows hactive h₄ => ?_)
        · simp [LinkBrokerAccountInput.relogin, hactivate]
        · rw [Protocol.wp_pure, Protocol.wp_pure]
          rw [← not_not.mp hmine] at hgrant
          refine h₄.commits (fun a b heffect => ⟨link, reward, heffect.post heffect.accounts rfl
            ⟨hgrant, hresult⟩ hrows hactive (fun hstatus => ?_) (fun hne => ?_)⟩)
          · refine ⟨htrader, (relogin_active hstatus).imp_right (fun hold => ?_)⟩
            exact ⟨existing, heffect.accounts.1, hold⟩
          · exact relogin_status hne
  · rw [if_pos rfl, Protocol.wp_monad_bind]
    refine bonus_creditActivation h₃ huser hknows (fun hactivate => ?_)
      (fun grant result link reward held₄ writes₄ db₄ hgrant hresult hrows hactive h₄ => ?_)
    · simp [LinkBrokerAccountInput.row, hactivate]
    · rw [Protocol.wp_pure, Protocol.wp_pure]
      refine h₄.commits (fun a b heffect => ⟨link, reward, heffect.post heffect.accounts rfl
        ⟨hgrant, hresult⟩ hrows hactive (fun hstatus => ?_) (fun hne => ?_)⟩)
      · refine ⟨rfl, .inl ?_⟩
        by_contra hactivate
        simp [LinkBrokerAccountInput.row, hactivate] at hstatus
      · by_contra hstatus
        cases hactivate : input.activate <;> simp [LinkBrokerAccountInput.row, hactivate] at hne hstatus

/-- The user of a Telegram account, from the start on. -/
def BonusTables.Owner (telegramUserId : ℕ) (userId : UserId) (t : BonusTables) : Prop :=
  ∃ u, t.user userId = some u ∧ u.telegramUserId = telegramUserId

theorem BonusTables.Owner.grows {telegramUserId : ℕ} {userId : UserId} (h : t.Owner telegramUserId userId)
    (hgrows : t.Grows t') : t'.Owner telegramUserId userId := by
  obtain ⟨u, hu, htelegram⟩ := h
  obtain ⟨u', hu', heq⟩ := hgrows.users userId u hu
  exact ⟨u', hu', heq.trans htelegram⟩

theorem owner_of_telegram {telegramUserId : ℕ} {userId : UserId}
    (h : (db.userOfTelegram telegramUserId).map (·.id) = some userId) :
    db.bonusTables.Owner telegramUserId userId := by
  obtain ⟨u, hu, rfl⟩ := Option.map_eq_some_iff.mp h
  exact ⟨u, Table.find?_of_mem (List.mem_of_find?_eq_some hu), by simpa using List.find?_some hu⟩

theorem BonusTables.Effect.owned {A : BonusTables → Table LinkedAccountRow → Prop} {F : BonusTables → Prop}
    {rows credited : List BonusLedgerRow} (h : Effect A known rows credited t t') (hF : F t) :
    Effect (fun t accounts => A t accounts ∧ F t) known rows credited t t' :=
  ⟨h.rules, h.ledger, h.balance, ⟨h.accounts, hF⟩, h.known⟩

theorem bonus_confirmBrokerAccount (hok : bonusProtocol.inv db) (now : UnixMs) (telegramUserId : ℕ)
    (accountId : AccountId) :
    bonusProtocol.wp (BonusCall.confirmBrokerAccount now telegramUserId accountId).program
      (CommitsBonus (.confirmBrokerAccount now telegramUserId accountId)) [] (fun x => x) db := by
  have h₀ : Paying (fun t accounts => accounts = t.accounts) [] [] [] [] id db :=
    Protocol.Owes.start hok (fun s => Effect.start s.bonusTables)
  have hquiet : ∀ {A : BonusTables → Table LinkedAccountRow → Prop} {known held writes db' reason},
      (∀ {t accounts}, A t accounts → accounts = t.accounts) → Paying A known [] [] held writes db' →
      CommitsBonus (.confirmBrokerAccount now telegramUserId accountId)
        (.confirmation (.refused reason)) held writes db' := by
    rintro A known held writes db' reason hA h
    exact h.commits (fun a b heffect => ⟨[], [], (heffect.quiet hA).post ⟨rfl, rfl⟩⟩)
  unfold BonusCall.program AccountsTx.confirmBrokerAccount
  rw [Protocol.wp_monad_bind, Protocol.wp_monad_bind]
  refine wp_selectUser (fun db₁ henv₁ => hquiet id (h₀.env henv₁))
    (fun db₁ db₂ user henv₁ hfind henv₂ huser => ?_)
  have h₂ := (h₀.env (henv₁.trans henv₂)).lock (.user user.id) .exclusive
  dsimp only
  split
  · exact hquiet id h₂
  · rename_i hstatus
    have howner : db₂.bonusTables.Owner telegramUserId user.id := (owner_of_telegram hfind).grows henv₂.rely
    have hknown := Paying.know h₂ List.mem_cons_self ⟨user, huser, hstatus⟩
    have h₃ := (hknown.learn_rely (fun a => a.bonusTables.Owner telegramUserId user.id) howner
      (fun a b hrely hF => hF.grows hrely)).mono (fun a b hab => hab.1.owned hab.2)
    rw [Protocol.wp_monad_bind]
    refine wp_lockReferralInviter h₃ (fun inviter known held₄ writes₄ db₄ hknown hknows h₄ => ?_)
    have hmem : user.id ∈ known := hknown _ List.mem_cons_self
    rw [Protocol.wp_monad_bind]
    refine Protocol.wp_selectFor (fun db₅ henv₅ _ => hquiet And.left (h₄.env henv₅))
      (fun db₅ account henv₅ haccount => ?_)
    obtain ⟨haccount, huserId⟩ := Option.filter_eq_some_iff.mp haccount
    have huserId : account.userId = user.id := by simpa using huserId
    obtain rfl : account.id = accountId := Table.key_of_find? haccount
    have h₅ := (h₄.env henv₅).lock (.account account.id) .exclusive
    dsimp only
    split
    · exact hquiet And.left h₅
    · rw [Protocol.wp_monad_bind]
      -- the row it found is the row it confirms
      have h₆ := h₅.learn (fun b => b.bonusTables.account account.id = some account) List.mem_cons_self
        haccount (fun a b hsame hF => hF.symm ▸ hsame)
      refine h₆.wp_change (fun a b => Effect (fun t accounts => Wrote { account with status := .active }
        (some account) t accounts ∧ t.Owner telegramUserId user.id) known [] [] a.bonusTables b.bonusTables)
        (fun a b hsame => ?_) ((passes_setAccount fun _ => by rfl).comap fun _ => rfl)
        (fun a b hok heffect _ => ⟨Protocol.Guarantee.comap ?_, ?_⟩) (fun _ _ _ _ => trivial)
        (fun db₆ _ h₇ => ?_)
      · exact congrArg Option.isSome hsame
      · exact guarantee_setAccount hok (fun _ => by rfl) (fun _ => by rfl) List.mem_cons_self
      · exact heffect.1.withAccounts ⟨wrote_setAccount (fun account => { account with status := .active })
          heffect.1.accounts.1 (fun _ => by rfl) heffect.2, heffect.1.accounts.2⟩
      · rw [if_pos rfl]
        refine wp_credits h₇ hmem hknows
          (fun grant result link reward held₈ writes₈ db₈ hgrant hresult hrows h₈ => ?_)
        rw [Protocol.wp_pure]
        rw [← huserId] at hgrant
        refine h₈.commits (fun a b heffect => ⟨link, reward, heffect.post heffect.accounts.1 rfl
          ⟨hgrant, hresult⟩ hrows (fun _ => rfl) (fun _ => ⟨rfl, ?_⟩) (fun _ => rfl)⟩)
        rw [show ({ account with status := .active } : LinkedAccountRow).userId = user.id from huserId]
        exact heffect.accounts.2

/-! ## The writers that pay nothing -/

abbrev CommitsQuiet {α : Type} : α → List (AccountsLock × LockMode) → (AccountsDb → AccountsDb) →
    AccountsDb → Prop :=
  bonusProtocol.Commits (fun a b _ => Quiet a.bonusTables b.bonusTables)

/-- A transaction that pays nothing, in the middle. -/
abbrev Quietly (held : List (AccountsLock × LockMode)) (writes : AccountsDb → AccountsDb)
    (db : AccountsDb) : Prop :=
  bonusProtocol.Owes (fun a b => Quiet a.bonusTables b.bonusTables) held writes db

theorem Quietly.start (hok : bonusProtocol.inv db) : Quietly [] id db :=
  Protocol.Owes.start hok (fun s => Quiet.refl s.bonusTables)

theorem Quietly.commits {α : Type} {a : α} (h : Quietly held writes db) :
    bonusProtocol.wp (pure a : AccountsTx α) CommitsQuiet held writes db :=
  Protocol.wp_pure.mpr (Protocol.Owes.commits h (fun _ _ h => h))

theorem Quietly.setRule {id : BonusRuleId} {isActive : Bool}
    {Q : Bool → List (AccountsLock × LockMode) → (AccountsDb → AccountsDb) → AccountsDb → Prop}
    (h : Quietly held writes db) (hQ : ∀ updated held' writes' db', Quietly held' writes' db' →
      Q updated held' writes' db') :
    bonusProtocol.wp (.change (.rule id) (fun db => (db.rule id).isSome)
      (AccountsDb.setRuleActive id isActive) : AccountsTx Bool) Q held writes db := by
  refine h.wp_change (fun a b => Quiet a.bonusTables b.bonusTables) (fun a b hsame => ?_)
    ((passes_setRule id isActive).comap fun _ => rfl)
    (fun a b hok hquiet _ => ⟨Protocol.Guarantee.comap ?_,
      ⟨hquiet.ledger, hquiet.balance, hquiet.accounts⟩⟩)
    (fun db' _ h' _ => hQ false _ _ db' h') (fun db' _ h' => hQ true _ _ db' h')
  · exact congrArg Option.isSome hsame
  · exact guarantee_setRule hok List.mem_cons_self

theorem wp_lockCode {code : String}
    {Q : List BonusRuleRow → List (AccountsLock × LockMode) → (AccountsDb → AccountsDb) → AccountsDb → Prop}
    (h : Quietly held writes db) (hQ : ∀ rows held' writes' db', Quietly held' writes' db' →
      Q rows held' writes' db') :
    bonusProtocol.wp (lockCode code) Q held writes db :=
  Protocol.Owes.frame (E := Quiet) (show (lockCode code).Frames AccountsDb.bonusTables from
    fun _ => frames_lockAll _ _ _) h (fun rows held' writes' db' _ h' => hQ rows held' writes' db' h')

theorem bonus_createBonusRuleVersion (hok : bonusProtocol.inv db) (code : String)
    (kind : Option BonusRuleKind) (params : RawParams) :
    bonusProtocol.wp (createBonusRuleVersion code kind params) CommitsQuiet [] (fun x => x) db := by
  unfold createBonusRuleVersion
  rw [Protocol.wp_monad_bind]
  refine wp_lockCode (Quietly.start hok) (fun rows held₁ writes₁ db₁ h₁ => ?_)
  dsimp only
  split
  · exact h₁.commits
  · split
    · exact h₁.commits
    · split
      · exact h₁.commits
      · rw [Protocol.wp_monad_bind]
        refine h₁.wp_change (fun a b => Quiet a.bonusTables b.bonusTables) (fun a b hsame => ?_)
          ((passes_addRule _).comap fun _ => rfl) (fun a b hok hquiet hnone => ⟨Protocol.Guarantee.comap ?_,
            ⟨hquiet.ledger, hquiet.balance, hquiet.accounts⟩⟩) (fun _ _ _ _ => trivial) (fun db₂ _ h₂ => ?_)
        · exact congrArg Option.isNone hsame
        · exact guarantee_addRule hok (Option.isNone_iff_eq_none.mp hnone) List.mem_cons_self
        · rw [if_pos rfl]
          exact Quietly.commits h₂

theorem bonus_activateBonusRuleVersion (hok : bonusProtocol.inv db) (code : String) (version : ℕ) :
    bonusProtocol.wp (activateBonusRuleVersion code version) CommitsQuiet [] (fun x => x) db := by
  unfold activateBonusRuleVersion
  rw [Protocol.wp_monad_bind]
  refine wp_lockCode (Quietly.start hok) (fun rows held₁ writes₁ db₁ h₁ => ?_)
  split
  · exact h₁.commits
  · rename_i target _
    split
    · exact h₁.commits
    · split
      · exact h₁.commits
      · dsimp only
        rw [Protocol.wp_monad_bind]
        refine Protocol.wp_mono (show bonusProtocol.wp _ (fun _ => Quietly) held₁ writes₁ db₁ from ?_)
          (fun _ held₂ writes₂ db₂ h₂ => ?_)
        · split
          · exact Quietly.setRule h₁ (fun _ _ _ _ h₂ => h₂)
          · exact h₁
        · rw [Protocol.wp_monad_bind]
          refine Protocol.Owes.frame (E := Quiet) (frames_change (fun _ => by rfl) _ _) h₂
            (fun free held₃ writes₃ db₃ _ h₃ => ?_)
          split
          · rw [Protocol.wp_monad_bind]
            refine Quietly.setRule h₃ (fun updated held₄ writes₄ db₄ h₄ => ?_)
            split
            · exact h₄.commits
            · trivial
          · trivial

theorem bonus_deactivateBonusRule (hok : bonusProtocol.inv db) (code : String) :
    bonusProtocol.wp (deactivateBonusRule code) CommitsQuiet [] (fun x => x) db := by
  unfold deactivateBonusRule
  rw [Protocol.wp_monad_bind]
  refine wp_lockCode (Quietly.start hok) (fun rows held₁ writes₁ db₁ h₁ => ?_)
  split
  · exact h₁.commits
  · split
    · exact h₁.commits
    · rw [Protocol.wp_monad_bind]
      refine Quietly.setRule h₁ (fun updated held₂ writes₂ db₂ h₂ => ?_)
      split
      · exact h₂.commits
      · trivial

theorem bonus_recordUserStart (hok : bonusProtocol.inv db) (id : UserId) (telegramUserId : ℕ)
    (referral : Option ReferralRow) :
    bonusProtocol.wp (recordUserStart (newUserRow id telegramUserId) referral) CommitsQuiet []
      (fun x => x) db := by
  unfold recordUserStart
  rw [Protocol.wp_monad_bind]
  refine (Quietly.start hok).wp_insertNew (fun a b => Quiet a.bonusTables b.bonusTables)
    (fun a b hsame => ?_) ((passes_addUser _).comap fun _ => rfl)
    (fun a b hok hquiet hfresh => ⟨Protocol.Guarantee.comap ?_,
      ⟨hquiet.ledger, fun userId => ?_, hquiet.accounts⟩⟩) (fun db₁ h₁ => ?_) (fun db₁ h₁ => ?_)
  · exact congrArg Option.isNone hsame
  · exact guarantee_addUser hok (Option.isNone_iff_eq_none.mp hfresh) List.mem_cons_self
  · have hnone : b.bonusTables.user (newUserRow id telegramUserId).id = none :=
      Option.isNone_iff_eq_none.mp hfresh
    exact (balance_addUser hnone rfl userId).trans (hquiet.balance userId)
  · rw [if_neg Bool.false_ne_true]
    exact Quietly.commits h₁
  · rw [if_pos rfl]
    split
    · exact Protocol.Owes.frame (E := Quiet) ⟨fun _ => rfl, trivial⟩ h₁
        (fun _ _ _ _ _ h₂ => Protocol.Owes.commits h₂ (fun _ _ h => h))
    · exact Quietly.commits h₁

theorem bonus_setUserStatus (hok : bonusProtocol.inv db) (id : UserId) (status : UserStatus) :
    bonusProtocol.wp (setUserStatus id status) CommitsQuiet [] (fun x => x) db := by
  refine (Quietly.start hok).wp_change (fun a b => Quiet a.bonusTables b.bonusTables) (fun a b hsame => ?_)
    ((passes_setUser fun _ => by rfl).comap fun _ => rfl) (fun a b hok hquiet _ => ⟨Protocol.Guarantee.comap ?_,
      ⟨hquiet.ledger, fun userId => ?_, hquiet.accounts⟩⟩)
    (fun _ _ h₁ _ => Protocol.Owes.commits h₁ (fun _ _ h => h))
    (fun _ _ h₁ => Protocol.Owes.commits h₁ (fun _ _ h => h))
  · exact congrArg (Option.any _) hsame
  · exact guarantee_setUser hok (fun _ => by rfl) (fun _ => by rfl) List.mem_cons_self
  · exact (balance_setStatus _ id status userId).trans (hquiet.balance userId)

/-- A revoked account had been active. -/
theorem revoked_post (ha : t.account account.id = some account) (hactive : account.status = .active) :
    BonusPost (.revokeAccount account.id) t
      (t.setAccount account.id (fun account => { account with status := .revoked })) .done [] [] := by
  have hwrote := wrote_setAccount (fun account => { account with status := .revoked })
    (rfl : t.accounts = t.accounts) (fun _ => by rfl) ha
  refine ⟨⟨rfl, rfl⟩, rfl, fun userId => (add_zero _).symm, fun _ hmem => absurd hmem List.not_mem_nil,
    fun _ hmem => absurd hmem List.not_mem_nil, fun j a haccount hstatus => ?_, fun j a haccount _ => ?_⟩
  · rw [show BonusTables.account _ j = _ from hwrote.2 j] at haccount
    split at haccount
    · obtain rfl := Option.some.inj haccount
      cases hstatus
    · exact .inl ⟨a, haccount, hstatus⟩
  · rename_i hne
    rw [show BonusTables.account _ j = _ from hwrote.2 j] at haccount
    split at haccount
    · rename_i hj
      refine .inl ⟨account, hj ▸ ha, fun hpending => ?_⟩
      rw [hactive] at hpending
      cases hpending
    · exact .inl ⟨a, haccount, hne⟩

theorem bonus_revokeAccount (hok : bonusProtocol.inv db) (accountId : AccountId) :
    bonusProtocol.wp (AccountsTx.revokeAccount accountId) (bonusProtocol.Commits (fun a b _ =>
      BonusPost (.revokeAccount accountId) a.bonusTables b.bonusTables .done [] []))
      [] (fun x => x) db := by
  have h₀ : bonusProtocol.Owes (fun a b => b.bonusTables = a.bonusTables) [] id db :=
    Protocol.Owes.start hok (fun _ => rfl)
  refine h₀.wp_change
    (fun a b => BonusPost (.revokeAccount accountId) a.bonusTables b.bonusTables .done [] [])
    (fun a b hsame => ?_) ((passes_setAccount fun _ => by rfl).comap fun _ => rfl)
    (fun a b hok heq hactive => ⟨Protocol.Guarantee.comap ?_, ?_⟩) (fun _ _ h₁ _ => ?_) (fun _ _ h₁ => ?_)
  · exact congrArg (Option.any _) hsame
  · exact guarantee_setAccount hok (fun _ => by rfl) (fun _ => by rfl) List.mem_cons_self
  · obtain ⟨account, hmem, hstatus⟩ := Option.any_eq_true _ _ |>.mp hactive
    have ha : b.bonusTables.account accountId = some account := hmem
    obtain rfl : account.id = accountId := Table.key_of_find? ha
    rw [← heq]
    exact revoked_post ha (of_decide_eq_true hstatus)
  · refine Protocol.Owes.commits h₁ (fun a b heq => Quiet.post ?_ ⟨rfl, rfl⟩)
    rw [heq]
    exact Quiet.refl _
  · exact h₁.pays

/-! ## Every run -/

/-- **The transactions are sound for the protocol.** -/
theorem bonus_sound : bonusProtocol.Sound BonusCall.program (fun call _ a b reply =>
    ∃ link reward, BonusPost call a.bonusTables b.bonusTables reply link reward) := by
  have hunpaid : ∀ {α : Type} {p : AccountsTx α} {call : BonusCall} {db : AccountsDb},
      bonusProtocol.wp p CommitsQuiet [] (fun x => x) db →
      bonusProtocol.wp p.unpaid (CommitsBonus call) [] (fun x => x) db := by
    intro α p call db h
    unfold AccountsTx.unpaid
    rw [Protocol.wp_monad_bind]
    refine Protocol.wp_mono h (fun _ held writes db' hcommits db'' henv => ?_)
    obtain ⟨hguarantee, hquiet⟩ := hcommits db'' henv
    exact ⟨hguarantee, [], [], hquiet.post ⟨rfl, rfl⟩⟩
  rintro call db hok
  cases call with
  | linkBrokerAccount now input => exact bonus_linkBrokerAccount hok now input
  | confirmBrokerAccount now telegramUserId accountId =>
    exact bonus_confirmBrokerAccount hok now telegramUserId accountId
  | createBonusRuleVersion code kind params =>
    exact hunpaid (bonus_createBonusRuleVersion hok code kind params)
  | activateBonusRuleVersion code version => exact hunpaid (bonus_activateBonusRuleVersion hok code version)
  | deactivateBonusRule code => exact hunpaid (bonus_deactivateBonusRule hok code)
  | recordUserStart id telegramUserId referral =>
    exact hunpaid (bonus_recordUserStart hok id telegramUserId referral)
  | setUserStatus id status => exact hunpaid (bonus_setUserStatus hok id status)
  | revokeAccount id =>
    refine Protocol.wp_monad_bind.mpr (Protocol.wp_mono (bonus_revokeAccount hok id) ?_)
    rintro _ held writes db' hcommits db'' henv
    obtain ⟨hguarantee, hpost⟩ := hcommits db'' henv
    exact ⟨hguarantee, [], [], hpost⟩

theorem length_filter_key_le_one {ρ κ : Type} [DecidableEq κ] {rows : List ρ} {key : ρ → κ}
    (h : (rows.map key).Nodup) (k : κ) : (rows.filter (fun r => key r = k)).length ≤ 1 := by
  have hcount := List.nodup_iff_count_le_one.mp h k
  rw [List.count, List.countP_map, List.countP_eq_length_filter] at hcount
  convert hcount using 3
  funext r
  exact (beq_eq_decide _ _).symm

theorem length_filter_some_le_one {ρ κ : Type} [DecidableEq κ] {rows : List ρ} {f : ρ → Option κ}
    (h : (rows.filterMap f).Nodup) (k : κ) : (rows.filter (fun r => f r = some k)).length ≤ 1 := by
  have hcount := List.nodup_iff_count_le_one.mp h k
  rw [List.count_filterMap, List.countP_eq_length_filter] at hcount
  convert hcount using 3
  funext r
  exact Bool.eq_iff_iff.mpr (by rw [decide_eq_true_eq, beq_iff_eq])

/-- The world after these actions. -/
def bonusRun (db : AccountsDb) (acts : List (StoreAct BonusCall)) :
    StoreWorld AccountsDb AccountsLock AccountsError BonusReply BonusCall :=
  run (StoreWorld.act BonusCall.program) ⟨db, []⟩ acts

theorem bonusRun_snoc (db : AccountsDb) (acts : List (StoreAct BonusCall)) (act : StoreAct BonusCall) :
    bonusRun db (acts ++ [act]) = (bonusRun db acts).act BonusCall.program act := run_snoc _ _ acts act

/-- The world of the payers and the rule writers, and what each commit does. -/
abbrev BonusWorldOk (w : StoreWorld AccountsDb AccountsLock AccountsError BonusReply BonusCall) : Prop :=
  Protocol.WorldOk bonusProtocol (fun call _ a b reply =>
    ∃ link reward, BonusPost call a.bonusTables b.bonusTables reply link reward) w

theorem bonusRun_ok {db : AccountsDb} (h : db.bonusTables.Ok) (acts : List (StoreAct BonusCall)) :
    BonusWorldOk (bonusRun db acts) :=
  bonus_sound.run (Protocol.WorldOk.initial h) acts

/-- An action changes nothing, or it commits a transaction. -/
theorem bonus_step {w : StoreWorld AccountsDb AccountsLock AccountsError BonusReply BonusCall}
    (hworld : BonusWorldOk w) (act : StoreAct BonusCall) :
    (w.act BonusCall.program act).db = w.db ∨ ∃ i r reply link reward, act = .step i ∧ w.Commits i r reply ∧
      BonusPost r.call w.db.bonusTables (w.act BonusCall.program act).db.bonusTables reply link reward := by
  cases hcommitted : w.committed act with
  | none => exact .inl (StoreWorld.db_of_not_committed hcommitted)
  | some p =>
    obtain ⟨call, reply⟩ := p
    obtain ⟨i, r, rfl, hc, rfl, hdb⟩ := StoreWorld.committed_eq_some hcommitted
    obtain ⟨-, link, reward, hpost⟩ := hworld.commits hc
    rw [hdb]
    exact .inr ⟨i, r, reply, link, reward, rfl, hc, hpost⟩

/-- A commit of the run paid this row. -/
def PaidIn (db : AccountsDb) (acts : List (StoreAct BonusCall)) (row : BonusLedgerRow) : Prop :=
  ∃ before i r reply link reward, before ++ [.step i] <+: acts ∧ (bonusRun db before).Commits i r reply ∧
    BonusPost r.call (bonusRun db before).db.bonusTables (bonusRun db (before ++ [.step i])).db.bonusTables
      reply link reward ∧ row ∈ reward ++ link

/-- The account was active at some time of the run. -/
def ActiveIn (db : AccountsDb) (acts : List (StoreAct BonusCall)) (id : AccountId) : Prop :=
  ∃ before a, before <+: acts ∧ (bonusRun db before).db.brokerAccounts.find? id = some a ∧ a.status =
    .active

theorem PaidIn.snoc {db : AccountsDb} {acts : List (StoreAct BonusCall)} {row : BonusLedgerRow}
    (h : PaidIn db acts row) (act : StoreAct BonusCall) : PaidIn db (acts ++ [act]) row := by
  obtain ⟨before, i, r, reply, link, reward, hbefore, hrest⟩ := h
  exact ⟨before, i, r, reply, link, reward, hbefore.trans (List.prefix_append acts [act]), hrest⟩

theorem ActiveIn.snoc {db : AccountsDb} {acts : List (StoreAct BonusCall)} {id : AccountId}
    (h : ActiveIn db acts id) (act : StoreAct BonusCall) : ActiveIn db (acts ++ [act]) id := by
  obtain ⟨before, a, hbefore, hrest⟩ := h
  exact ⟨before, a, hbefore.trans (List.prefix_append acts [act]), hrest⟩

/-- A row of the ledger was there, or a commit of the run paid it. -/
theorem ledger_came_from {db : AccountsDb} (h : db.bonusTables.Ok) (acts : List (StoreAct BonusCall)) :
    ∀ row ∈ (bonusRun db acts).db.bonusLedger, row ∈ db.bonusLedger ∨ PaidIn db acts row := by
  induction acts using List.reverseRecOn with
  | nil => exact fun _ hmem => .inl hmem
  | append_singleton acts act ih =>
    rintro row hmem
    rw [bonusRun_snoc] at hmem
    have hold : row ∈ (bonusRun db acts).db.bonusLedger → row ∈ db.bonusLedger ∨
      PaidIn db (acts ++ [act]) row :=
      fun hmem => (ih row hmem).imp_right (PaidIn.snoc · act)
    rcases bonus_step (bonusRun_ok h acts) act with
      hsame | ⟨i, r, reply, link, reward, rfl, hc, hpost⟩
    · rw [hsame] at hmem
      exact hold hmem
    · have hledger : ((bonusRun db acts).act BonusCall.program (.step i)).db.bonusLedger = _ :=
        hpost.ledger
      rw [hledger] at hmem
      rcases List.mem_append.mp hmem with hnew | hmem
      · rw [← bonusRun_snoc] at hpost
        exact .inr ⟨acts, i, r, reply, link, reward, List.prefix_rfl, hc, hpost, hnew⟩
      · exact hold hmem

/-- An account that is not pending was so at the start, or had been active. -/
theorem confirmed_was_active {db : AccountsDb} (h : db.bonusTables.Ok) (acts : List (StoreAct BonusCall)) :
    ∀ id a, (bonusRun db acts).db.brokerAccounts.find? id = some a → a.status ≠ .pending →
      (∃ old, db.brokerAccounts.find? id = some old ∧ old.status ≠ .pending) ∨ ActiveIn db acts id := by
  induction acts using List.reverseRecOn with
  | nil => exact fun id a ha hne => .inl ⟨a, ha, hne⟩
  | append_singleton acts act ih =>
    rintro id a ha hne
    have hold : ∀ old, (bonusRun db acts).db.brokerAccounts.find? id = some old → old.status ≠ .pending →
        (∃ old, db.brokerAccounts.find? id = some old ∧ old.status ≠ .pending) ∨
          ActiveIn db (acts ++ [act]) id :=
      fun old hfound hne => (ih id old hfound hne).imp_right (ActiveIn.snoc · act)
    have ha' := ha
    rw [bonusRun_snoc] at ha'
    rcases bonus_step (bonusRun_ok h acts) act with
      hsame | ⟨i, r, reply, link, reward, rfl, hc, hpost⟩
    · rw [hsame] at ha'
      exact hold a ha' hne
    · rcases hpost.confirmed id a ha' hne with ⟨old, hfound, hstatus⟩ | hactive
      · exact hold old hfound hstatus
      · exact .inr ⟨_, a, List.prefix_rfl, ha, hactive⟩

/-- **Starter pack and referral reward are paid once.**  In every interleaving: at most one link bonus a
user and one reward a referral, each of its rule version's amount; every row was written by a commit
after which the account it was paid for is active and a partner's client, and, of a reward, the inviter,
whose row is locked from its reading on, is not blocked; a commit changes the balances by its own rows,
which its answer tells of; and an account that is no longer pending had been active. -/
theorem bonuses_paid_once {db : AccountsDb} (h : db.bonusTables.Ok) (acts : List (StoreAct BonusCall)) :
    let w := bonusRun db acts
    (∀ userId, (w.db.bonusLedger.filter
      (fun row => row.userId = userId && row.brokerAccountId.isSome)).length ≤ 1) ∧
    (∀ referralId, (w.db.bonusLedger.filter (fun row => row.referralId = some referralId)).length ≤ 1) ∧
    (∀ row ∈ w.db.bonusLedger, ∃ rule, w.db.rule row.bonusRuleId = some rule ∧
      rule.tokens = some row.balanceDelta) ∧
    (∀ row ∈ w.db.bonusLedger, row ∈ db.bonusLedger ∨ PaidIn db acts row) ∧
    (∀ i r reply, w.Commits i r reply → ∃ link reward,
      BonusPost r.call w.db.bonusTables (w.act BonusCall.program (.step i)).db.bonusTables reply link
        reward) ∧
    (∀ a, w.committed a = none → (w.act BonusCall.program a).db = w.db) ∧
    (∀ id a, w.db.brokerAccounts.find? id = some a → a.status ≠ .pending →
      (∃ old, db.brokerAccounts.find? id = some old ∧ old.status ≠ .pending) ∨ ActiveIn db acts id) := by
  intro w
  have hworld : BonusWorldOk w := bonusRun_ok h acts
  have hok : w.db.bonusTables.Ok := hworld.inv
  refine ⟨fun userId => ?_, fun referralId => ?_, hok.amounts, ledger_came_from h acts,
    fun i r reply hc => ?_,
    fun a ha => StoreWorld.db_of_not_committed ha, confirmed_was_active h acts⟩
  · rw [← List.filter_filter]
    exact length_filter_key_le_one hok.linkBonus userId
  · exact length_filter_some_le_one hok.reward referralId
  · obtain ⟨-, link, reward, hpost⟩ := hworld.commits hc
    obtain ⟨hr, hprog⟩ := hc
    have hdb : (w.act BonusCall.program (.step i)).db = r.writes w.db := by
      simp [StoreWorld.act, hr, StoreWorld.next, hprog]
    rw [hdb]
    exact ⟨link, reward, hpost⟩

/-- A partner's client with a pending account, and the link bonus. -/
def clientStore : AccountsDb where
  users := ⟨[newUserRow 8 800], List.nodup_singleton _⟩
  brokerAccounts := ⟨[⟨3, 8, "c".toList, true, .pending, false⟩], List.nodup_singleton _⟩
  referrals := []
  bonusRules := [⟨linkBonusRuleCode, 1, .linkBonus, true, [("tokens", .text "50".toList)], none, none⟩]
  bonusLedger := []
  depositEvents := []
  postbackDeliveries := []
  tradingSessions := .empty
  tradingSwitch := none

/-- A login and the confirmation of one account, side by side. -/
def confirmedWhileLoggingIn : List (StoreAct BonusCall) :=
  .start (.confirmBrokerAccount 0 800 3) ::
    .start (.linkBrokerAccount 0 ⟨800, "c".toList, true, true, 9, 4⟩) ::
    List.replicate 4 (.step 0) ++ List.replicate 4 (.step 1) ++ List.replicate 30 (.step 0) ++
    List.replicate 40 (.step 1)

theorem clientStore_ok : clientStore.bonusTables.Ok :=
  ⟨List.nodup_singleton _, List.nodup_nil, List.nodup_nil, fun _ hmem => absurd hmem List.not_mem_nil⟩

theorem bonuses_paid_once_confirmed :
    ((bonusRun clientStore confirmedWhileLoggingIn).db.bonusLedger.filter
      (fun row => row.userId = 8 && row.brokerAccountId.isSome)).length ≤ 1 :=
  (bonuses_paid_once clientStore_ok confirmedWhileLoggingIn).1 8

end Commits

end Binarius
