import Mathlib.Tactic
import Binarius.Db.BonusTables

/-!
# Db.BonusPayers — the bonus writer and its callers, statement by statement
(packages/db/src: oauth-ops.ts, bonus-rule-ops.ts, link-bonus-ops.ts, referral-reward-ops.ts)

* `Effect`: what a payer has done over whatever is committed.
* `wp_applyBonus`: **the bonus writer writes its row and its amount, or nothing**.
* `wp_grantLinkBonus`, `wp_grantReferralReward`, `wp_credits`: its callers.
* `wp_upsertUser`, `wp_lockReferralInviter`: the users rows locked before them.
-/

namespace Binarius

open Lib

/-- What these rows credit a user with. -/
def credits (rows : List BonusLedgerRow) (userId : UserId) : ℤ :=
  ((rows.filter (fun row => row.userId = userId)).map BonusLedgerRow.balanceDelta).sum

theorem credits_cons (row : BonusLedgerRow) (rows : List BonusLedgerRow) (userId : UserId) :
    credits (row :: rows) userId =
      (if row.userId = userId then row.balanceDelta else 0) + credits rows userId := by
  unfold credits
  rw [List.filter_cons]
  by_cases h : row.userId = userId
  · simp [h]
  · simp [h]

namespace BonusTables

variable {A : BonusTables → Table LinkedAccountRow → Prop} {known : List UserId}
  {rows credited : List BonusLedgerRow} {t t' : BonusTables}

/-- A user that is there and not blocked. -/
def Usable (t : BonusTables) (userId : UserId) : Prop := ∃ u, t.user userId = some u ∧ u.status ≠ .blocked

theorem Usable.same {userId : UserId} (h : t.Usable userId) (hsame : Same (.user userId) t t') :
    t'.Usable userId := by
  obtain ⟨u, hu, hstatus⟩ := h
  exact ⟨u, Eq.trans hsame hu, hstatus⟩

/-- What a payer has done: the accounts it wrote, the users it knows to be there and not blocked, the bonus
rows it wrote and those it credited. -/
structure Effect (A : BonusTables → Table LinkedAccountRow → Prop) (known : List UserId)
    (rows credited : List BonusLedgerRow) (t t' : BonusTables) : Prop where
  rules : t'.rules = t.rules
  ledger : t'.ledger = rows ++ t.ledger
  balance : ∀ userId, t'.balance userId = t.balance userId + credits credited userId
  accounts : A t t'.accounts
  known : ∀ userId ∈ known, t'.Usable userId

theorem Effect.start (t : BonusTables) : Effect (fun t accounts => accounts = t.accounts) [] [] [] t t :=
  ⟨rfl, rfl, fun _ => (add_zero _).symm, rfl, fun _ hmem => absurd hmem List.not_mem_nil⟩

theorem Effect.know {userId : UserId} (h : Effect A known rows credited t t')
    (huser : t'.Usable userId) : Effect A (userId :: known) rows credited t t' := by
  refine ⟨h.rules, h.ledger, h.balance, h.accounts, fun j hj => ?_⟩
  rcases List.mem_cons.mp hj with rfl | hj
  · exact huser
  · exact h.known j hj

theorem Effect.addBonus {row : BonusLedgerRow} (h : Effect A known rows credited t t') :
    Effect A known (row :: rows) credited t (t'.addBonus row) :=
  ⟨h.rules, congrArg (row :: ·) h.ledger, h.balance, h.accounts, h.known⟩

theorem balance_addUser {row : UserRow} (hnone : t.user row.id = none) (hbalance : row.tokenBalance = 0)
    (j : UserId) : (t.addUser row).balance j = t.balance j := by
  unfold BonusTables.balance
  rw [user_addUser hnone]
  split
  · rename_i hj
    rw [← hj, hnone]
    exact hbalance
  · rfl

theorem balance_setStatus (t : BonusTables) (id : UserId) (status : UserStatus) (j : UserId) :
    (t.setUser id (fun user => { user with status := status })).balance j = t.balance j := by
  unfold BonusTables.balance
  rw [user_setUser (fun _ => by rfl)]
  split
  · rw [Option.map_map]
    rfl
  · rfl

theorem balance_credit {userId : UserId} {u : UserRow} (hu : t.user userId = some u) (tokens : ℤ)
    (j : UserId) :
    (t.setUser userId (fun user => { user with tokenBalance := user.tokenBalance + tokens })).balance j =
      t.balance j + if userId = j then tokens else 0 := by
  unfold BonusTables.balance
  rw [user_setUser (fun _ => by rfl)]
  by_cases hj : userId = j
  · subst hj
    simp [hu]
  · simp [hj]

theorem Effect.addUser {row : UserRow} (h : Effect A [] rows credited t t') (hnone : t'.user row.id = none)
    (hbalance : row.tokenBalance = 0) (hstatus : row.status ≠ .blocked) :
    Effect A [row.id] rows credited t (t'.addUser row) := by
  refine ⟨h.rules, h.ledger, fun j => ?_, h.accounts, fun j hj => ?_⟩
  · exact (balance_addUser hnone hbalance j).trans (h.balance j)
  · obtain rfl := List.mem_singleton.mp hj
    exact ⟨row, (user_addUser hnone _).trans (if_pos rfl), hstatus⟩

theorem Effect.credit {row : BonusLedgerRow} (h : Effect A known rows credited t t')
    (hknown : row.userId ∈ known) :
    Effect A known rows (row :: credited) t
      (t'.setUser row.userId (fun user =>
        { user with tokenBalance := user.tokenBalance + row.balanceDelta })) := by
  obtain ⟨u, hu, -⟩ := h.known _ hknown
  refine ⟨h.rules, h.ledger, fun j => ?_, h.accounts, fun j hj => ?_⟩
  · rw [balance_credit hu, h.balance, credits_cons]
    ring
  · obtain ⟨u', hu', hstatus⟩ := h.known j hj
    have hafter : (t'.setUser row.userId (fun user =>
        { user with tokenBalance := user.tokenBalance + row.balanceDelta })).user j = _ :=
      user_setUser (fun _ => by rfl) t' j
    rw [hu'] at hafter
    split at hafter
    · exact ⟨_, hafter, hstatus⟩
    · exact ⟨u', hafter, hstatus⟩

end BonusTables

/-! ## The payers -/

/-- What the answer says of the ledger. -/
def LinkBonusGrant.Writes (grant : LinkBonusGrant) (userId : UserId) (account : LinkedAccountRow)
    (link : List BonusLedgerRow) : Prop :=
  match grant with
  | .granted tokens => account.isPartnerClient = true ∧
      ∃ rule, link = [BonusReference.row (.brokerAccount account.id) userId tokens rule]
  | .skipped _ => link = []

def ReferralRewardResult.Writes (result : ReferralRewardResult) (account : LinkedAccountRow)
    (reward : List BonusLedgerRow) : Prop :=
  match result with
  | .rewarded referralId inviterUserId tokens ruleId => account.isPartnerClient = true ∧
      ∃ rule, rule.id = ruleId ∧
        reward = [BonusReference.row (.referral referralId) inviterUserId tokens rule]
  | .skipped _ _ => reward = []

section Payers

open AccountsTx TxProg BonusTables

variable {held : List (AccountsLock × LockMode)} {db db' : AccountsDb} {writes : AccountsDb → AccountsDb}
  {A : BonusTables → Table LinkedAccountRow → Prop} {known : List UserId}
  {rows credited : List BonusLedgerRow} {now : UnixMs}

/-- A payer in the middle of its transaction. -/
abbrev Paying (A : BonusTables → Table LinkedAccountRow → Prop) (known : List UserId)
    (rows credited : List BonusLedgerRow) (held : List (AccountsLock × LockMode))
    (writes : AccountsDb → AccountsDb) (db : AccountsDb) : Prop :=
  bonusProtocol.Owes (fun a b => Effect A known rows credited a.bonusTables b.bonusTables) held writes db

/-- A users row read under its lock is so at the commit. -/
theorem Paying.know {userId : UserId} (h : Paying A known rows credited held writes db)
    (hlock : (.user userId, .exclusive) ∈ held) (huser : (writes db).bonusTables.Usable userId) :
    Paying A (userId :: known) rows credited held writes db :=
  (h.learn (fun b => b.bonusTables.Usable userId) hlock huser (fun _ _ hsame hF => hF.same hsame)).mono
    (fun _ _ hab => hab.1.know hab.2)

/-- The version in force is a row of the rules, and its row pays that amount from now on. -/
theorem rule_of_activeRule {code : String} {rule : BonusRuleRow} (hok : bonusProtocol.inv db)
    (h : db.activeRule now code = some rule) : db.bonusTables.rule rule.id = some rule :=
  rowAt_of_mem hok.rules (List.mem_of_find?_eq_some h)

theorem rule_congr {t t' : BonusTables} (h : t'.rules = t.rules) (id : BonusRuleId) :
    t'.rule id = t.rule id := by
  unfold BonusTables.rule
  rw [h]

/-- **The bonus writer**: its row with its amount under the arbiter, or nothing. -/
theorem wp_applyBonus {code : String} {userId : UserId} {reference : BonusReference}
    {Q : BonusGrant → List (AccountsLock × LockMode) → (AccountsDb → AccountsDb) → AccountsDb → Prop}
    (h : Paying A known rows rows held writes db) (hknown : userId ∈ known)
    (hskipped : ∀ reason held' writes' db', Paying A known rows rows held' writes' db' →
      Q (.skipped reason) held' writes' db')
    (hgranted : ∀ tokens rule held' writes' db',
      Paying A known (reference.row userId tokens rule :: rows) (reference.row userId tokens rule :: rows)
        held' writes' db' → Q (.granted tokens rule.id) held' writes' db') :
    bonusProtocol.wp (applyBonus now code userId reference) Q held writes db := by
  unfold applyBonus resolveActiveRule
  rw [Protocol.wp_monad_bind, Protocol.wp_monad_bind]
  intro db₁ henv₁
  have h₁ := h.env henv₁
  beta_reduce
  cases hactive : AccountsDb.activeRule now code (writes db₁) with
  | none => exact hskipped .noActiveRule held writes db₁ h₁
  | some rule =>
    rw [Protocol.wp_ret]
    dsimp only
    cases hparams : parseBonusRuleParams rule.kind rule.params with
    | none => trivial
    | some params =>
      dsimp only
      rw [Protocol.wp_pure]
      dsimp only
      split
      · trivial
      · cases htokens : params.tokens with
        | none => trivial
        | some tokens =>
          dsimp only
          have hrule : ∃ rule', db₁.bonusTables.rule rule.id = some rule' ∧ rule'.tokens = some tokens := by
            have hfound := rule_of_activeRule h₁.now_inv hactive
            rw [rule_congr h₁.now.rules] at hfound
            refine ⟨rule, hfound, ?_⟩
            unfold BonusRuleRow.tokens
            rw [hparams]
            exact htokens
          -- the version's amount is the same at the commit
          have h₂ := h₁.learn_rely (fun a => ∃ rule', a.bonusTables.rule rule.id = some rule' ∧
            rule'.tokens = some tokens) hrule (fun a b hrely => hrely.tokens)
          rw [Protocol.wp_monad_bind]
          refine h₂.wp_change (fun a b => Effect A known (reference.row userId tokens rule :: rows) rows
            a.bonusTables b.bonusTables) (fun a b hsame => ?_) ((passes_addBonus _).comap fun _ => rfl)
            (fun a b hok heffect hfree => ⟨Protocol.Guarantee.comap ?_, heffect.1.addBonus⟩)
            (fun db₂ henv₂ _ _ => ?_) (fun db₂ henv₂ h₃ => ?_)
          · cases reference with
            | brokerAccount id => exact congrArg (!·) hsame
            | referral id => exact congrArg (!·) hsame
          · refine guarantee_addBonus hok ?_ ?_ List.mem_cons_self
            · cases reference with
              | brokerAccount id => exact (Bool.not_eq_true' _).mp hfree
              | referral id => exact (Bool.not_eq_true' _).mp hfree
            · rw [rule_congr heffect.1.rules]
              exact heffect.2
          · rw [if_neg Bool.false_ne_true]
            exact hskipped .alreadyGranted held writes db₂ (h₁.env henv₂)
          · rw [if_pos rfl, Protocol.wp_monad_bind]
            refine h₃.wp_change (fun a b => Effect A known (reference.row userId tokens rule :: rows)
              (reference.row userId tokens rule :: rows) a.bonusTables b.bonusTables) (fun a b hsame => ?_)
              ((passes_setUser fun _ => by rfl).comap fun _ => rfl)
              (fun a b hok heffect _ => ⟨Protocol.Guarantee.comap ?_, ?_⟩) (fun db₃ _ h₄ hgone => ?_)
              (fun db₃ henv₃ h₄ => ?_)
            · exact congrArg Option.isSome hsame
            · exact guarantee_setUser hok (fun _ => by rfl) (fun _ => by rfl) List.mem_cons_self
            · exact heffect.credit (show userId ∈ known from hknown)
            · obtain ⟨u, hu, -⟩ := h₄.now.known userId hknown
              have hsome : (((AccountsDb.insertBonus (reference.row userId tokens rule) ∘ writes) db₃).users.find?
                userId) = some u := hu
              rw [hsome] at hgone
              cases hgone
            · exact hgranted tokens rule _ _ db₃ h₄

theorem wp_grantLinkBonus {userId : UserId} {account : LinkedAccountRow}
    {Q : LinkBonusGrant → List (AccountsLock × LockMode) → (AccountsDb → AccountsDb) → AccountsDb → Prop}
    (h : Paying A known rows rows held writes db) (hknown : userId ∈ known)
    (hQ : ∀ grant link held' writes' db', grant.Writes userId account link →
      Paying A known (link ++ rows) (link ++ rows) held' writes' db' → Q grant held' writes' db') :
    bonusProtocol.wp (grantLinkBonus now userId account) Q held writes db := by
  unfold grantLinkBonus
  split
  · rename_i hpartner
    rw [Protocol.wp_monad_bind]
    refine wp_applyBonus h hknown (fun reason held' writes' db' h' => ?_)
      (fun tokens rule held' writes' db' h' => ?_)
    · cases reason with
      | noActiveRule => exact hQ _ [] held' writes' db' rfl h'
      | alreadyGranted => exact hQ _ [] held' writes' db' rfl h'
    · exact hQ _ [_] held' writes' db' ⟨hpartner, rule, rfl⟩ h'
  · exact hQ _ [] held writes db rfl h

/-- The inviter that is to be paid is known to be there and not blocked. -/
def KnowsInviter (inviter : ReferralInviter) (known : List UserId) : Prop :=
  ∀ referralId inviterUserId, inviter = .unpaid referralId inviterUserId false → inviterUserId ∈ known

theorem wp_lockReferralInviter {userId : UserId}
    {Q : ReferralInviter → List (AccountsLock × LockMode) → (AccountsDb → AccountsDb) → AccountsDb → Prop}
    (h : Paying A known rows credited held writes db)
    (hQ : ∀ inviter known' held' writes' db', (∀ i ∈ known, i ∈ known') →
      KnowsInviter inviter known' → Paying A known' rows credited held' writes' db' →
        Q inviter held' writes' db') :
    bonusProtocol.wp (lockReferralInviter userId) Q held writes db := by
  have hquiet : ∀ inviter db', (∀ r i, inviter ≠ .unpaid r i false) → bonusProtocol.Env held db db' →
      Q inviter held writes db' := by
    rintro inviter db' hne henv
    exact hQ inviter known held writes db' (fun _ hi => hi)
      (fun r i hpaid => absurd hpaid (hne r i)) (h.env henv)
  unfold lockReferralInviter
  rw [Protocol.wp_monad_bind]
  intro db₁ henv₁
  beta_reduce
  cases AccountsDb.referralOf (writes db₁) userId with
  | none => exact hquiet .noReferral db₁ (fun _ _ heq => by cases heq) henv₁
  | some referral =>
    rw [Protocol.wp_ret]
    dsimp only
    rw [Protocol.wp_monad_bind]
    intro db₂ henv₂
    have henv₂ := henv₁.trans henv₂
    rw [Protocol.wp_ret]
    split
    · exact hquiet (.paid referral.id) db₂ (fun _ _ heq => by cases heq) henv₂
    · rw [Protocol.wp_monad_bind]
      refine Protocol.wp_selectFor (fun _ _ _ => trivial) (fun db₃ inviter henv₃ hinviter => ?_)
      dsimp only
      rw [Protocol.wp_pure]
      have h₃ := (h.env (henv₂.trans henv₃)).lock (.user referral.inviterUserId) .exclusive
      by_cases hblocked : inviter.status = .blocked
      · refine hQ _ known _ writes db₃ (fun _ hi => hi) ?_ h₃
        rintro r i heq
        rw [decide_eq_true hblocked] at heq
        cases heq
      · refine hQ _ (referral.inviterUserId :: known) _ writes db₃
          (fun _ hi => List.mem_cons_of_mem _ hi) ?_ ?_
        · rintro r i heq
          obtain ⟨-, rfl, -⟩ := ReferralInviter.unpaid.inj heq
          exact List.mem_cons_self
        · exact Paying.know h₃ List.mem_cons_self ⟨inviter, hinviter, hblocked⟩

theorem wp_grantReferralReward {inviter : ReferralInviter} {account : LinkedAccountRow}
    {Q : ReferralRewardResult → List (AccountsLock × LockMode) → (AccountsDb → AccountsDb) →
      AccountsDb → Prop}
    (h : Paying A known rows rows held writes db) (hknows : KnowsInviter inviter known)
    (hQ : ∀ result reward held' writes' db', result.Writes account reward →
      (∀ row ∈ reward, row.userId ∈ known) →
      Paying A known (reward ++ rows) (reward ++ rows) held' writes' db' → Q result held' writes' db') :
    bonusProtocol.wp (grantReferralReward now inviter account) Q held writes db := by
  have hquiet : ∀ result, result.Writes account [] → Q result held writes db := by
    rintro result hwrites
    exact hQ result [] held writes db hwrites (fun _ hmem => absurd hmem List.not_mem_nil) h
  unfold grantReferralReward
  split
  · rename_i hpartner
    split
    · exact hquiet _ rfl
    · exact hquiet _ rfl
    · exact hquiet _ rfl
    · rename_i referralId inviterUserId
      have hknown : inviterUserId ∈ known := hknows referralId inviterUserId rfl
      rw [Protocol.wp_monad_bind]
      refine wp_applyBonus h hknown (fun reason held' writes' db' h' => ?_)
        (fun tokens rule held' writes' db' h' => ?_)
      · have hnone : ∀ row ∈ ([] : List BonusLedgerRow), row.userId ∈ known := by
          rintro row ⟨⟩
        cases reason with
        | noActiveRule => exact hQ _ [] held' writes' db' rfl hnone h'
        | alreadyGranted => exact hQ _ [] held' writes' db' rfl hnone h'
      · refine hQ _ [_] held' writes' db' ⟨hpartner, rule, rfl, rfl⟩ (fun row hmem => ?_) h'
        obtain rfl := List.mem_singleton.mp hmem
        exact hknown
  · exact hquiet _ rfl

/-- The users row of a Telegram account, read under its lock. -/
theorem wp_selectUser {telegramUserId : ℕ}
    {Q : Option UserRow → List (AccountsLock × LockMode) → (AccountsDb → AccountsDb) → AccountsDb → Prop}
    (hnone : ∀ db', bonusProtocol.Env held db db' → Q none held writes db')
    (hsome : ∀ db₁ db' u, bonusProtocol.Env held db db₁ →
      ((writes db₁).userOfTelegram telegramUserId).map (·.id) = some u.id → bonusProtocol.Env held db₁ db' →
      (writes db').users.find? u.id = some u → Q (some u) ((.user u.id, .exclusive) :: held) writes db') :
    bonusProtocol.wp (.selectForKey (fun db => (db.userOfTelegram telegramUserId).map (·.id))
      AccountsLock.user
      .exclusive (fun id db => db.users.find? id) : AccountsTx (Option UserRow)) Q held writes db := by
  refine Protocol.wp_selectForKey (fun db' henv _ => hnone db' henv)
    (fun _ db' _ henv₁ _ henv₂ _ => hnone db' (henv₁.trans henv₂))
      (fun db₁ db' i u henv₁ hfind henv₂ hu => ?_)
  obtain rfl : u.id = i := Table.key_of_find? hu
  exact hsome db₁ db' u henv₁ hfind henv₂ hu

/-- The user of a login: there, not blocked, and its row locked. -/
theorem wp_upsertUser {telegramUserId : ℕ} {newUserId : UserId}
    {Q : Option UserId → List (AccountsLock × LockMode) → (AccountsDb → AccountsDb) → AccountsDb → Prop}
    (h : Paying A [] rows credited held writes db)
    (hblocked : ∀ held' writes' db', Paying A [] rows credited held' writes' db' → Q none held' writes' db')
    (hsome : ∀ userId held' writes' db',
      Paying A [userId] rows credited held' writes' db' → Q (some userId) held' writes' db') :
    bonusProtocol.wp (upsertUser telegramUserId newUserId) Q held writes db := by
  -- a users row read under its lock
  have hread : ∀ u db', Paying A [] rows credited held writes db' → (writes db').users.find? u.id = some u →
      bonusProtocol.wp
        (pure (if u.status = .blocked then none else some u.id) : AccountsTx (Option UserId)) Q ((.user u.id, .exclusive) :: held) writes db' := by
    rintro u db' h hu
    have h' := h.lock (.user u.id) .exclusive
    rw [Protocol.wp_pure]
    split
    · exact hblocked _ _ _ h'
    · rename_i hstatus
      exact hsome _ _ _ _ (Paying.know h' List.mem_cons_self ⟨u, hu, hstatus⟩)
  unfold upsertUser
  rw [Protocol.wp_monad_bind]
  refine wp_selectUser (fun db₁ henv₁ => ?_) (fun _ db₁ u henv₁ _ henv₂ hu =>
    hread u db₁ (h.env (henv₁.trans henv₂)) hu)
  dsimp only
  rw [Protocol.wp_monad_bind]
  refine (h.env henv₁).wp_insertNew
    (fun a b => Effect A [newUserId] rows credited a.bonusTables b.bonusTables) (fun a b hsame => ?_) ((passes_addUser _).comap fun _ => rfl)
    (fun a b hok heffect hfresh => ⟨Protocol.Guarantee.comap ?_, ?_⟩) (fun db₂ h₂ => ?_) (fun db₂ h₂ => ?_)
  · exact congrArg Option.isNone hsame
  · exact guarantee_addUser hok (Option.isNone_iff_eq_none.mp hfresh) List.mem_cons_self
  · exact heffect.addUser (show b.bonusTables.user (newUserRow newUserId telegramUserId).id = none from
      Option.isNone_iff_eq_none.mp hfresh) rfl (fun heq => by cases heq)
  · rw [if_neg Bool.false_ne_true, Protocol.wp_monad_bind]
    refine wp_selectUser (fun _ _ => trivial) (fun _ db₃ u henv₃ _ henv₄ hu => ?_)
    exact hread u db₃ (h₂.env (henv₃.trans henv₄)) hu
  · rw [if_pos rfl]
    exact hsome newUserId _ _ db₂ h₂

/-- The three credits of an activation: the deposits, the starter pack and the inviter's reward. -/
theorem wp_credits {α : Type} {f : LinkBonusGrant → ReferralRewardResult → α} {id : AccountId}
    {userId : UserId} {trader : List Char} {account : LinkedAccountRow} {inviter : ReferralInviter}
    {Q : α → List (AccountsLock × LockMode) → (AccountsDb → AccountsDb) → AccountsDb → Prop}
    (h : Paying A known [] [] held writes db) (hknown : userId ∈ known)
    (hknows : KnowsInviter inviter known)
    (hQ : ∀ grant result link reward held' writes' db', grant.Writes userId account link →
      result.Writes account reward → (∀ row ∈ reward, row.userId ∈ known) →
      Paying A known (reward ++ link) (reward ++ link) held' writes' db' →
        Q (f grant result) held' writes' db') :
    bonusProtocol.wp (do
      let _ ← attachDepositsToAccount id userId trader
      let grant ← grantLinkBonus now userId account
      let referral ← grantReferralReward now inviter account
      return f grant referral) Q held writes db := by
  rw [Protocol.wp_monad_bind]
  have hattach : (attachDepositsToAccount id userId trader).Frames AccountsDb.bonusTables :=
    fun _ => TxProg.frames_changeAll (fun _ _ => by rfl) _ _ _
  refine Protocol.Owes.frame hattach h (fun _ held₁ writes₁ db₁ _ h₁ => ?_)
  rw [Protocol.wp_monad_bind]
  refine wp_grantLinkBonus h₁ hknown (fun grant link held₂ writes₂ db₂ hgrant h₂ => ?_)
  rw [Protocol.wp_monad_bind]
  rw [List.append_nil] at h₂
  refine wp_grantReferralReward h₂ hknows (fun result reward held₃ writes₃ db₃ hresult hrows h₃ => ?_)
  exact hQ grant result link reward held₃ writes₃ db₃ hgrant hresult hrows h₃

theorem bonus_creditActivation {activate : Bool} {userId : UserId} {account : LinkedAccountRow}
    {inviter : ReferralInviter} {Q : Option LinkBonusGrant × Option ReferralRewardResult →
      List (AccountsLock × LockMode) → (AccountsDb → AccountsDb) → AccountsDb → Prop}
    (h : Paying A known [] [] held writes db) (hknown : userId ∈ known)
    (hknows : KnowsInviter inviter known)
    (hactive : activate = true → account.status = .active)
    (hQ : ∀ grant result link reward held' writes' db',
      grant.elim (link = []) (·.Writes userId account link) →
      result.elim (reward = []) (·.Writes account reward) → (∀ row ∈ reward, row.userId ∈ known) →
      (reward ++ link ≠ [] → account.status = .active) →
      Paying A known (reward ++ link) (reward ++ link) held' writes' db' →
        Q (grant, result) held' writes' db') :
    bonusProtocol.wp (creditActivation now activate userId account inviter) Q held writes db := by
  unfold creditActivation
  split
  · rename_i hactivate
    refine wp_credits h hknown hknows (fun grant result link reward held' writes' db' hgrant hresult hrows h' => ?_)
    exact hQ (some grant) (some result) link reward held' writes' db' hgrant hresult hrows
      (fun _ => hactive hactivate) h'
  · split
    · rename_i hstatus
      rw [Protocol.wp_monad_bind]
      refine wp_grantReferralReward h hknows (fun result reward held' writes' db' hresult hrows h' => ?_)
      exact hQ none (some result) [] reward held' writes' db' rfl hresult hrows (fun _ => hstatus) h'
    · exact hQ none none [] [] held writes db rfl rfl (fun _ hmem => absurd hmem List.not_mem_nil)
        (fun hne => absurd rfl hne) h

end Payers

end Binarius
