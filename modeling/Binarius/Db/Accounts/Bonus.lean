import Mathlib.Tactic
import Binarius.Db.Accounts.Schema

/-!
# Db.Accounts.Bonus — bonus rules, the starter pack and the inviter's reward
(packages/db/src: bonus-rule-ops.ts, link-bonus-ops.ts, referral-reward-ops.ts)

The statements of the bonus writer and of the rule writers.  The audit rows are left out: no modelled
function reads them; so is the wording of a params refusal.

* `applyBonus`: the ledger row under its reference's arbiter, and the balance.
* `lockReferralInviter`, `grantReferralReward`: the two halves of the inviter's reward.
* `createBonusRuleVersion`, `activateBonusRuleVersion`, `deactivateBonusRule`.
-/

namespace Binarius

open Lib

/-- The version of a code in force now: active and inside its validity window. -/
def AccountsDb.activeRule (now : UnixMs) (code : String) (db : AccountsDb) : Option BonusRuleRow :=
  db.bonusRules.find? (fun rule => rule.code = code && rule.isActive &&
    rule.validFrom.all (fun t => decide (t ≤ now)) && rule.validTo.all (fun t => decide (now < t)))

/-- What a bonus is credited for. -/
inductive BonusReference
  | brokerAccount (id : AccountId)
  | referral (id : ReferralId)
  deriving DecidableEq, Repr

/-- referenceShape: the rule kind it pins, its columns and its arbiter. -/
def BonusReference.kind : BonusReference → BonusRuleKind
  | .brokerAccount _ => .linkBonus
  | .referral _ => .referralReward

def BonusReference.arbiter (userId : UserId) : BonusReference → AccountsLock
  | .brokerAccount _ => .linkBonus userId
  | .referral id => .referralReward id

def BonusReference.taken (userId : UserId) (db : AccountsDb) : BonusReference → Bool
  | .brokerAccount _ => db.hasLinkBonus userId
  | .referral id => db.hasReward id

def BonusReference.row (reference : BonusReference) (userId : UserId) (tokens : ℤ) (rule : BonusRuleRow) :
    BonusLedgerRow where
  userId := userId
  balanceDelta := tokens
  brokerAccountId := match reference with | .brokerAccount id => some id | .referral _ => none
  referralId := match reference with | .brokerAccount _ => none | .referral id => some id
  bonusRuleId := rule.id
  bonusRuleKind := rule.kind

inductive BonusSkipReason
  | noActiveRule
  | alreadyGranted
  deriving DecidableEq, Repr

inductive BonusGrant
  | granted (tokens : ℤ) (ruleId : BonusRuleId)
  | skipped (reason : BonusSkipReason)
  deriving DecidableEq, Repr

inductive LinkBonusSkipReason
  | notPartnerClient
  | noActiveRule
  | alreadyGranted
  deriving DecidableEq, Repr

inductive LinkBonusGrant
  | granted (tokens : ℤ)
  | skipped (reason : LinkBonusSkipReason)
  deriving DecidableEq, Repr

inductive ReferralRewardSkipReason
  | notPartnerClient
  | noReferral
  | alreadyRewarded
  | inviterBlocked
  | noActiveRule
  deriving DecidableEq, Repr

inductive ReferralRewardResult
  | rewarded (referralId : ReferralId) (inviterUserId : UserId) (tokens : ℤ) (ruleId : BonusRuleId)
  | skipped (reason : ReferralRewardSkipReason) (referralId : Option ReferralId)
  deriving DecidableEq, Repr

inductive ReferralInviter
  | noReferral
  | paid (referralId : ReferralId)
  | unpaid (referralId : ReferralId) (inviterUserId : UserId) (inviterBlocked : Bool)
  deriving DecidableEq, Repr

/-- LINK_BONUS_RULE_CODE. -/
def linkBonusRuleCode : String := "link_bonus"

/-- REFERRAL_REWARD_RULE_CODE. -/
def referralRewardRuleCode : String := "referral_reward"

namespace AccountsTx

/-! ## Grants -/

def resolveActiveRule (now : UnixMs) (code : String) : AccountsTx (Option (BonusRuleRow × BonusRuleParams)) := do
  let some rule ← .select (AccountsDb.activeRule now code) | return none
  match parseBonusRuleParams rule.kind rule.params with
  | some params => return some (rule, params)
  | none => .raise (.invalidBonusRule code)

/-- The bonus writer, in the transaction of a caller that holds the users row. -/
def applyBonus (now : UnixMs) (code : String) (userId : UserId) (reference : BonusReference) :
    AccountsTx BonusGrant := do
  let some (rule, params) ← resolveActiveRule now code | return .skipped .noActiveRule
  if rule.kind ≠ reference.kind then .raise (.invalidBonusRule code)
  else
    match params.tokens with
    -- a rule of a reference's kind has fixed tokens
    | none => .raise (.invalidBonusRule code)
    | some tokens =>
      let inserted ← .change (reference.arbiter userId) (fun db => !reference.taken userId db)
        (AccountsDb.insertBonus (reference.row userId tokens rule))
      if inserted then
        let _ ← .change (.user userId) (fun db => (db.users.find? userId).isSome)
          (AccountsDb.updateUser userId (fun user => { user with tokenBalance := user.tokenBalance + tokens }))
        return .granted tokens rule.id
      else return .skipped .alreadyGranted

def grantLinkBonus (now : UnixMs) (userId : UserId) (account : LinkedAccountRow) : AccountsTx LinkBonusGrant :=
  if account.isPartnerClient then do
    match ← applyBonus now linkBonusRuleCode userId (.brokerAccount account.id) with
    | .granted tokens _ => return .granted tokens
    | .skipped .noActiveRule => return .skipped .noActiveRule
    | .skipped .alreadyGranted => return .skipped .alreadyGranted
  else return .skipped .notPartnerClient

/-- The first half of the inviter's reward: the inviter's users row, while the referral is unpaid. -/
def lockReferralInviter (inviteeUserId : UserId) : AccountsTx ReferralInviter := do
  let some referral ← .select (fun db => db.referralOf inviteeUserId) | return .noReferral
  let paid ← .select (fun db => db.hasReward referral.id)
  if paid then return .paid referral.id
  else
    let some inviter ← .selectFor (.user referral.inviterUserId) .exclusive
      (fun db => db.users.find? referral.inviterUserId) | .raise .vanished
    return .unpaid referral.id referral.inviterUserId (inviter.status = .blocked)

/-- The second half, after the account was made active by this transaction. -/
def grantReferralReward (now : UnixMs) (referral : ReferralInviter) (account : LinkedAccountRow) :
    AccountsTx ReferralRewardResult :=
  if account.isPartnerClient then
    match referral with
    | .noReferral => return .skipped .noReferral none
    | .paid referralId => return .skipped .alreadyRewarded (some referralId)
    | .unpaid referralId _ true => return .skipped .inviterBlocked (some referralId)
    | .unpaid referralId inviterUserId false => do
      match ← applyBonus now referralRewardRuleCode inviterUserId (.referral referralId) with
      | .granted tokens ruleId => return .rewarded referralId inviterUserId tokens ruleId
      | .skipped .noActiveRule => return .skipped .noActiveRule (some referralId)
      | .skipped .alreadyGranted => return .skipped .alreadyRewarded (some referralId)
  else return .skipped .notPartnerClient none

/-! ## The rules -/

/-- The versions of a code, oldest first, each locked. -/
def lockCode (code : String) : AccountsTx (List BonusRuleRow) :=
  .read (fun db =>
    .lockAll AccountsLock.rule (fun id db => db.rule id)
      (((db.bonusRules.filter (fun rule => rule.code = code)).map BonusRuleRow.id).insertionSort
        (fun a b => a.2 ≤ b.2)))

inductive CreateBonusRuleVersionResult
  | created (row : BonusRuleRow)
  | kindRequired
  | kindMismatch (kind : BonusRuleKind)
  | paramsRefused
  deriving DecidableEq, Repr

/-- Inserted inactive; two concurrent first versions of a new code both see no row to lock, and the second
fails on the unique key. -/
def createBonusRuleVersion (code : String) (kind : Option BonusRuleKind) (params : RawParams) :
    AccountsTx CreateBonusRuleVersionResult := do
  let rows ← lockCode code
  let existing := rows.head?.map (·.kind)
  match existing.or kind with
  | none => return .kindRequired
  | some ruleKind =>
    if existing.isSome && kind.any (fun k => some k ≠ existing) then return .kindMismatch ruleKind
    else if (parseBonusRuleParams ruleKind params).isNone then return .paramsRefused
    else
      let row : BonusRuleRow :=
        { code, version := (rows.getLast?.map (·.version)).getD 0 + 1, kind := ruleKind, isActive := false
          params, validFrom := none, validTo := none }
      let inserted ← .change (.rule row.id) (fun db => (db.rule row.id).isNone) (AccountsDb.insertRule row)
      if inserted then return .created row else .raise .unique

inductive ActivateBonusRuleResult
  | activated (id : BonusRuleId) (previousVersion : Option ℕ)
  | notFound
  | alreadyActive
  | paramsRefused
  deriving DecidableEq, Repr

/-- Deactivates the current version first, then activates the given one. -/
def activateBonusRuleVersion (code : String) (version : ℕ) : AccountsTx ActivateBonusRuleResult := do
  let rows ← lockCode code
  match rows.find? (fun rule => rule.version = version) with
  | none => return .notFound
  | some target =>
    if target.isActive then return .alreadyActive
    else if (parseBonusRuleParams target.kind target.params).isNone then return .paramsRefused
    else
      let current := rows.find? (·.isActive)
      let _ ← (match current with
        | some rule => .change (.rule rule.id) (fun db => (db.rule rule.id).isSome)
            (AccountsDb.setRuleActive rule.id false)
        | none => return false : AccountsTx Bool)
      -- bonus_rules_active_code_idx: no other version of the code is active
      let free ← .change (.activeRule code)
        (fun db => db.bonusRules.all (fun rule => rule.code ≠ code || !rule.isActive || rule.id = target.id)) id
      if free then
        let updated ← .change (.rule target.id) (fun db => (db.rule target.id).isSome)
          (AccountsDb.setRuleActive target.id true)
        if updated then return .activated target.id (current.map (·.version)) else .raise .vanished
      else .raise .unique

inductive DeactivateBonusRuleResult
  | deactivated (id : BonusRuleId)
  | notFound
  | notActive
  deriving DecidableEq, Repr

/-- Leaves the code with no active version: its grants stop. -/
def deactivateBonusRule (code : String) : AccountsTx DeactivateBonusRuleResult := do
  let rows ← lockCode code
  if rows.isEmpty then return .notFound
  else
    match rows.find? (·.isActive) with
    | none => return .notActive
    | some current =>
      let updated ← .change (.rule current.id) (fun db => (db.rule current.id).isSome)
        (AccountsDb.setRuleActive current.id false)
      if updated then return .deactivated current.id else .raise .vanished

end AccountsTx

end Binarius
