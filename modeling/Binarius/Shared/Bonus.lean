import Mathlib.Tactic
import Binarius.Shared.Money

/-!
# Shared.Bonus — the params of a bonus rule (packages/shared/src/bonus.ts)

`params` is a JSON object as the row holds it: keys with strings, or with values that are not strings.

* `parseBonusRuleParams_tokens`: the tokens of a fixed rule are positive and within the cap.
-/

namespace Binarius

inductive BonusRuleKind
  | linkBonus
  | referralReward
  | depositBonus
  deriving DecidableEq, Repr

inductive ParamValue
  | text (value : List Char)
  | other
  deriving DecidableEq, Repr

/-- A JSON object: its keys are distinct. -/
abbrev RawParams := List (String × ParamValue)

/-- BONUS_RULE_TOKENS_MAX. -/
def bonusRuleTokensMax : ℤ := 1000

/-- NUMERIC_INTEGER_DIGITS. -/
def numericIntegerDigits : ℕ := 12

/-- ruleTokensSchema: `^[1-9]\d{0,15}$`, at most the cap. -/
def ruleTokens : ParamValue → Option ℤ
  | .text (c :: cs) =>
    if ('1' ≤ c && c ≤ '9') && cs.length ≤ 15 && cs.all Char.isDigit &&
        decide (bigIntOf (c :: cs) ≤ bonusRuleTokensMax) then some (bigIntOf (c :: cs))
    else none
  | _ => none

def fitsNumeric (value : List Char) : Bool :=
  (splitDecimal value).1.length ≤ numericIntegerDigits &&
    (splitDecimal value).2.length ≤ numericFractionDigits

def nonNegativeDecimal : ParamValue → Option DecimalString
  | .text value =>
    if isDecimalString value && decide (value.head? ≠ some '-') && fitsNumeric value then some value else none
  | .other => none

def positiveDecimal (value : ParamValue) : Option DecimalString :=
  (nonNegativeDecimal value).filter (fun text => text.any (fun c => '1' ≤ c && c ≤ '9'))

inductive BonusRuleParams
  | fixedTokens (tokens : ℤ)
  | depositBonus (tokensPerUsd minAmountUsd maxTokens : DecimalString)
  deriving DecidableEq, Repr

/-- A strict object: the keys of its schema and no other. -/
def strictKeys (params : RawParams) (keys : List String) : Bool :=
  params.all (fun p => keys.contains p.1) && keys.all (fun k => (params.lookup k).isSome)

/-- `none` when the params do not fit their kind: no default, no partial value. -/
def parseBonusRuleParams (kind : BonusRuleKind) (params : RawParams) : Option BonusRuleParams :=
  match kind with
  | .linkBonus | .referralReward =>
    if strictKeys params ["tokens"] then
      ((params.lookup "tokens").bind ruleTokens).map .fixedTokens
    else none
  | .depositBonus =>
    if strictKeys params ["tokensPerUsd", "minAmountUsd", "maxTokens"] then do
      let tokensPerUsd ← (params.lookup "tokensPerUsd").bind positiveDecimal
      let minAmountUsd ← (params.lookup "minAmountUsd").bind nonNegativeDecimal
      let maxTokens ← (params.lookup "maxTokens").bind positiveDecimal
      return .depositBonus tokensPerUsd minAmountUsd maxTokens
    else none

/-- The amount a fixed rule credits. -/
def BonusRuleParams.tokens : BonusRuleParams → Option ℤ
  | .fixedTokens tokens => some tokens
  | .depositBonus _ _ _ => none

theorem bigIntOf_cons_pos {c : Char} {cs : List Char} (hlow : '1' ≤ c) : 0 < bigIntOf (c :: cs) := by
  have hfold : ∀ (ds : List Char) (acc : ℤ), 0 < acc →
      0 < ds.foldl (fun (acc : ℤ) c => 10 * acc + (c.toNat - '0'.toNat : ℕ)) acc := by
    intro ds
    induction ds with
    | nil =>
      intro acc hacc
      exact hacc
    | cons d ds ih =>
      intro acc hacc
      exact ih _ (by positivity)
  have hc : '1'.toNat ≤ c.toNat := hlow
  have hone : '1'.toNat = 49 := rfl
  have hzero : '0'.toNat = 48 := rfl
  unfold bigIntOf
  rw [List.foldl_cons]
  apply hfold
  omega

/-- **The tokens of a fixed rule are positive and within the cap.** -/
theorem parseBonusRuleParams_tokens {kind : BonusRuleKind} {params : RawParams} {parsed : BonusRuleParams}
    {tokens : ℤ} (h : parseBonusRuleParams kind params = some parsed) (ht : parsed.tokens = some tokens) :
    0 < tokens ∧ tokens ≤ bonusRuleTokensMax := by
  have hfixed : ∀ value, ruleTokens value = some tokens → 0 < tokens ∧ tokens ≤ bonusRuleTokensMax := by
    intro value hvalue
    unfold ruleTokens at hvalue
    split at hvalue
    · split at hvalue
      · rename_i c cs hok
        simp only [Bool.and_eq_true, decide_eq_true_eq] at hok
        obtain rfl := Option.some.inj hvalue
        exact ⟨bigIntOf_cons_pos hok.1.1.1.1, hok.2⟩
      · exact nomatch hvalue
    · exact nomatch hvalue
  have hlookup : ∀ o : Option ParamValue, (o.bind ruleTokens).map BonusRuleParams.fixedTokens = some parsed →
      0 < tokens ∧ tokens ≤ bonusRuleTokensMax := by
    intro o ho
    cases hv : o.bind ruleTokens with
    | none =>
      rw [hv] at ho
      exact nomatch ho
    | some t =>
      rw [hv] at ho
      obtain rfl := Option.some.inj ho
      obtain rfl := Option.some.inj ht
      obtain ⟨value, _, hvalue⟩ := Option.bind_eq_some_iff.mp hv
      exact hfixed value hvalue
  unfold parseBonusRuleParams at h
  split at h
  · split at h
    · exact hlookup _ h
    · exact nomatch h
  · split at h
    · exact hlookup _ h
    · exact nomatch h
  · split at h
    · simp only [bind, Option.bind_eq_some_iff] at h
      obtain ⟨_, _, _, _, _, _, hparsed⟩ := h
      obtain rfl := Option.some.inj hparsed
      exact nomatch ht
    · exact nomatch h

end Binarius
