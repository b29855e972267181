import Mathlib.Tactic
import Binarius.Stake.MoneyTexts

/-!
# Stake.Presets — the amounts a picker offers (packages/shared: stake.ts)

* `stakePresets`: the minimum's multiples, within the balance and the column.
* `fromUnits_amount`: a positive amount of the column is printed as one the schema takes.
* `stakePresets_checked`: **every amount offered is accepted by the check under the same limits.**
-/

namespace Binarius

/-- STAKE_PRESET_MULTIPLIERS. -/
def stakePresetMultipliers : List ℤ := [1, 2, 5, 10]

def maxUnits : ℤ := 10 ^ numericIntegerDigits * unitScale

/-- A minimum of 0 offers none. -/
def stakePresets (limits : StakeLimits) : Except StakeError (List DecimalString) :=
  let min := units limits.minTradeAmount
  let available := units limits.available
  ((stakePresetMultipliers.map fun k => min * k).filter fun value =>
    decide (0 < value) && decide (value ≤ available) && decide (value < maxUnits)).mapM fromUnits

/-- Where every element is mapped with a property, so is the list. -/
theorem mapM_ok_all {α β ε : Type} {f : α → Except ε β} {P : β → Prop} {l : List α}
    (h : ∀ a ∈ l, ∃ b, f a = .ok b ∧ P b) : ∃ bs, l.mapM f = .ok bs ∧ ∀ b ∈ bs, P b := by
  induction l with
  | nil => exact ⟨[], rfl, fun b hb => absurd hb List.not_mem_nil⟩
  | cons a l ih =>
    obtain ⟨b, hb, hP⟩ := h a List.mem_cons_self
    obtain ⟨bs, hbs, hall⟩ := ih fun a' ha' => h a' (List.mem_cons_of_mem _ ha')
    refine ⟨b :: bs, ?_, ?_⟩
    · rw [List.mapM_cons, hb, hbs]
      rfl
    · intro b' hb'
      rcases List.mem_cons.mp hb' with rfl | htail
      · exact hP
      · exact hall b' htail

/-- An unsigned decimal of the column's digits that is not zero is an amount. -/
theorem Plain.isTradeAmount {text whole fraction : List Char} (h : Plain text whole fraction)
    (hw : whole.length ≤ amountIntegerDigits) (hf : fraction.length ≤ amountScale)
    (hpos : 0 < amountOf whole fraction) : isTradeAmount text = true := by
  have hdigit : hasNonzeroDigit text = true := by
    rw [h.eq, hasNonzeroDigit_append, hasNonzeroDigit_pointed, Bool.or_eq_true,
      hasNonzeroDigit_iff h.wholeDigits, ← padEnd_pos_iff h.fractionDigits]
    have hw₀ := bigIntOf_nonneg whole
    have hf₀ := bigIntOf_nonneg (padEnd amountScale fraction)
    have hunit : amountUnit = 100000000 := rfl
    rw [amountOf, hunit] at hpos
    omega
  have hsign := h.noSign
  rw [Binarius.isTradeAmount, isNumericDomainDecimal, Bool.and_eq_true, fitsNumeric, h.split,
    Bool.and_eq_true,
    decide_eq_true_eq, decide_eq_true_eq]
  refine ⟨?_, hw, hf⟩
  rw [isPositiveDecimalString, h.isDecimal, Bool.true_and, decide_eq_true hsign, Bool.true_and]
  exact hdigit

/-- **A positive amount of the column is printed as its own text, an amount.** -/
theorem fromUnits_amount {value : ℤ} (hpos : 0 < value) (hmax : value < maxUnits) :
    ∃ text, fromUnits value = .ok text ∧ isTradeAmount text = true ∧ isDecimalString text = true ∧
      units text = value ∧ decimalValue text * 10 ^ amountScale = value := by
  obtain ⟨text, hprint, hs⟩ := formatAmount_spelled value
  rw [decide_eq_false (not_lt.mpr hpos.le)] at hs
  have hplain : Plain text (wholeText value) (stripTrailingZeros (fractionText value)) :=
    ⟨hs.eq, hs.wholeSome, hs.wholeDigits, hs.fractionDigits⟩
  have hfraction : (stripTrailingZeros (fractionText value)).length ≤ amountScale :=
    (stripTrailingZeros_length_le _).trans (le_of_eq (fractionText_length value))
  have hamount : amountOf (wholeText value) (stripTrailingZeros (fractionText value)) = value := by
    have habs : (value.natAbs : ℤ) = value := Int.natAbs_of_nonneg hpos.le
    rw [amountOf, bigIntOf_padEnd_strip (le_of_eq (fractionText_length value)), ← amountOf,
      amountOf_texts, habs]
  have hunits : units text = value := by rw [hplain.units, hamount]
  have hwithin : WithinUnits text := by
    left
    rw [hplain.split]
    exact hfraction
  refine ⟨text, ?_, hplain.isTradeAmount (wholeText_length hpos.le hmax) hfraction ?_, hplain.isDecimal,
    hunits,
    ?_⟩
  · rw [(fromUnits_eq_iff value).mpr (Or.inl hpos.le), hprint]
  · rw [hamount]
    exact hpos
  · rw [← (units_eq_iff hplain.isDecimal).mpr hwithin, hunits]

/-- A multiple of the minimum lies on the minimum's grid. -/
theorem multiple_onGrid {text min : DecimalString} {k : ℤ} (htext : isDecimalString text = true)
    (hmin : isDecimalString min = true) (h : decimalValue text = decimalValue min * k) :
    decimalScale text ≤ stakeScale min := by
  rw [decimalScale_le_iff htext (stakeScale_pos min), h]
  obtain ⟨n, hn⟩ := (decimalScale_le_iff hmin (stakeScale_pos min)).mp (le_max_right _ _)
  refine ⟨n * k, ?_⟩
  push_cast
  rw [← hn]
  ring

/-- **Every amount offered is accepted by the check under the same limits.** -/
theorem stakePresets_checked {limits : StakeLimits} (hmin : NumericText limits.minTradeAmount) :
    ∃ presets, stakePresets limits = .ok presets ∧
      ∀ amount ∈ presets, checkStake amount limits = none ∧ isTradeAmount amount = true := by
  refine mapM_ok_all fun value hvalue => ?_
  obtain ⟨hmem, hkept⟩ := List.mem_filter.mp hvalue
  obtain ⟨k, hk, hmultiple⟩ := List.mem_map.mp hmem
  rw [Bool.and_eq_true, Bool.and_eq_true, decide_eq_true_eq, decide_eq_true_eq, decide_eq_true_eq] at hkept
  obtain ⟨⟨hpos, havailable⟩, hmax⟩ := hkept
  have hall : ∀ k ∈ stakePresetMultipliers, 1 ≤ k := by decide
  have hone := hall k hk
  obtain ⟨text, hprint, htrade, hdecimal, hunits, hnumber⟩ := fromUnits_amount hpos hmax
  have hminPos : 0 < units limits.minTradeAmount := by
    rw [← hmultiple] at hpos
    exact pos_of_mul_pos_left hpos (by omega)
  refine ⟨text, hprint, checkStake_eq_none.mpr ⟨?_, ?_, ?_⟩, htrade⟩
  · obtain ⟨whole, fraction, hplain, hw, hf⟩ := hmin.plain hminPos
    have hwithin : WithinUnits limits.minTradeAmount := by
      left
      rw [hplain.split]
      exact hf
    have hbase := (units_eq_iff hplain.isDecimal).mpr hwithin
    have hpow : (10 : ℚ) ^ amountScale ≠ 0 := by positivity
    refine multiple_onGrid (k := k) hdecimal hplain.isDecimal (mul_right_cancel₀ hpow ?_)
    rw [hnumber, ← hmultiple]
    push_cast
    rw [hbase]
    ring
  · rw [hunits, ← hmultiple]
    exact le_mul_of_one_le_right hminPos.le hone
  · rw [hunits]
    exact havailable

end Binarius
