import Mathlib.Tactic
import Mathlib.Data.List.TakeWhile
import Binarius.Shared.StakeSettings
import Binarius.Backend.ProfitSigns

/-!
# Stake.PlainAmounts — unsigned decimals, as the shared package and the sizer read them

* `Plain`: an unsigned decimal and its parts; `Plain.normalize`, `Plain.units`, `Plain.parse`: **the
  canonical form keeps the amount, and the sizer reads the amount the schema read.**
* `fromUnits_plain`, `multiplyDecimal_plain`: **a multiple is printed, and is the multiple.**
-/

namespace Binarius

open Lib

/-! ## Unsigned decimals -/

/-- An unsigned decimal of these integer and fraction digits. -/
structure Plain (text whole fraction : List Char) : Prop where
  eq : text = whole ++ pointed fraction
  wholeSome : whole ≠ []
  wholeDigits : ∀ c ∈ whole, c.isDigit = true
  fractionDigits : ∀ c ∈ fraction, c.isDigit = true

/-- The amount of the parts, in the last decimal place. -/
def amountOf (whole fraction : List Char) : ℤ :=
  bigIntOf whole * amountUnit + bigIntOf (padEnd amountScale fraction)

theorem amountOf_nonneg (whole fraction : List Char) : 0 ≤ amountOf whole fraction :=
  add_nonneg (mul_nonneg (bigIntOf_nonneg whole) (by decide)) (bigIntOf_nonneg _)

theorem digit_ne_point {l : List Char} (h : ∀ c ∈ l, c.isDigit = true) :
    ∀ c ∈ l, decide (c ≠ '.') = true := by
  intro c hc
  rw [decide_eq_true_eq]
  rintro rfl
  exact absurd (h _ hc) (by decide)

theorem splitDecimal_pointed {whole fraction : List Char} (hw : ∀ c ∈ whole, c.isDigit = true)
    (hf : ∀ c ∈ fraction, c.isDigit = true) :
    splitDecimal (whole ++ pointed fraction) = (whole, fraction) := by
  have hwhole := digit_ne_point hw
  have hfraction := digit_ne_point hf
  unfold splitDecimal
  rw [List.takeWhile_append_of_pos hwhole, List.dropWhile_append_of_pos hwhole]
  unfold pointed
  split_ifs with hnil
  · simp [hnil]
  · have hself : fraction.takeWhile (fun c => decide (c ≠ '.')) = fraction :=
      List.takeWhile_eq_self_iff.mpr hfraction
    simpa using hself

/-! ### The canonical form -/

theorem stripLeadingZeros_spec {whole : List Char} (hw : ∀ c ∈ whole, c.isDigit = true) :
    (whole ≠ [] → stripLeadingZeros whole ≠ []) ∧ (∀ c ∈ stripLeadingZeros whole, c ∈ whole) ∧
      bigIntOf (stripLeadingZeros whole) = bigIntOf whole := by
  fun_induction stripLeadingZeros whole with
  | case1 c cs hc ih =>
    obtain ⟨hne, hmem, hvalue⟩ := ih (fun d hd => hw d (List.mem_cons_of_mem _ hd))
    refine ⟨fun _ => hne (List.cons_ne_nil _ _), fun d hd => List.mem_cons_of_mem _ (hmem d hd), ?_⟩
    rw [hvalue]
    rfl
  | case2 c cs hc => exact ⟨id, fun _ => id, rfl⟩
  | case3 cs hcs => exact ⟨id, fun _ => id, rfl⟩

theorem stripTrailingZeros_zeros (fraction : List Char) :
    ∃ n, fraction = stripTrailingZeros fraction ++ List.replicate n '0' := by
  have hall : ∀ c ∈ fraction.reverse.takeWhile (· = '0'), c = '0' := by
    intro c hc
    simpa using List.mem_takeWhile_imp hc
  refine ⟨(fraction.reverse.takeWhile (· = '0')).length, ?_⟩
  have hsplit :
      fraction.reverse.takeWhile (· = '0') ++ fraction.reverse.dropWhile (· = '0') = fraction.reverse :=
    List.takeWhile_append_dropWhile
  have hrev := congrArg List.reverse hsplit
  rw [List.reverse_append, List.reverse_reverse] at hrev
  rw [List.eq_replicate_of_mem hall, List.reverse_replicate] at hrev
  exact hrev.symm

/-- Dropping the trailing zeros of a fraction of at most eight digits keeps its amount. -/
theorem bigIntOf_padEnd_strip {fraction : List Char} (hlen : fraction.length ≤ amountScale) :
    bigIntOf (padEnd amountScale (stripTrailingZeros fraction)) = bigIntOf (padEnd amountScale fraction) := by
  obtain ⟨n, hn⟩ := stripTrailingZeros_zeros fraction
  have hcount : amountScale - (stripTrailingZeros fraction).length = n + (amountScale - fraction.length) := by
    have hl := congrArg List.length hn
    rw [List.length_append, List.length_replicate] at hl
    omega
  have hsame : padEnd amountScale (stripTrailingZeros fraction) = padEnd amountScale fraction := by
    unfold padEnd
    rw [hcount, List.replicate_add, ← List.append_assoc, ← hn]
  rw [hsame]

theorem amountOf_strip {whole fraction : List Char} (hw : ∀ c ∈ whole, c.isDigit = true)
    (hlen : fraction.length ≤ amountScale) :
    amountOf (stripLeadingZeros whole) (stripTrailingZeros fraction) = amountOf whole fraction := by
  rw [amountOf, amountOf, (stripLeadingZeros_spec hw).2.2, bigIntOf_padEnd_strip hlen]

theorem mem_stripTrailingZeros {fraction : List Char} {c : Char} (h : c ∈ stripTrailingZeros fraction) :
    c ∈ fraction := by
  obtain ⟨n, hn⟩ := stripTrailingZeros_zeros fraction
  rw [hn]
  exact List.mem_append_left _ h

theorem stripTrailingZeros_length_le (fraction : List Char) :
    (stripTrailingZeros fraction).length ≤ fraction.length := by
  obtain ⟨n, hn⟩ := stripTrailingZeros_zeros fraction
  have hl := congrArg List.length hn
  rw [List.length_append] at hl
  omega

/-- An amount of few fraction digits is on the grid. -/
theorem amountOf_onGrid (whole : List Char) {fraction : List Char} {scale : ℤ} (hscale : ScaleOk scale)
    (hf : (fraction.length : ℤ) ≤ scale) :
    gridUnit scale ∣ amountOf whole fraction := by
  obtain ⟨h₀, h₈⟩ := hscale
  have hunit : gridUnit scale ∣ amountUnit := pow_dvd_pow 10 (Nat.sub_le _ _)
  have hpad : gridUnit scale ∣ bigIntOf (padEnd amountScale fraction) := by
    rw [bigIntOf_eq, padEnd, ofDigitChars_append_zeros]
    push_cast
    have hle : amountScale - scale.toNat ≤ amountScale - fraction.length := by omega
    exact Dvd.dvd.mul_right (pow_dvd_pow 10 hle) _
  exact dvd_add (Dvd.dvd.mul_left hunit _) hpad

namespace Plain

variable {text whole fraction : List Char} (h : Plain text whole fraction)
include h

theorem noSign : text.head? ≠ some '-' := by
  rw [h.eq]
  exact head?_digits_append h.wholeSome h.wholeDigits _

theorem split : splitDecimal text = (whole, fraction) := by
  rw [h.eq, splitDecimal_pointed h.wholeDigits h.fractionDigits]

theorem isDecimal : isDecimalString text = true := by
  have hparts : isDecimalString ([] ++ whole ++ pointed fraction) = true := by
    refine isDecimalString_of_parts (.inl rfl) h.wholeSome h.wholeDigits ?_
    unfold pointed
    split_ifs with hf
    · exact .inl rfl
    · exact .inr ⟨fraction, rfl, hf, h.fractionDigits⟩
  rw [h.eq]
  exact hparts

/-- The canonical form. -/
theorem normalize :
    Plain (normalizeDecimal text) (stripLeadingZeros whole) (stripTrailingZeros fraction) := by
  obtain ⟨hne, hmem, -⟩ := stripLeadingZeros_spec h.wholeDigits
  refine ⟨?_, hne h.wholeSome, fun c hc => h.wholeDigits c (hmem c hc), fun c hc =>
    h.fractionDigits c (mem_stripTrailingZeros hc)⟩
  unfold normalizeDecimal pointed
  rw [h.split]
  simp only
  split_ifs with hnil
  · rw [List.append_nil]
  · rfl

theorem decimalScale : decimalScale text = (stripTrailingZeros fraction).length := by
  rw [Binarius.decimalScale, h.normalize.split]

theorem units : units text = amountOf whole fraction := by
  have hsign := h.noSign
  unfold Binarius.units
  simp only [hsign, if_false, h.split]
  rfl

/-- **The sizer reads the amount**, inside the domain. -/
theorem parse (hw : whole.length ≤ amountIntegerDigits) (hf : fraction.length ≤ amountScale) :
    parseAmount text = some (amountOf whole fraction) := by
  have hsign := h.noSign
  have hmatch := matchDecimal_pointed h.wholeSome h.wholeDigits hw h.fractionDigits hf
  rw [← h.eq] at hmatch
  unfold parseAmount
  simp only [hsign, if_false, hmatch]
  rfl

/-- **What the schema accepts the sizer reads.** -/
theorem parse_of_isTradeAmount (hamount : isTradeAmount text = true) :
    parseAmount text = some (amountOf whole fraction) ∧ 0 < amountOf whole fraction := by
  rw [isTradeAmount, isNumericDomainDecimal, Bool.and_eq_true, fitsNumeric, h.split, Bool.and_eq_true,
    decide_eq_true_eq, decide_eq_true_eq] at hamount
  obtain ⟨hpositive, hw, hf⟩ := hamount
  refine ⟨h.parse hw hf, ?_⟩
  rw [isPositiveDecimalString, Bool.and_eq_true] at hpositive
  have hdigit : hasNonzeroDigit text = true := hpositive.2
  rw [h.eq, hasNonzeroDigit_append, hasNonzeroDigit_pointed, Bool.or_eq_true,
    hasNonzeroDigit_iff h.wholeDigits, ← padEnd_pos_iff h.fractionDigits] at hdigit
  have hw₀ := bigIntOf_nonneg whole
  have hf₀ := bigIntOf_nonneg (padEnd amountScale fraction)
  have hunit : amountUnit = 100000000 := rfl
  rw [amountOf, hunit]
  omega

end Plain

/-- A positive numeric(20,8) text is unsigned. -/
theorem NumericText.plain {text : DecimalString} (h : NumericText text) (hpos : 0 < units text) :
    ∃ whole fraction, Plain text whole fraction ∧ whole.length ≤ amountIntegerDigits ∧
      fraction.length ≤ amountScale := by
  obtain ⟨sign, whole, fraction, rfl, hsign, hw, hwd, hlen, hfd, hflen⟩ := h
  rcases hsign with rfl | rfl
  · exact ⟨whole, fraction, ⟨rfl, hw, hwd, hfd⟩, hlen, hflen⟩
  · -- a signed amount is not positive
    have hplain : Plain (whole ++ pointed fraction) whole fraction := ⟨rfl, hw, hwd, hfd⟩
    have hneg : units (['-'] ++ (whole ++ pointed fraction)) = -amountOf whole fraction := by
      unfold units
      simp only [List.singleton_append, List.head?_cons, if_true, List.drop_one, List.tail_cons, hplain.split]
      rfl
    have h₀ := amountOf_nonneg whole fraction
    rw [hneg] at hpos
    omega

/-! ## Multiples -/

theorem fromUnits_plain {value : ℤ} (h₀ : 0 ≤ value) :
    ∃ text whole fraction, fromUnits value = .ok text ∧ Plain text whole fraction ∧
      amountOf whole fraction = value := by
  have hlen := fractionText_length value
  have hne : fractionText value ≠ [] := by
    intro hnil
    rw [hnil] at hlen
    exact absurd hlen (by decide)
  have hplain :
      Plain (wholeText value ++ '.' :: fractionText value) (wholeText value) (fractionText value) := by
    refine ⟨?_, wholeText_ne_nil value, fun c hc => isDigit_wholeText hc, fun c hc => isDigit_fractionText hc⟩
    rw [pointed, if_neg hne]
  have hamount : amountOf (wholeText value) (fractionText value) = value := by
    have hpad : padEnd amountScale (fractionText value) = fractionText value := by
      rw [padEnd, hlen, Nat.sub_self, List.replicate_zero, List.append_nil]
    rw [amountOf, hpad, bigIntOf_eq (fractionText value), value_fractionText]
    exact whole_add_fraction h₀
  have hinteger : bigIntString (value.tdiv unitScale) = wholeText value := by
    have hdiv : value.tdiv unitScale = ((value.natAbs / 10 ^ amountScale : ℕ) : ℤ) := by
      rw [Int.tdiv_eq_ediv_of_nonneg h₀]
      push_cast
      rw [abs_of_nonneg h₀]
      rfl
    rw [hdiv, bigIntString, if_neg (not_lt.mpr (Int.natCast_nonneg _)), Int.natAbs_natCast, wholeText]
  have hfraction :
      padStart numericFractionDigits (bigIntString (value.tmod unitScale)) = fractionText value := by
    have hmod : value.tmod unitScale = ((value.natAbs % 10 ^ amountScale : ℕ) : ℤ) := by
      rw [Int.tmod_eq_emod_of_nonneg h₀]
      push_cast
      rw [abs_of_nonneg h₀]
      rfl
    rw [hmod, bigIntString, if_neg (not_lt.mpr (Int.natCast_nonneg _)), Int.natAbs_natCast]
    rfl
  refine ⟨_, _, _, ?_, hplain.normalize, ?_⟩
  · unfold fromUnits
    simp only [hinteger, hfraction]
    exact parseDecimalString_ok hplain.normalize.isDecimal
  · rw [amountOf_strip hplain.wholeDigits (le_of_eq hlen), hamount]

/-- **A multiple of an amount is printed, and its text is the multiple.** -/
theorem multiplyDecimal_plain {text whole fraction : List Char} (h : Plain text whole fraction) {k : ℤ}
    (hk : 0 ≤ k) :
    ∃ text' whole' fraction', multiplyDecimal text k = .ok text' ∧ Plain text' whole' fraction' ∧
      amountOf whole' fraction' = amountOf whole fraction * k := by
  have h₀ : 0 ≤ units text * k := by
    rw [h.units]
    exact mul_nonneg (amountOf_nonneg _ _) hk
  obtain ⟨text', whole', fraction', hprint, hplain, hamount⟩ := fromUnits_plain h₀
  rw [h.units] at hamount
  exact ⟨text', whole', fraction', hprint, hplain, hamount⟩

end Binarius
