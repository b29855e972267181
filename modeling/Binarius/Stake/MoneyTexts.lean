import Mathlib.Tactic
import Binarius.Stake.DecimalForms

/-!
# Stake.MoneyTexts — the money texts of the two packages (packages/stake: money.ts, packages/shared: stake.ts)

The sizer prints and parses amounts, the shared package reads them as units for the check of a stake.

* `parseAmount_formatAmount`: **a printed amount reads back.**
* `formatStake_spelled`: **a printed stake has exactly the scale's digits and is the stake.**
* `parseAmount_units`, `fromUnits_eq_iff`: the packages read every numeric(20,8) text alike; they print
  alike what is not negative or whole.
* `units_eq_iff`, `checkStake_iff`: units read the number of a text of few fraction digits, and of no other
  but zeros; **the check of a stake is the check of its number where they do**, `checkStake_allowed` against
  the limits of one account.
-/

namespace Binarius

open Lib

/-! ## Units of a text -/

namespace Spelled

variable {text whole fraction : List Char} {negative : Bool} (h : Spelled text negative whole fraction)
include h

theorem units : units text = if negative then -amountOf whole fraction else amountOf whole fraction := by
  unfold Binarius.units
  simp only
  rw [h.unsigned, h.plain.split]
  simp only [h.signed_iff]
  rfl

theorem split_fraction : (splitDecimal text).2 = fraction := by
  cases negative with
  | false =>
    have heq : text = whole ++ pointed fraction := h.eq
    rw [heq, h.plain.split]
  | true =>
    have heq : text = '-' :: (whole ++ pointed fraction) := h.eq
    rw [heq, splitDecimal_minus, h.plain.split]

theorem decimalScale : decimalScale text = (stripTrailingZeros fraction).length := by
  rw [Binarius.decimalScale, h.normalize.split_fraction]

/-- **The sizer reads the units**, inside the domain. -/
theorem parse (hw : whole.length ≤ amountIntegerDigits) (hf : fraction.length ≤ amountScale) :
    parseAmount text = some (Binarius.units text) := by
  have hmatch := matchDecimal_pointed h.wholeSome h.wholeDigits hw h.fractionDigits hf
  rw [h.units]
  unfold parseAmount
  simp only
  rw [h.unsigned, hmatch]
  simp only [h.signed_iff]
  rfl

end Spelled

/-- The units of a text within the domain are what the sizer reads. -/
theorem parseAmount_units {text : DecimalString} (h : NumericText text) :
    parseAmount text = some (units text) := by
  obtain ⟨sign, whole, fraction, heq, hsign, hw, hwd, hlen, hfd, hflen⟩ := h
  rcases hsign with rfl | rfl
  · have hs : Spelled text false whole fraction := ⟨heq, hw, hwd, hfd⟩
    exact hs.parse hlen hflen
  · have hs : Spelled text true whole fraction := ⟨heq, hw, hwd, hfd⟩
    exact hs.parse hlen hflen

theorem NumericText.isDecimal {text : DecimalString} (h : NumericText text) : isDecimalString text = true := by
  obtain ⟨sign, whole, fraction, heq, hsign, hw, hwd, -, hfd, -⟩ := h
  rcases hsign with rfl | rfl
  · exact (show Spelled text false whole fraction from ⟨heq, hw, hwd, hfd⟩).isDecimal
  · exact (show Spelled text true whole fraction from ⟨heq, hw, hwd, hfd⟩).isDecimal

/-- The last eight places of a fraction of at most eight digits. -/
theorem padEnd_value {fraction : List Char} (hlen : fraction.length ≤ amountScale) :
    (bigIntOf (padEnd amountScale fraction) : ℚ) = fractionValue fraction * 10 ^ amountScale := by
  have hpow : (10 : ℚ) ^ amountScale = 10 ^ (amountScale - fraction.length) * 10 ^ fraction.length := by
    rw [← pow_add]
    congr 1
    omega
  unfold fractionValue
  rw [hpow, padEnd, bigIntOf_eq, ofDigitChars_append_zeros, bigIntOf_eq]
  push_cast
  field_simp

/-- At most eight fraction digits, or only zeros. -/
def WithinUnits (text : DecimalString) : Prop :=
  (splitDecimal text).2.length ≤ numericFractionDigits ∨ decimalScale text = 0

instance (text : DecimalString) : Decidable (WithinUnits text) := inferInstanceAs (Decidable (_ ∨ _))

theorem stripTrailingZeros_eq_nil_iff {fraction : List Char} (h : ∀ c ∈ fraction, c.isDigit = true) :
    stripTrailingZeros fraction = [] ↔ bigIntOf fraction = 0 := by
  have hnil : fractionValue fraction = fractionValue [] ↔ stripTrailingZeros fraction = stripTrailingZeros [] :=
    fractionValue_eq_iff h fun c hc => by cases hc
  have hzero : fractionValue [] = 0 := by norm_num [fractionValue, bigIntOf]
  have hstrip : stripTrailingZeros [] = [] := rfl
  rw [hzero, hstrip] at hnil
  rw [← hnil]
  unfold fractionValue
  have hpow : (10 : ℚ) ^ fraction.length ≠ 0 := by positivity
  rw [div_eq_zero_iff, or_iff_left hpow, Int.cast_eq_zero]

/-- The last places `units` reads are the fraction's number exactly for few digits, or zeros. -/
theorem padEnd_value_iff {fraction : List Char} (h : ∀ c ∈ fraction, c.isDigit = true) :
    (bigIntOf (padEnd amountScale fraction) : ℚ) = fractionValue fraction * 10 ^ amountScale ↔
      fraction.length ≤ amountScale ∨ stripTrailingZeros fraction = [] := by
  by_cases hlen : fraction.length ≤ amountScale
  · simp only [hlen, true_or, iff_true]
    exact padEnd_value hlen
  · rw [or_iff_right hlen, stripTrailingZeros_eq_nil_iff h]
    have hpad : padEnd amountScale fraction = fraction := by
      rw [padEnd, Nat.sub_eq_zero_of_le (by omega), List.replicate_zero, List.append_nil]
    rw [hpad]
    unfold fractionValue
    constructor
    · intro heq
      by_contra hne
      have hvalue : (bigIntOf fraction : ℚ) ≠ 0 := by exact_mod_cast hne
      have hpow : (10 : ℚ) ^ fraction.length = 10 ^ amountScale := by
        field_simp at heq
        exact heq
      have hinj := pow_right_injective₀ (by norm_num : (0 : ℚ) < 10) (by norm_num) hpow
      omega
    · intro hzero
      simp [hzero]

/-- **Units read the number of a text with at most eight fraction digits, and of no other but zeros.** -/
theorem units_eq_iff {text : DecimalString} (h : isDecimalString text = true) :
    (units text : ℚ) = decimalValue text * 10 ^ amountScale ↔ WithinUnits text := by
  obtain ⟨negative, whole, fraction, hs⟩ := isDecimalString_spelled h
  have hwithin : WithinUnits text ↔ fraction.length ≤ amountScale ∨ stripTrailingZeros fraction = [] := by
    unfold WithinUnits
    rw [hs.split_fraction, hs.decimalScale, List.length_eq_zero_iff]
    rfl
  have hamount : ((amountOf whole fraction : ℤ) : ℚ) = magnitude whole fraction * 10 ^ amountScale ↔
      WithinUnits text := by
    rw [hwithin, ← padEnd_value_iff hs.fractionDigits, magnitude_eq, amountOf, amountUnit]
    push_cast
    constructor
    · intro heq
      linarith
    · intro heq
      linarith
  rw [← hamount, hs.units, hs.value]
  cases negative with
  | false => exact Iff.rfl
  | true =>
    simp only [if_true]
    push_cast
    rw [neg_mul, neg_inj]

/-! ## Printing -/

theorem wholeText_natAbs (value : ℤ) : wholeText value = wholeText (value.natAbs : ℤ) := by
  unfold wholeText
  rw [Int.natAbs_natCast]

theorem fractionText_natAbs (value : ℤ) : fractionText value = fractionText (value.natAbs : ℤ) := by
  unfold fractionText
  rw [Int.natAbs_natCast]

/-- The parts of a printed value make up its absolute value. -/
theorem amountOf_texts (value : ℤ) :
    amountOf (wholeText value) (fractionText value) = (value.natAbs : ℤ) := by
  have hlen := fractionText_length value
  have hpad : padEnd amountScale (fractionText value) = fractionText value := by
    rw [padEnd, hlen, Nat.sub_self, List.replicate_zero, List.append_nil]
  have hsum := whole_add_fraction (Int.natCast_nonneg value.natAbs)
  rw [Int.natAbs_natCast, ← wholeText_natAbs] at hsum
  rw [amountOf, hpad, bigIntOf_eq (fractionText value), value_fractionText]
  exact hsum

theorem formatAmount_spelled (value : ℤ) :
    ∃ text, formatAmount value = .ok text ∧
      Spelled text (decide (value < 0)) (wholeText value) (stripTrailingZeros (fractionText value)) := by
  have hs : Spelled ((if value < 0 then ['-'] else []) ++ wholeText value ++
      (if stripTrailingZeros (fractionText value) = [] then [] else
        '.' :: stripTrailingZeros (fractionText value)))
      (decide (value < 0)) (wholeText value) (stripTrailingZeros (fractionText value)) := by
    refine ⟨?_, wholeText_ne_nil value, fun c hc => isDigit_wholeText hc, fun c hc =>
      isDigit_fractionText (mem_stripTrailingZeros hc)⟩
    rw [List.append_assoc, pointed]
    simp only [decide_eq_true_eq]
  exact ⟨_, parseDecimalString_ok hs.isDecimal, hs⟩

/-- **A printed amount reads back**, everywhere in the domain. -/
theorem parseAmount_formatAmount {value : ℤ} (h : value.natAbs < 10 ^ (amountIntegerDigits + amountScale)) :
    ∃ text, formatAmount value = .ok text ∧ parseAmount text = some value := by
  obtain ⟨text, hprint, hs⟩ := formatAmount_spelled value
  refine ⟨text, hprint, ?_⟩
  have hfraction : (fractionText value).length ≤ amountScale := le_of_eq (fractionText_length value)
  have hwhole : (wholeText value).length ≤ amountIntegerDigits := by
    rw [wholeText_natAbs]
    exact wholeText_length (Int.natCast_nonneg _) (by exact_mod_cast h)
  have hamount : amountOf (wholeText value) (stripTrailingZeros (fractionText value)) = value.natAbs := by
    rw [← amountOf_texts value, amountOf, amountOf, bigIntOf_padEnd_strip hfraction]
  rw [hs.parse hwhole ((stripTrailingZeros_length_le _).trans hfraction), hs.units, hamount]
  simp only [decide_eq_true_eq]
  congr 1
  split_ifs with hneg
  · omega
  · omega

/-- A stake is printed exactly when it is a non-negative multiple of an accepted scale's step. -/
theorem formatStake_inv {value scale : ℤ} {text : DecimalString} (h : formatStake value scale = .ok text) :
    0 ≤ value ∧ ScaleOk scale ∧ gridUnit scale ∣ value ∧
      text = if scale = 0 then wholeText value
        else wholeText value ++ '.' :: (fractionText value).take scale.toNat := by
  unfold formatStake at h
  by_cases hbad : scale < 0 ∨ (amountScale : ℤ) < scale
  · rw [gridStep, assertScale, if_pos hbad] at h
    cases h
  · have hscale : ScaleOk scale := by
      unfold ScaleOk
      omega
    rw [gridStep_ok hscale] at h
    simp only [bind, Except.bind, throw, throwThe, MonadExceptOf.throw] at h
    split_ifs at h with hstep hzero
    all_goals
      rw [not_or, not_lt, not_not] at hstep
      unfold parseDecimalString at h
      split_ifs at h
      refine ⟨hstep.1, hscale, Int.dvd_of_emod_eq_zero hstep.2, (Except.ok.inj h).symm.trans ?_⟩
    · exact (if_pos hzero).symm
    · exact (if_neg hzero).symm

/-- **A printed stake has exactly the scale's digits, and is the stake.** -/
theorem formatStake_spelled {value scale : ℤ} {text : DecimalString} (h : formatStake value scale = .ok text) :
    ((splitDecimal text).2.length : ℤ) = scale ∧ decimalValue text * 10 ^ amountScale = value := by
  obtain ⟨hv, ⟨h₀, h₈⟩, hgrid, htext⟩ := formatStake_inv h
  have hlen : ((fractionText value).take scale.toNat).length = scale.toNat := by
    rw [List.length_take, fractionText_length]
    omega
  have hs : Spelled text false (wholeText value) ((fractionText value).take scale.toNat) := by
    refine ⟨?_, wholeText_ne_nil value, fun c hc => isDigit_wholeText hc, fun c hc =>
      isDigit_fractionText (List.mem_of_mem_take hc)⟩
    rw [htext]
    by_cases hzero : scale = 0
    · subst hzero
      simp [pointed]
    · have hne : (fractionText value).take scale.toNat ≠ [] := by
        intro hnil
        rw [hnil, List.length_nil] at hlen
        omega
      rw [if_neg hzero, pointed, if_neg hne]
      rfl
  have hnat : 10 ^ (amountScale - scale.toNat) ∣ value.natAbs := by
    rw [← Int.natCast_dvd_natCast, Int.natAbs_of_nonneg hv]
    push_cast
    exact hgrid
  refine ⟨by rw [hs.split_fraction, hlen]; omega, ?_⟩
  have hwithin : WithinUnits text := by
    refine Or.inl ?_
    rw [hs.split_fraction, hlen]
    have hscale : numericFractionDigits = amountScale := rfl
    omega
  rw [← (units_eq_iff hs.isDecimal).mpr hwithin, hs.units, if_neg (by decide), amountOf,
    value_cut (by omega) hnat, whole_add_fraction hv]

theorem stripLeadingZeros_wholeText (value : ℤ) : stripLeadingZeros (wholeText value) = wholeText value := by
  have hd : ∀ c ∈ wholeText value, c.isDigit = true := fun c hc => isDigit_wholeText hc
  obtain ⟨hne, hmem, hvalue⟩ := stripLeadingZeros_spec hd
  refine ofDigitChars_canonical (fun c hc => hd c (hmem c hc)) hd (hne (wholeText_ne_nil value))
    (wholeText_ne_nil value) (stripLeadingZeros_noLeadingZero hd) (noLeadingZero_toDigits _) ?_
  rw [bigIntOf_eq, bigIntOf_eq] at hvalue
  exact_mod_cast hvalue

/-- A sign stands at the start of a decimal string only. -/
theorem Spelled.minus {text whole fraction : List Char} {negative : Bool}
    (h : Spelled text negative whole fraction) : '-' ∉ text.drop 1 := by
  have hdigits : '-' ∉ whole ++ pointed fraction := by
    intro hmem
    have hnot : ¬ '-'.isDigit = true := by decide
    rcases List.mem_append.mp hmem with hw | hf
    · exact hnot (h.wholeDigits _ hw)
    · unfold pointed at hf
      split_ifs at hf with hnil
      · cases hf
      · rcases List.mem_cons.mp hf with hpoint | hf
        · exact absurd hpoint (by decide)
        · exact hnot (h.fractionDigits _ hf)
  rw [h.eq]
  cases negative with
  | false => exact fun hmem => hdigits (List.mem_of_mem_drop hmem)
  | true => exact hdigits

/-- The whole of a number of units is printed with its sign. -/
theorem bigIntString_tdiv (value : ℤ) :
    bigIntString (value.tdiv unitScale) =
      (if value ≤ -unitScale then ['-'] else []) ++ wholeText value := by
  have hunit : unitScale = 100000000 := rfl
  have hnat : (value.tdiv unitScale).natAbs = value.natAbs / 10 ^ amountScale := by
    rw [Int.natAbs_tdiv]
    rfl
  have hsign : value.tdiv unitScale < 0 ↔ value ≤ -unitScale := by
    rw [hunit, Int.tdiv_eq_ediv]
    have hone : (100000000 : ℤ).sign = 1 := rfl
    rw [hone]
    split_ifs <;> omega
  unfold bigIntString
  rw [hnat, wholeText]
  split_ifs with h₁ h₂ h₂
  · rfl
  · exact absurd (hsign.mp h₁) h₂
  · exact absurd (hsign.mpr h₂) h₁
  · rfl

theorem splitDecimal_point {whole fraction : List Char} (hw : '.' ∉ whole) (hf : '.' ∉ fraction) :
    splitDecimal (whole ++ '.' :: fraction) = (whole, fraction) := by
  have hne : ∀ {l : List Char}, '.' ∉ l → ∀ c ∈ l, decide (c ≠ '.') = true := by
    intro l hl c hc
    rw [decide_eq_true_eq]
    rintro rfl
    exact hl hc
  have hself : fraction.takeWhile (fun c => decide (c ≠ '.')) = fraction :=
    List.takeWhile_eq_self_iff.mpr (hne hf)
  unfold splitDecimal
  rw [List.takeWhile_append_of_pos (hne hw), List.dropWhile_append_of_pos (hne hw)]
  simpa using hself

theorem bigIntString_noPoint (value : ℤ) : '.' ∉ bigIntString value := by
  have hdigits : '.' ∉ bigIntText value.natAbs := fun hmem => absurd (isDigit_bigIntText hmem) (by decide)
  unfold bigIntString
  split_ifs with hneg
  · intro hmem
    rcases List.mem_cons.mp hmem with hsign | hmem
    · exact absurd hsign (by decide)
    · exact hdigits hmem
  · exact hdigits

/-- A fraction with a sign in it is in no decimal string. -/
theorem normalizeDecimal_signed_fraction {whole fraction : List Char} (hw : '.' ∉ whole) (hf : '.' ∉ fraction)
    (hminus : '-' ∈ fraction) : isDecimalString (normalizeDecimal (whole ++ '.' :: fraction)) ≠ true := by
  obtain ⟨n, hn⟩ := stripTrailingZeros_zeros fraction
  have hkept : '-' ∈ stripTrailingZeros fraction := by
    rw [hn] at hminus
    rcases List.mem_append.mp hminus with hmem | hzero
    · exact hmem
    · exact absurd (List.eq_of_mem_replicate hzero) (by decide)
  have hne : stripTrailingZeros fraction ≠ [] := List.ne_nil_of_mem hkept
  intro hdecimal
  obtain ⟨negative, whole', fraction', hs⟩ := isDecimalString_spelled hdecimal
  refine hs.minus ?_
  unfold normalizeDecimal
  rw [splitDecimal_point hw hf]
  simp only [hne, if_false]
  cases stripLeadingZeros whole with
  | nil => exact hkept
  | cons c cs => exact List.mem_append_right _ (List.mem_cons_of_mem _ hkept)

/-- **The two packages print a value alike exactly when it is not negative or is whole**: a negative
remainder keeps its sign behind the point. -/
theorem fromUnits_eq_iff (value : ℤ) :
    fromUnits value = formatAmount value ↔ 0 ≤ value ∨ unitScale ∣ value := by
  obtain ⟨text, hprint, hs⟩ := formatAmount_spelled value
  rw [hprint]
  have hunit : unitScale = 100000000 := rfl
  have hmod : (value.tmod unitScale).natAbs = value.natAbs % 10 ^ amountScale := by
    rw [Int.natAbs_tmod]
    rfl
  have hsign : value.tmod unitScale < 0 ↔ ¬ (0 ≤ value ∨ unitScale ∣ value) := by
    rw [hunit, Int.tmod_eq_emod]
    split_ifs with hwhole
    · simp only [hwhole, not_true, iff_false]
      omega
    · simp only [hwhole, not_false_eq_true, iff_true]
      omega
  unfold fromUnits
  simp only
  by_cases hneg : value.tmod unitScale < 0
  · simp only [hsign.mp hneg, iff_false]
    intro heq
    have hfraction : padStart numericFractionDigits (bigIntString (value.tmod unitScale)) =
        List.replicate (numericFractionDigits - (bigIntString (value.tmod unitScale)).length) '0' ++
          bigIntString (value.tmod unitScale) := rfl
    have hminus : '-' ∈ padStart numericFractionDigits (bigIntString (value.tmod unitScale)) := by
      rw [hfraction, bigIntString, if_pos hneg]
      simp
    have hpoint : '.' ∉ padStart numericFractionDigits (bigIntString (value.tmod unitScale)) := by
      intro hmem
      rw [hfraction] at hmem
      rcases List.mem_append.mp hmem with hz | hd
      · exact absurd (List.eq_of_mem_replicate hz) (by decide)
      · exact bigIntString_noPoint _ hd
    unfold parseDecimalString at heq
    rw [if_neg (normalizeDecimal_signed_fraction (bigIntString_noPoint _) hpoint hminus)] at heq
    cases heq
  · have hwhole : 0 ≤ value ∨ unitScale ∣ value := not_not.mp (fun h => hneg (hsign.mpr h))
    simp only [hwhole, iff_true]
    have hplace : padStart numericFractionDigits (bigIntString (value.tmod unitScale)) = fractionText value := by
      rw [bigIntString, if_neg hneg, hmod]
      rfl
    have hminus : (if value ≤ -unitScale then ['-'] else []) = if decide (value < 0) then ['-'] else [] := by
      rw [hunit] at hwhole ⊢
      by_cases hlt : value < 0
      · rw [if_pos (by omega), if_pos (decide_eq_true hlt)]
      · rw [if_neg (by omega), if_neg (by simpa using hlt)]
    have hlen := fractionText_length value
    have hne : fractionText value ≠ [] := by
      intro hnil
      rw [hnil] at hlen
      exact absurd hlen (by decide)
    have hparts : Spelled (bigIntString (value.tdiv unitScale) ++ '.' :: fractionText value)
        (decide (value < 0)) (wholeText value) (fractionText value) := by
      refine ⟨?_, wholeText_ne_nil value, fun c hc => isDigit_wholeText hc, fun c hc => isDigit_fractionText hc⟩
      rw [bigIntString_tdiv, hminus, pointed, if_neg hne, List.append_assoc]
    have hnormal := hparts.normalize
    rw [stripLeadingZeros_wholeText, ite_self] at hnormal
    rw [hplace, (hnormal.inj hs).mpr ⟨rfl, rfl, rfl⟩]
    exact parseDecimalString_ok hs.isDecimal

/-! ## The check of a stake -/

/-- What the check is for: on the account's grid, not below the minimum, not above the balance. -/
def StakeAllowed (amount : DecimalString) (limits : StakeLimits) : Prop :=
  (∃ n : ℤ, decimalValue amount * 10 ^ stakeScale limits.minTradeAmount = n) ∧
    decimalValue limits.minTradeAmount ≤ decimalValue amount ∧
    decimalValue amount ≤ decimalValue limits.available

/-- A fraction on a grid needs no more digits than the grid has. -/
theorem strip_length_le_iff {fraction : List Char} (h : ∀ c ∈ fraction, c.isDigit = true) {scale : ℕ}
    (hscale : 0 < scale) :
    (stripTrailingZeros fraction).length ≤ scale ↔ ∃ n : ℤ, fractionValue fraction * 10 ^ scale = n := by
  constructor
  · intro hle
    refine ⟨bigIntOf (stripTrailingZeros fraction) * 10 ^ (scale - (stripTrailingZeros fraction).length), ?_⟩
    have hpow : (10 : ℚ) ^ scale = 10 ^ (scale - (stripTrailingZeros fraction).length) *
        10 ^ (stripTrailingZeros fraction).length := by
      rw [← pow_add]
      congr 1
      omega
    rw [← fractionValue_strip, fractionValue, hpow]
    push_cast
    field_simp
  · rintro ⟨n, hn⟩
    -- the number printed with the grid's digits is the same fraction
    have h₀ := fractionValue_nonneg fraction
    have h₁ := fractionValue_lt_one h
    have hpow : (0 : ℚ) < 10 ^ scale := by positivity
    have hnonneg : 0 ≤ n := by
      have hle : (0 : ℚ) ≤ n := by
        rw [← hn]
        positivity
      exact_mod_cast hle
    have hlt : n.natAbs < 10 ^ scale := by
      have hlt : (n : ℚ) < 10 ^ scale := by
        rw [← hn]
        exact (mul_lt_iff_lt_one_left hpow).mpr h₁
      have hint : n < 10 ^ scale := by exact_mod_cast hlt
      zify
      rwa [abs_of_nonneg hnonneg]
    have hlen : (padStart scale (bigIntText n.natAbs)).length = scale := by
      have hle : (bigIntText n.natAbs).length ≤ scale := toDigits_length_le hscale hlt
      rw [padStart, List.length_append, List.length_replicate]
      omega
    have hdigits : ∀ c ∈ padStart scale (bigIntText n.natAbs), c.isDigit = true := by
      intro c hc
      rcases List.mem_append.mp hc with hz | hd
      · rw [List.eq_of_mem_replicate hz]
        rfl
      · exact isDigit_bigIntText hd
    have hvalue : fractionValue (padStart scale (bigIntText n.natAbs)) = fractionValue fraction := by
      have habs : ((n.natAbs : ℤ) : ℚ) = n := by rw [Int.natAbs_of_nonneg hnonneg]
      rw [fractionValue, hlen, bigIntOf_eq, padStart, ofDigitChars_zeros_append, bigIntText,
        Nat.ofDigitChars_ten_toDigits, habs, ← hn]
      field_simp
    have hle := stripTrailingZeros_length_le (padStart scale (bigIntText n.natAbs))
    rw [hlen, (fractionValue_eq_iff hdigits h).mp hvalue] at hle
    exact hle

/-- **The precision test is the test of the grid.** -/
theorem decimalScale_le_iff {text : DecimalString} (h : isDecimalString text = true) {scale : ℕ}
    (hscale : 0 < scale) :
    decimalScale text ≤ scale ↔ ∃ n : ℤ, decimalValue text * 10 ^ scale = n := by
  obtain ⟨negative, whole, fraction, hs⟩ := isDecimalString_spelled h
  rw [hs.decimalScale, strip_length_le_iff hs.fractionDigits hscale, hs.value]
  have hshift : (∃ n : ℤ, fractionValue fraction * 10 ^ scale = n) ↔
      ∃ n : ℤ, magnitude whole fraction * 10 ^ scale = n := by
    rw [magnitude_eq]
    constructor
    · rintro ⟨n, hn⟩
      refine ⟨bigIntOf whole * 10 ^ scale + n, ?_⟩
      rw [add_mul, hn]
      push_cast
      rfl
    · rintro ⟨n, hn⟩
      refine ⟨n - bigIntOf whole * 10 ^ scale, ?_⟩
      push_cast
      rw [← hn]
      ring
  rw [hshift]
  cases negative with
  | false => exact Iff.rfl
  | true =>
    simp only [if_true, neg_mul]
    constructor
    · rintro ⟨n, hn⟩
      exact ⟨-n, by rw [hn]; push_cast; rfl⟩
    · rintro ⟨n, hn⟩
      exact ⟨-n, by push_cast; rw [← hn, neg_neg]⟩

theorem checkStake_eq_none {amount : DecimalString} {limits : StakeLimits} :
    checkStake amount limits = none ↔ decimalScale amount ≤ stakeScale limits.minTradeAmount ∧
      units limits.minTradeAmount ≤ units amount ∧ units amount ≤ units limits.available := by
  unfold checkStake
  split_ifs with hscale hmin havailable
  · simp only [false_iff]
    omega
  · simp only [false_iff]
    omega
  · simp only [false_iff]
    omega
  · simp only [true_iff]
    omega

theorem stakeScale_pos (minTradeAmount : DecimalString) : 0 < stakeScale minTradeAmount :=
  lt_of_lt_of_le (by decide : 0 < stakeMinScale) (le_max_left _ _)

/-- Texts whose units are their numbers compare as their numbers. -/
theorem units_le_iff {a b : DecimalString} (ha : isDecimalString a = true) (hb : isDecimalString b = true)
    (hwa : WithinUnits a) (hwb : WithinUnits b) : units a ≤ units b ↔ decimalValue a ≤ decimalValue b := by
  have hva := (units_eq_iff ha).mpr hwa
  have hvb := (units_eq_iff hb).mpr hwb
  have hpow : (0 : ℚ) < 10 ^ amountScale := by positivity
  rw [← mul_le_mul_iff_left₀ hpow, ← hva, ← hvb]
  exact_mod_cast Iff.rfl

/-- The limits of an account: decimal strings of a money column's fraction digits. -/
structure ColumnLimits (limits : StakeLimits) : Prop where
  minimum : isDecimalString limits.minTradeAmount = true
  available : isDecimalString limits.available = true
  minimumDigits : (splitDecimal limits.minTradeAmount).2.length ≤ numericFractionDigits
  availableDigits : (splitDecimal limits.available).2.length ≤ numericFractionDigits

/-- **The check is the check of the numbers** where the precision test refuses or every text is read by its
number. -/
theorem checkStake_allowed {amount : DecimalString} {limits : StakeLimits}
    (hamount : isDecimalString amount = true) (hmin : isDecimalString limits.minTradeAmount = true)
    (havailable : isDecimalString limits.available = true)
    (h : stakeScale limits.minTradeAmount < decimalScale amount ∨
      WithinUnits amount ∧ WithinUnits limits.minTradeAmount ∧ WithinUnits limits.available) :
    checkStake amount limits = none ↔ StakeAllowed amount limits := by
  unfold StakeAllowed
  rw [checkStake_eq_none, ← decimalScale_le_iff hamount (stakeScale_pos _)]
  rcases h with hprecision | ⟨hwa, hwm, hwv⟩
  · have hnot : ¬ decimalScale amount ≤ stakeScale limits.minTradeAmount := not_le.mpr hprecision
    simp only [hnot, false_and]
  · rw [units_le_iff hmin hamount hwm hwa, units_le_iff hamount havailable hwa hwv]

theorem decimalScale_le_digits {text : DecimalString} (h : isDecimalString text = true) :
    decimalScale text ≤ (splitDecimal text).2.length := by
  obtain ⟨negative, whole, fraction, hs⟩ := isDecimalString_spelled h
  rw [hs.decimalScale, hs.split_fraction]
  exact stripTrailingZeros_length_le fraction

/-- **Against the limits of every account the check of an amount is the check of its number exactly when**
it has at most eight fraction digits, or only zeros, or more than eight that count. -/
theorem checkStake_iff {amount : DecimalString} (hamount : isDecimalString amount = true) :
    (∀ limits, ColumnLimits limits → (checkStake amount limits = none ↔ StakeAllowed amount limits)) ↔
      WithinUnits amount ∨ numericFractionDigits < decimalScale amount := by
  constructor
  · intro hall
    by_contra hnot
    rw [not_or, not_lt] at hnot
    obtain ⟨hmisread, hscale⟩ := hnot
    -- its own normal form is the minimum and the balance that tell the two readings apart
    obtain ⟨negative, whole, fraction, hs⟩ := isDecimalString_spelled hamount
    have hnormal := hs.normalize
    have hdigits : (splitDecimal (normalizeDecimal amount)).2.length ≤ numericFractionDigits := hscale
    have hscales : decimalScale amount ≤ decimalScale (normalizeDecimal amount) := by
      rw [hs.decimalScale, hnormal.decimalScale, stripTrailingZeros_idem]
    have hvalue := decimalValue_normalize hamount
    have hlimits : ColumnLimits ⟨normalizeDecimal amount, normalizeDecimal amount⟩ :=
      ⟨hnormal.isDecimal, hnormal.isDecimal, hdigits, hdigits⟩
    have hallowed : StakeAllowed amount ⟨normalizeDecimal amount, normalizeDecimal amount⟩ := by
      refine ⟨?_, le_of_eq hvalue, le_of_eq hvalue.symm⟩
      rw [← decimalScale_le_iff hamount (stakeScale_pos _)]
      exact hscales.trans (le_max_right _ _)
    obtain ⟨-, hle, hge⟩ := checkStake_eq_none.mp ((hall _ hlimits).mpr hallowed)
    refine hmisread ((units_eq_iff hamount).mp ?_)
    rw [le_antisymm hge hle, (units_eq_iff hnormal.isDecimal).mpr (Or.inl hdigits), hvalue]
  · intro hcase limits hlimits
    refine checkStake_allowed hamount hlimits.minimum hlimits.available ?_
    rcases hcase with hwithin | hprecise
    · exact Or.inr ⟨hwithin, Or.inl hlimits.minimumDigits, Or.inl hlimits.availableDigits⟩
    · left
      have hmin := (decimalScale_le_digits hlimits.minimum).trans hlimits.minimumDigits
      have hcents : stakeMinScale ≤ numericFractionDigits := by decide
      exact lt_of_le_of_lt (max_le hcents hmin) hprecise

/-! ## The packages and the check -/

/-- A text is not negative or is whole as its units are. -/
theorem units_whole_iff {text : DecimalString} (h : NumericText text) :
    (0 ≤ units text ∨ unitScale ∣ units text) ↔ 0 ≤ decimalValue text ∨ ∃ n : ℤ, decimalValue text = n := by
  have hwithin : WithinUnits text := by
    obtain ⟨sign, whole, fraction, heq, hsign, hw, hwd, hlen, hfd, hflen⟩ := h
    left
    rcases hsign with rfl | rfl
    · rw [(show Spelled text false whole fraction from ⟨heq, hw, hwd, hfd⟩).split_fraction]
      exact hflen
    · rw [(show Spelled text true whole fraction from ⟨heq, hw, hwd, hfd⟩).split_fraction]
      exact hflen
  have hvalue := (units_eq_iff h.isDecimal).mpr hwithin
  have hpow : (0 : ℚ) < 10 ^ amountScale := by positivity
  have hsign : 0 ≤ units text ↔ 0 ≤ decimalValue text := by
    rw [← mul_nonneg_iff_of_pos_right hpow, ← hvalue]
    exact_mod_cast Iff.rfl
  have hwhole : unitScale ∣ units text ↔ ∃ n : ℤ, decimalValue text = n := by
    have hunit : (unitScale : ℚ) = 10 ^ amountScale := by norm_num [unitScale, numericFractionDigits, amountScale]
    constructor
    · rintro ⟨n, hn⟩
      refine ⟨n, mul_right_cancel₀ hpow.ne' ?_⟩
      rw [← hvalue, hn, Int.cast_mul, hunit, mul_comm]
    · rintro ⟨n, hn⟩
      refine ⟨n, ?_⟩
      rw [hn, ← hunit] at hvalue
      rw [mul_comm]
      exact_mod_cast hvalue
  rw [hsign, hwhole]

/-- **The money texts**: a printed amount reads back; a printed stake has the scale's digits and is the
stake; a numeric(20,8) text is read alike, and its units are printed alike exactly when it is not negative or
is whole; an amount is checked by its number, against the limits of every account, exactly when it has at
most eight fraction digits, only zeros, or more than eight that count (against those of one account:
`checkStake_allowed`). -/
theorem money_texts (value scale : ℤ) (text amount : List Char) :
    (value.natAbs < 10 ^ (amountIntegerDigits + amountScale) →
        ∃ text, formatAmount value = .ok text ∧ parseAmount text = some value) ∧
      (0 ≤ value → ScaleOk scale → gridUnit scale ∣ value →
        ∃ text, formatStake value scale = .ok text ∧ ((splitDecimal text).2.length : ℤ) = scale ∧
          decimalValue text * 10 ^ amountScale = value) ∧
      (NumericText text → parseAmount text = some (units text) ∧
        (fromUnits (units text) = formatAmount (units text) ↔
          0 ≤ decimalValue text ∨ ∃ n : ℤ, decimalValue text = n)) ∧
      (isDecimalString amount = true →
        ((∀ limits, ColumnLimits limits → (checkStake amount limits = none ↔ StakeAllowed amount limits)) ↔
          WithinUnits amount ∨ numericFractionDigits < decimalScale amount)) := by
  refine ⟨fun h => parseAmount_formatAmount h, fun hv hs hgrid => ?_,
    fun h => ⟨parseAmount_units h, ?_⟩, fun h => checkStake_iff h⟩
  · obtain ⟨text, hprint, -⟩ := formatStake_ok hv hs hgrid
    exact ⟨text, hprint, formatStake_spelled hprint⟩
  · rw [fromUnits_eq_iff, units_whole_iff h]

/-- A negative amount reads back, and an amount of cents is checked by its number against a balance of `2`. -/
theorem money_texts_negative :
    (∃ text, formatAmount (-150000000) = .ok text ∧ parseAmount text = some (-150000000)) ∧
      (checkStake "1.50".toList ⟨"1.00000000".toList, "2.00000000".toList⟩ = none ↔
        StakeAllowed "1.50".toList ⟨"1.00000000".toList, "2.00000000".toList⟩) :=
  ⟨(money_texts (-150000000) 0 [] []).1 (by decide),
    ((money_texts 0 0 [] "1.50".toList).2.2.2 (by decide)).mpr (.inl (.inl (by decide))) _
      ⟨by decide, by decide, by decide, by decide⟩⟩

/-- **A ninth digit is read as eight**: `1.500000000` is refused against a balance of `2` although it is
allowed, and a negative amount that is not whole is printed by one package only. -/
theorem money_texts_misread :
    (isDecimalString "1.500000000".toList = true ∧
        checkStake "1.500000000".toList ⟨"1.00000000".toList, "2.00000000".toList⟩ = some .aboveAvailable ∧
        StakeAllowed "1.500000000".toList ⟨"1.00000000".toList, "2.00000000".toList⟩) ∧
      formatAmount (units "-1.5".toList) = .ok "-1.5".toList ∧
        fromUnits (units "-1.5".toList) ≠ formatAmount (units "-1.5".toList) := by
  refine ⟨⟨by decide +kernel, by decide +kernel, ⟨150, by decide +kernel⟩, by decide +kernel⟩, ?_⟩
  decide +kernel

end Binarius
