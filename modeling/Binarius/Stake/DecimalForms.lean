import Mathlib.Tactic
import Mathlib.Data.List.TakeWhile
import Binarius.Stake.PlainAmounts

/-!
# Stake.DecimalForms — the number a decimal string denotes, and its normal form (packages/shared: money.ts)

Amounts are compared as the strings `normalizeDecimal` gives, in reconciliation, settlement and postbacks.

* `decimalValue`: the rational number of a decimal string.
* `decimalValue_normalize`: the normal form denotes the same number.
* `normalizeDecimal_canonical_iff`: **two strings' normal forms are equal exactly when their numbers are,
  unless one number is spelled with a sign and without, or negative with unequally many integer digits**.
-/

namespace Binarius

open Lib

/-! ## The number of a string -/

/-- Integer digits and fraction digits as a number. -/
def magnitude (whole fraction : List Char) : ℚ := bigIntOf whole + bigIntOf fraction / 10 ^ fraction.length

/-- The rational number a decimal string denotes. -/
def decimalValue (value : DecimalString) : ℚ :=
  let negative := value.head? = some '-'
  let parts := splitDecimal (if negative then value.drop 1 else value)
  if negative then -magnitude parts.1 parts.2 else magnitude parts.1 parts.2

/-- A decimal string by its sign, its integer digits and its fraction digits. -/
structure Spelled (text : DecimalString) (negative : Bool) (whole fraction : List Char) : Prop where
  eq : text = (if negative then ['-'] else []) ++ (whole ++ pointed fraction)
  wholeSome : whole ≠ []
  wholeDigits : ∀ c ∈ whole, c.isDigit = true
  fractionDigits : ∀ c ∈ fraction, c.isDigit = true

/-- **Every string of the schema has these parts.** -/
theorem isDecimalString_spelled {text : DecimalString} (h : isDecimalString text = true) :
    ∃ negative whole fraction, Spelled text negative whole fraction := by
  have hunsigned : ∀ unsigned : List Char, (!(unsigned.takeWhile Char.isDigit).isEmpty &&
      ((unsigned.dropWhile Char.isDigit).isEmpty || ((unsigned.dropWhile Char.isDigit).head? = some '.' &&
        !((unsigned.dropWhile Char.isDigit).drop 1).isEmpty &&
        ((unsigned.dropWhile Char.isDigit).drop 1).all Char.isDigit))) = true →
      ∃ whole fraction, unsigned = whole ++ pointed fraction ∧ whole ≠ [] ∧
        (∀ c ∈ whole, c.isDigit = true) ∧ ∀ c ∈ fraction, c.isDigit = true := by
    intro unsigned hparts
    have hcut : unsigned.takeWhile Char.isDigit ++ unsigned.dropWhile Char.isDigit = unsigned :=
      List.takeWhile_append_dropWhile
    have hdigits : ∀ c ∈ unsigned.takeWhile Char.isDigit, c.isDigit = true :=
      fun c hc => List.mem_takeWhile_imp hc
    obtain ⟨hwhole, hrest⟩ := Bool.and_eq_true_iff.mp hparts
    have hsome : unsigned.takeWhile Char.isDigit ≠ [] := by simpa using hwhole
    cases hdrop : unsigned.dropWhile Char.isDigit with
    | nil =>
      rw [hdrop] at hcut
      exact ⟨_, [], hcut.symm, hsome, hdigits, fun c hc => by cases hc⟩
    | cons point fraction =>
      rw [hdrop] at hrest hcut
      simp only [List.isEmpty_cons, Bool.false_or, List.head?_cons, List.drop_one, List.tail_cons,
        Bool.and_eq_true, decide_eq_true_eq, Option.some.injEq, Bool.not_eq_true'] at hrest
      obtain ⟨⟨rfl, hne⟩, hall⟩ := hrest
      refine ⟨_, fraction, ?_, hsome, hdigits, List.all_eq_true.mp hall⟩
      rw [pointed, if_neg (by simpa using hne)]
      exact hcut.symm
  unfold isDecimalString at h
  by_cases hsign : text.head? = some '-'
  · simp only [hsign, if_true] at h
    obtain ⟨whole, fraction, heq, hsome, hdigits, hfraction⟩ := hunsigned _ h
    refine ⟨true, whole, fraction, ?_, hsome, hdigits, hfraction⟩
    cases text with
    | nil => cases hsign
    | cons c text =>
      rw [Option.some.inj hsign, ← heq]
      rfl
  · simp only [hsign, if_false] at h
    obtain ⟨whole, fraction, heq, hsome, hdigits, hfraction⟩ := hunsigned _ h
    exact ⟨false, whole, fraction, heq, hsome, hdigits, hfraction⟩

theorem splitDecimal_minus (text : List Char) :
    splitDecimal ('-' :: text) = ('-' :: (splitDecimal text).1, (splitDecimal text).2) := by
  simp [splitDecimal]

namespace Spelled

variable {text whole fraction : List Char} {negative : Bool} (h : Spelled text negative whole fraction)
include h

theorem plain : Plain (whole ++ pointed fraction) whole fraction :=
  ⟨rfl, h.wholeSome, h.wholeDigits, h.fractionDigits⟩

theorem signed_iff : text.head? = some '-' ↔ negative = true := by
  rw [h.eq]
  cases negative with
  | false => simpa using h.plain.noSign
  | true => simp

theorem unsigned : (if text.head? = some '-' then text.drop 1 else text) = whole ++ pointed fraction := by
  cases hneg : negative with
  | false =>
    rw [if_neg (by rw [h.signed_iff, hneg]; decide), h.eq, hneg]
    rfl
  | true =>
    rw [if_pos (by rw [h.signed_iff, hneg]), h.eq, hneg]
    rfl

theorem value : decimalValue text = if negative then -magnitude whole fraction else magnitude whole fraction := by
  unfold decimalValue
  simp only
  rw [h.unsigned, h.plain.split]
  simp only [h.signed_iff]

theorem isDecimal : isDecimalString text = true := by
  rw [h.eq, ← List.append_assoc]
  refine isDecimalString_of_parts ?_ h.wholeSome h.wholeDigits ?_
  · cases negative with
    | false => exact Or.inl rfl
    | true => exact Or.inr rfl
  · unfold pointed
    split_ifs with hf
    · exact Or.inl rfl
    · exact Or.inr ⟨fraction, rfl, hf, h.fractionDigits⟩

/-- The normal form: behind a sign the integer digits stay as they are. -/
theorem normalize :
    Spelled (normalizeDecimal text) negative (if negative then whole else stripLeadingZeros whole)
      (stripTrailingZeros fraction) := by
  have hstrip := h.plain.normalize
  cases hneg : negative with
  | false =>
    have heq : text = whole ++ pointed fraction := by rw [h.eq, hneg]; rfl
    rw [heq]
    exact ⟨hstrip.eq, hstrip.wholeSome, hstrip.wholeDigits, hstrip.fractionDigits⟩
  | true =>
    refine ⟨?_, h.wholeSome, h.wholeDigits, hstrip.fractionDigits⟩
    have heq : text = '-' :: (whole ++ pointed fraction) := by rw [h.eq, hneg]; rfl
    have hkeep : stripLeadingZeros ('-' :: whole) = '-' :: whole := by simp [stripLeadingZeros]
    unfold normalizeDecimal pointed
    rw [heq, splitDecimal_minus, h.plain.split]
    simp only [hkeep]
    split_ifs with hnil
    · simp
    · simp

end Spelled

/-! ## Equal numbers -/

theorem stripTrailingZeros_append_zeros (fraction : List Char) (n : ℕ) :
    stripTrailingZeros (fraction ++ List.replicate n '0') = stripTrailingZeros fraction := by
  unfold stripTrailingZeros
  rw [List.reverse_append, List.reverse_replicate, List.dropWhile_append_of_pos]
  intro c hc
  simpa using List.eq_of_mem_replicate hc

theorem stripTrailingZeros_idem (fraction : List Char) :
    stripTrailingZeros (stripTrailingZeros fraction) = stripTrailingZeros fraction := by
  obtain ⟨n, hn⟩ := stripTrailingZeros_zeros fraction
  have hzeros := stripTrailingZeros_append_zeros (stripTrailingZeros fraction) n
  rw [← hn] at hzeros
  exact hzeros.symm

/-- The fraction as a number below one. -/
def fractionValue (fraction : List Char) : ℚ := bigIntOf fraction / 10 ^ fraction.length

theorem fractionValue_nonneg (fraction : List Char) : 0 ≤ fractionValue fraction := by
  have hvalue : (0 : ℚ) ≤ bigIntOf fraction := by exact_mod_cast bigIntOf_nonneg fraction
  unfold fractionValue
  positivity

theorem fractionValue_lt_one {fraction : List Char} (h : ∀ c ∈ fraction, c.isDigit = true) :
    fractionValue fraction < 1 := by
  have hlt : (bigIntOf fraction : ℚ) < 10 ^ fraction.length := by
    exact_mod_cast bigIntOf_lt h (le_refl _)
  unfold fractionValue
  rw [div_lt_one (by positivity)]
  exact hlt

theorem fractionValue_append_zeros (fraction : List Char) (n : ℕ) :
    fractionValue (fraction ++ List.replicate n '0') = fractionValue fraction := by
  unfold fractionValue
  rw [bigIntOf_eq, ofDigitChars_append_zeros, List.length_append, List.length_replicate, pow_add, bigIntOf_eq]
  push_cast
  field_simp

theorem fractionValue_strip (fraction : List Char) :
    fractionValue (stripTrailingZeros fraction) = fractionValue fraction := by
  obtain ⟨n, hn⟩ := stripTrailingZeros_zeros fraction
  conv_rhs => rw [hn]
  rw [fractionValue_append_zeros]

/-- **Fractions of one number differ in trailing zeros only.** -/
theorem fractionValue_eq_iff {fraction fraction' : List Char} (h : ∀ c ∈ fraction, c.isDigit = true)
    (h' : ∀ c ∈ fraction', c.isDigit = true) :
    fractionValue fraction = fractionValue fraction' ↔
      stripTrailingZeros fraction = stripTrailingZeros fraction' := by
  constructor
  · intro heq
    -- written with equally many digits they are one string
    have hlen : (fraction ++ List.replicate fraction'.length '0').length =
        (fraction' ++ List.replicate fraction.length '0').length := by
      simp only [List.length_append, List.length_replicate]
      omega
    have hzeros : ∀ {l : List Char} (n : ℕ), (∀ c ∈ l, c.isDigit = true) →
        ∀ c ∈ l ++ List.replicate n '0', c.isDigit = true := by
      intro l n hl c hc
      rcases List.mem_append.mp hc with hc | hc
      · exact hl c hc
      · rw [List.eq_of_mem_replicate hc]
        rfl
    have hsame : fraction ++ List.replicate fraction'.length '0' =
        fraction' ++ List.replicate fraction.length '0' := by
      refine ofDigitChars_inj (hzeros _ h) (hzeros _ h') hlen ?_
      unfold fractionValue at heq
      rw [div_eq_div_iff (by positivity) (by positivity), bigIntOf_eq, bigIntOf_eq] at heq
      rw [ofDigitChars_append_zeros, ofDigitChars_append_zeros, mul_comm, mul_comm (10 ^ fraction.length)]
      exact_mod_cast heq
    rw [← stripTrailingZeros_append_zeros fraction fraction'.length, hsame, stripTrailingZeros_append_zeros]
  · intro heq
    rw [← fractionValue_strip fraction, heq, fractionValue_strip]

theorem magnitude_eq (whole fraction : List Char) :
    magnitude whole fraction = bigIntOf whole + fractionValue fraction := rfl

theorem magnitude_nonneg (whole fraction : List Char) : 0 ≤ magnitude whole fraction := by
  have hwhole : (0 : ℚ) ≤ bigIntOf whole := by exact_mod_cast bigIntOf_nonneg whole
  have hfraction := fractionValue_nonneg fraction
  rw [magnitude_eq]
  linarith

/-- **Equal numbers have equal integer parts, and fractions that differ in trailing zeros only.** -/
theorem magnitude_eq_iff {whole whole' fraction fraction' : List Char}
    (h : ∀ c ∈ fraction, c.isDigit = true) (h' : ∀ c ∈ fraction', c.isDigit = true) :
    magnitude whole fraction = magnitude whole' fraction' ↔
      bigIntOf whole = bigIntOf whole' ∧ stripTrailingZeros fraction = stripTrailingZeros fraction' := by
  rw [← fractionValue_eq_iff h h', magnitude_eq, magnitude_eq]
  have h₀ := fractionValue_nonneg fraction
  have h₁ := fractionValue_lt_one h
  have h₀' := fractionValue_nonneg fraction'
  have h₁' := fractionValue_lt_one h'
  constructor
  · intro heq
    have hlt : (bigIntOf whole : ℚ) < bigIntOf whole' + 1 := by linarith
    have hlt' : (bigIntOf whole' : ℚ) < bigIntOf whole + 1 := by linarith
    have hle : bigIntOf whole < bigIntOf whole' + 1 := by exact_mod_cast hlt
    have hle' : bigIntOf whole' < bigIntOf whole + 1 := by exact_mod_cast hlt'
    have hwhole : bigIntOf whole = bigIntOf whole' := by omega
    refine ⟨hwhole, ?_⟩
    rw [hwhole] at heq
    linarith
  · rintro ⟨hwhole, hfraction⟩
    rw [hwhole, hfraction]

/-- No zero is left before another digit. -/
theorem stripLeadingZeros_noLeadingZero {whole : List Char} (h : ∀ c ∈ whole, c.isDigit = true) :
    NoLeadingZero (stripLeadingZeros whole) := by
  fun_induction stripLeadingZeros whole with
  | case1 c cs hc ih => exact ih (fun d hd => h d (List.mem_cons_of_mem _ hd))
  | case2 c cs hc => exact absurd (h c (by simp)) hc
  | case3 cs hcs =>
    intro hhead
    cases cs with
    | nil => cases hhead
    | cons d ds =>
      cases ds with
      | nil => rfl
      | cons e es =>
        rw [Option.some.inj hhead] at hcs
        exact absurd rfl (hcs e es)

/-- **Integer parts of one number are one string without their leading zeros.** -/
theorem stripLeadingZeros_eq_iff {whole whole' : List Char} (h : ∀ c ∈ whole, c.isDigit = true)
    (h' : ∀ c ∈ whole', c.isDigit = true) (hsome : whole ≠ []) (hsome' : whole' ≠ []) :
    stripLeadingZeros whole = stripLeadingZeros whole' ↔ bigIntOf whole = bigIntOf whole' := by
  obtain ⟨hne, hmem, hvalue⟩ := stripLeadingZeros_spec h
  obtain ⟨hne', hmem', hvalue'⟩ := stripLeadingZeros_spec h'
  constructor
  · intro heq
    rw [← hvalue, heq, hvalue']
  · intro heq
    refine ofDigitChars_canonical (fun c hc => h c (hmem c hc)) (fun c hc => h' c (hmem' c hc)) (hne hsome)
      (hne' hsome') (stripLeadingZeros_noLeadingZero h) (stripLeadingZeros_noLeadingZero h') ?_
    rw [← hvalue, ← hvalue', bigIntOf_eq, bigIntOf_eq] at heq
    exact_mod_cast heq

/-! ## The normal form -/

/-- **The normal form denotes the same number.** -/
theorem decimalValue_normalize {text : DecimalString} (h : isDecimalString text = true) :
    decimalValue (normalizeDecimal text) = decimalValue text := by
  obtain ⟨negative, whole, fraction, hparts⟩ := isDecimalString_spelled h
  rw [hparts.normalize.value, hparts.value, magnitude_eq, magnitude_eq, fractionValue_strip]
  cases negative with
  | false => rw [if_neg (by decide), if_neg (by decide), if_neg (by decide),
      (stripLeadingZeros_spec hparts.wholeDigits).2.2]
  | true => rfl

/-- Both numbers carry a sign or neither does, and behind a sign both have equally many integer digits. -/
def SpelledAlike (a b : DecimalString) : Prop :=
  (a.head? = some '-' ↔ b.head? = some '-') ∧
    (a.head? = some '-' → (splitDecimal a).1.length = (splitDecimal b).1.length)

instance (a b : DecimalString) : Decidable (SpelledAlike a b) :=
  inferInstanceAs (Decidable (_ ∧ _))

namespace Spelled

variable {text text' whole whole' fraction fraction' : List Char} {negative negative' : Bool}

theorem alike_iff (h : Spelled text negative whole fraction) (h' : Spelled text' negative' whole' fraction') :
    SpelledAlike text text' ↔ negative = negative' ∧ (negative = true → whole.length = whole'.length) := by
  have hlength : ∀ {text whole fraction : List Char}, Spelled text true whole fraction →
      (splitDecimal text).1.length = whole.length + 1 := by
    intro text whole fraction hs
    have heq : text = '-' :: (whole ++ pointed fraction) := hs.eq
    rw [heq, splitDecimal_minus, hs.plain.split, List.length_cons]
  unfold SpelledAlike
  rw [h.signed_iff, h'.signed_iff]
  cases negative with
  | false => cases negative' <;> simp
  | true =>
    cases negative' with
    | false => simp
    | true => simp [hlength h, hlength h']

/-- Texts of the same parts only are equal. -/
theorem inj (h : Spelled text negative whole fraction) (h' : Spelled text' negative' whole' fraction') :
    text = text' ↔ negative = negative' ∧ whole = whole' ∧ fraction = fraction' := by
  constructor
  · intro heq
    have hsign : negative = true ↔ negative' = true := by rw [← h.signed_iff, ← h'.signed_iff, heq]
    have hrest : whole ++ pointed fraction = whole' ++ pointed fraction' := by
      rw [← h.unsigned, ← h'.unsigned, heq]
    have hsplit : (whole, fraction) = (whole', fraction') := by
      rw [← h.plain.split, ← h'.plain.split, hrest]
    exact ⟨Bool.eq_iff_iff.mpr hsign, congrArg Prod.fst hsplit, congrArg Prod.snd hsplit⟩
  · rintro ⟨rfl, rfl, rfl⟩
    rw [h.eq, h'.eq]

end Spelled

/-- **The normal form is canonical but for signs**: of two strings of one number the forms are equal exactly
when the strings are spelled alike. -/
theorem normalizeDecimal_eq_iff {a b : DecimalString} (ha : isDecimalString a = true)
    (hb : isDecimalString b = true) (hvalue : decimalValue a = decimalValue b) :
    normalizeDecimal a = normalizeDecimal b ↔ SpelledAlike a b := by
  obtain ⟨negative, whole, fraction, h⟩ := isDecimalString_spelled ha
  obtain ⟨negative', whole', fraction', h'⟩ := isDecimalString_spelled hb
  rw [h.normalize.inj h'.normalize, h.alike_iff h']
  rw [h.value, h'.value] at hvalue
  constructor
  · rintro ⟨rfl, hwhole, -⟩
    refine ⟨rfl, fun hneg => ?_⟩
    rw [hneg] at hwhole
    exact congrArg List.length hwhole
  · rintro ⟨rfl, hlen⟩
    have hmagnitude : magnitude whole fraction = magnitude whole' fraction' := by
      cases negative with
      | false => exact hvalue
      | true => exact neg_injective hvalue
    obtain ⟨hwhole, hfraction⟩ := (magnitude_eq_iff h.fractionDigits h'.fractionDigits).mp hmagnitude
    refine ⟨rfl, ?_, hfraction⟩
    cases negative with
    | false => exact (stripLeadingZeros_eq_iff h.wholeDigits h'.wholeDigits h.wholeSome h'.wholeSome).mpr hwhole
    | true =>
      refine ofDigitChars_inj h.wholeDigits h'.wholeDigits (hlen rfl) ?_
      rw [bigIntOf_eq, bigIntOf_eq] at hwhole
      exact_mod_cast hwhole

/-- **Two normal forms are equal exactly when the numbers are**, unless one number is spelled with a sign and
without, or behind a sign with unequally many integer digits. -/
theorem normalizeDecimal_canonical_iff {a b : DecimalString} (ha : isDecimalString a = true)
    (hb : isDecimalString b = true) :
    (normalizeDecimal a = normalizeDecimal b ↔ decimalValue a = decimalValue b) ↔
      (decimalValue a = decimalValue b → SpelledAlike a b) := by
  have hsound : normalizeDecimal a = normalizeDecimal b → decimalValue a = decimalValue b := by
    intro heq
    rw [← decimalValue_normalize ha, heq, decimalValue_normalize hb]
  constructor
  · intro hiff hvalue
    exact (normalizeDecimal_eq_iff ha hb hvalue).mp (hiff.mpr hvalue)
  · intro hspelled
    exact ⟨hsound, fun hvalue => (normalizeDecimal_eq_iff ha hb hvalue).mpr (hspelled hvalue)⟩

/-- Unsigned strings with leading zeros, and with zeros behind the fraction. -/
theorem normalizeDecimal_canonical_iff_padded :
    (normalizeDecimal "007.50".toList = normalizeDecimal "7.5".toList ↔
        decimalValue "007.50".toList = decimalValue "7.5".toList) ↔
      (decimalValue "007.50".toList = decimalValue "7.5".toList →
        SpelledAlike "007.50".toList "7.5".toList) :=
  normalizeDecimal_canonical_iff (by decide +kernel) (by decide +kernel)

/-- **Behind a sign leading zeros stay**, and a signed zero is not zero. -/
theorem normalizeDecimal_not_canonical :
    (isDecimalString "-01".toList = true ∧ isDecimalString "-1".toList = true ∧
        decimalValue "-01".toList = decimalValue "-1".toList ∧
        normalizeDecimal "-01".toList ≠ normalizeDecimal "-1".toList) ∧
      isDecimalString "-0".toList = true ∧ isDecimalString "0".toList = true ∧
        decimalValue "-0".toList = decimalValue "0".toList ∧
        normalizeDecimal "-0".toList ≠ normalizeDecimal "0".toList := by
  decide +kernel

end Binarius
