import Mathlib.Tactic
import Binarius.Shared.Money
import Binarius.Lib.Digits

/-!
# Stake.Money — amounts of the stake sizer (packages/stake/src/money.ts)

Amounts are integers scaled by `10 ^ amountScale`; their texts have at most 12 integer and 8 fraction
digits.  A payout, a JavaScript number, is its `String()` text.

* `formatAmount_ok`, `ceilToScale_ok`, `floorToScale_ok`, `divCeil_ok`: what never throws.
* `parseAmount_lt`: an amount is inside the domain.
* `formatStake_ok`: **a stake on the grid is printed, and its text reads back as the stake.**
-/

namespace Binarius

open Lib

/-- A `RangeError`, or what the decimal schema throws. -/
structure StakeError where
  message : String
  deriving DecidableEq, Repr

def amountIntegerDigits : ℕ := 12
def amountScale : ℕ := 8
def payoutIntegerDigits : ℕ := 4
def payoutScale : ℕ := 4

def amountUnit : ℤ := 10 ^ amountScale

/-- `x * payout / 100 = x * scaled / percentDivisor`. -/
def percentDivisor : ℤ := 100 * 10 ^ payoutScale

/-- `^\d{1,whole}(?:\.(\d{1,scale}))?$`: the integer digits and the fraction digits. -/
def matchDecimal (integerDigits scale : ℕ) (text : List Char) : Option (List Char × List Char) :=
  let whole := text.takeWhile Char.isDigit
  if whole = [] ∨ integerDigits < whole.length then none
  else match text.dropWhile Char.isDigit with
    | [] => some (whole, [])
    | '.' :: fraction =>
      if fraction = [] ∨ scale < fraction.length ∨ !fraction.all Char.isDigit then none
      else some (whole, fraction)
    | _ => none

/-- A signed decimal inside the domain: never rounded. -/
def parseAmount (text : DecimalString) : Option ℤ :=
  let negative := text.head? = some '-'
  match matchDecimal amountIntegerDigits amountScale (if negative then text.drop 1 else text) with
  | none => none
  | some (whole, fraction) =>
    let value := bigIntOf whole * amountUnit + bigIntOf (padEnd amountScale fraction)
    some (if negative then -value else value)

/-- `BigInt.toString()` of a non-negative value. -/
def bigIntText (n : ℕ) : List Char := Nat.toDigits 10 n

/-- `padStart(width, '0')`. -/
def padStart (width : ℕ) (s : List Char) : List Char := List.replicate (width - s.length) '0' ++ s

/-- The integer part of the absolute value. -/
def wholeText (value : ℤ) : List Char := bigIntText (value.natAbs / 10 ^ amountScale)

/-- The fraction of the absolute value, all its digits. -/
def fractionText (value : ℤ) : List Char :=
  padStart amountScale (bigIntText (value.natAbs % 10 ^ amountScale))

/-- `decimalStringSchema.parse`. -/
def parseDecimalString (text : List Char) : Except StakeError DecimalString :=
  if isDecimalString text then .ok text else .error ⟨"expected a decimal string like \"12.50\""⟩

/-- Canonical text: no trailing fraction zeros, `0` without a fraction. -/
def formatAmount (value : ℤ) : Except StakeError DecimalString :=
  let trimmed := stripTrailingZeros (fractionText value)
  parseDecimalString ((if value < 0 then ['-'] else []) ++ wholeText value ++
    (if trimmed = [] then [] else '.' :: trimmed))

def assertScale (scale : ℤ) : Except StakeError Unit :=
  if scale < 0 ∨ (amountScale : ℤ) < scale then
    .error ⟨s!"scale must be an integer in [0, {amountScale}], got {scale}"⟩
  else .ok ()

/-- The grid of a scale. -/
def gridStep (scale : ℤ) : Except StakeError ℤ := do
  assertScale scale
  return 10 ^ (amountScale - scale.toNat)

/-- Exactly `scale` fraction digits: the form the stake is sent in. -/
def formatStake (value : ℤ) (scale : ℤ) : Except StakeError DecimalString := do
  if value < 0 ∨ value % (← gridStep scale) ≠ 0 then
    throw ⟨s!"formatStake: {value} is not a non-negative multiple of scale {scale}"⟩
  parseDecimalString (if scale = 0 then wholeText value
    else wholeText value ++ '.' :: (fractionText value).take scale.toNat)

def divCeil (a b : ℤ) : Except StakeError ℤ :=
  if a < 0 ∨ b ≤ 0 then .error ⟨s!"divCeil: expected a >= 0 and b > 0, got {a}, {b}"⟩
  else .ok ((a + b - 1) / b)

def ceilToScale (value scale : ℤ) : Except StakeError ℤ := do
  if value < 0 then throw ⟨s!"ceilToScale: negative value {value}"⟩
  let unit ← gridStep scale
  return (← divCeil value unit) * unit

def floorToScale (value scale : ℤ) : Except StakeError ℤ := do
  if value < 0 then throw ⟨s!"floorToScale: negative value {value}"⟩
  let unit ← gridStep scale
  return value / unit * unit

/-- A payout as an integer of `1e-4` percents; an exponent, a sign, zero or too many digits is
refused. -/
def parsePayout (payout : List Char) : Option ℤ :=
  match matchDecimal payoutIntegerDigits payoutScale payout with
  | none => none
  | some (whole, fraction) =>
    let scaled := bigIntOf whole * 10 ^ payoutScale + bigIntOf (padEnd payoutScale fraction)
    if 0 < scaled then some scaled else none

theorem parsePayout_positive {payout : List Char} {scaled : ℤ} (h : parsePayout payout = some scaled) :
    0 < scaled := by
  unfold parsePayout at h
  split at h
  · exact nomatch h
  · simp only at h
    split at h
    · rename_i hpos
      rw [← Option.some.inj h]
      exact hpos
    · exact nomatch h

/-- The profit credited for a stake, floored to the scale. -/
def expectedProfit (stake payoutScaled scale : ℤ) : Except StakeError ℤ :=
  floorToScale (stake * payoutScaled / percentDivisor) scale

/-! ## Texts -/

section Texts

theorem bigIntOf_eq (l : List Char) : bigIntOf l = (Nat.ofDigitChars 10 l 0 : ℕ) := by
  have h : ∀ (l : List Char) (n : ℕ),
      l.foldl (fun (acc : ℤ) c => 10 * acc + (c.toNat - '0'.toNat : ℕ)) n = (Nat.ofDigitChars 10 l n : ℕ) := by
    intro l
    induction l with
    | nil => simp
    | cons c l ih =>
      intro n
      rw [List.foldl_cons, Nat.ofDigitChars_cons, ← ih]
      push_cast
      rfl
  exact h l 0

theorem isDigit_bigIntText {n : ℕ} {c : Char} (h : c ∈ bigIntText n) : c.isDigit = true := isDigit_toDigits h

theorem bigIntText_ne_nil (n : ℕ) : bigIntText n ≠ [] := Nat.toDigits_ne_nil

theorem bigIntOf_bigIntText (n : ℕ) : bigIntOf (bigIntText n) = n := by
  rw [bigIntOf_eq, bigIntText, Nat.ofDigitChars_ten_toDigits]

theorem isDigit_fractionText {value : ℤ} {c : Char} (h : c ∈ fractionText value) : c.isDigit = true := by
  rcases List.mem_append.mp h with hz | hd
  · rw [List.eq_of_mem_replicate hz]
    rfl
  · exact isDigit_bigIntText hd

theorem fractionText_length (value : ℤ) : (fractionText value).length = amountScale := by
  have hlt : value.natAbs % 10 ^ amountScale < 10 ^ amountScale := Nat.mod_lt _ (by decide)
  have hlen : (bigIntText (value.natAbs % 10 ^ amountScale)).length ≤ amountScale :=
    toDigits_length_le (by decide) hlt
  rw [fractionText, padStart, List.length_append, List.length_replicate]
  omega

theorem value_fractionText (value : ℤ) :
    Nat.ofDigitChars 10 (fractionText value) 0 = value.natAbs % 10 ^ amountScale := by
  rw [fractionText, padStart, ofDigitChars_zeros_append, bigIntText, Nat.ofDigitChars_ten_toDigits]

theorem isDigit_wholeText {value : ℤ} {c : Char} (h : c ∈ wholeText value) : c.isDigit = true :=
  isDigit_bigIntText h

theorem wholeText_ne_nil (value : ℤ) : wholeText value ≠ [] := bigIntText_ne_nil _

/-- A text that starts with a digit has no sign. -/
theorem head?_digits_append {whole : List Char} (hw : whole ≠ []) (hwd : ∀ c ∈ whole, c.isDigit = true)
    (rest : List Char) : (whole ++ rest).head? ≠ some '-' := by
  cases whole with
  | nil => exact absurd rfl hw
  | cons c cs =>
    intro h
    have hc : c.isDigit = true := hwd c List.mem_cons_self
    rw [Option.some.inj h] at hc
    exact absurd hc (by decide)

/-- A sign if any, digits, and digits after a point if any. -/
theorem isDecimalString_of_parts {sign whole rest : List Char} (hs : sign = [] ∨ sign = ['-'])
    (hw : whole ≠ []) (hwd : ∀ c ∈ whole, c.isDigit = true)
    (hr : rest = [] ∨ ∃ f, rest = '.' :: f ∧ f ≠ [] ∧ ∀ c ∈ f, c.isDigit = true) :
    isDecimalString (sign ++ whole ++ rest) = true := by
  have hhead := head?_digits_append hw hwd rest
  have hunsigned : (if (sign ++ whole ++ rest).head? = some '-' then (sign ++ whole ++ rest).drop 1
      else sign ++ whole ++ rest) = whole ++ rest := by
    rcases hs with rfl | rfl
    · rw [List.nil_append, if_neg hhead]
    · rfl
  have hends : EndsDigits rest := by
    rcases hr with rfl | ⟨f, rfl, -⟩
    · exact endsDigits_nil
    · exact endsDigits_point f
  unfold isDecimalString
  simp only [hunsigned, takeWhile_digits_append hwd hends, dropWhile_digits_append hwd hends]
  rcases hr with rfl | ⟨f, rfl, hf, hfd⟩
  · simp [hw]
  · simp [hw, hf]
    exact hfd

theorem parseDecimalString_ok {text : List Char} (h : isDecimalString text = true) :
    parseDecimalString text = .ok text := by
  rw [parseDecimalString, if_pos h]

/-- **The canonical text of an amount is a decimal string**: it is always printed. -/
theorem formatAmount_ok (value : ℤ) : ∃ text, formatAmount value = .ok text := by
  refine ⟨_, parseDecimalString_ok ?_⟩
  refine isDecimalString_of_parts ?_ (wholeText_ne_nil value) (fun c hc => isDigit_wholeText hc) ?_
  · split
    · exact .inr rfl
    · exact .inl rfl
  · by_cases ht : stripTrailingZeros (fractionText value) = []
    · exact .inl (if_pos ht)
    · refine .inr ⟨_, if_neg ht, ht, fun c hc => ?_⟩
      have hmem : c ∈ (fractionText value).reverse :=
        List.dropWhile_sublist _ |>.subset (List.mem_reverse.mp hc)
      exact isDigit_fractionText (List.mem_reverse.mp hmem)

end Texts

/-! ## Reading a text back -/

section Reading

theorem matchDecimal_whole {integerDigits scale : ℕ} {whole : List Char} (hw : whole ≠ [])
    (hwd : ∀ c ∈ whole, c.isDigit = true) (hlen : whole.length ≤ integerDigits) :
    matchDecimal integerDigits scale whole = some (whole, []) := by
  have htake := takeWhile_digits_append hwd endsDigits_nil
  have hdrop := dropWhile_digits_append hwd endsDigits_nil
  rw [List.append_nil] at htake hdrop
  unfold matchDecimal
  simp only [htake, hdrop]
  rw [if_neg (by simp [hw, hlen])]

theorem matchDecimal_point {integerDigits scale : ℕ} {whole fraction : List Char} (hw : whole ≠ [])
    (hwd : ∀ c ∈ whole, c.isDigit = true) (hlen : whole.length ≤ integerDigits) (hf : fraction ≠ [])
    (hfd : ∀ c ∈ fraction, c.isDigit = true) (hflen : fraction.length ≤ scale) :
    matchDecimal integerDigits scale (whole ++ '.' :: fraction) = some (whole, fraction) := by
  unfold matchDecimal
  simp only [takeWhile_digits_append hwd (endsDigits_point fraction),
    dropWhile_digits_append hwd (endsDigits_point fraction)]
  rw [if_neg (by simp [hw, hlen])]
  have hall : fraction.all Char.isDigit = true := List.all_eq_true.mpr hfd
  rw [if_neg (by simp [hf, hflen, hall])]

theorem matchDecimal_some {integerDigits scale : ℕ} {text whole fraction : List Char}
    (h : matchDecimal integerDigits scale text = some (whole, fraction)) :
    (∀ c ∈ whole, c.isDigit = true) ∧ whole.length ≤ integerDigits ∧
      (∀ c ∈ fraction, c.isDigit = true) ∧ fraction.length ≤ scale := by
  unfold matchDecimal at h
  simp only at h
  split at h
  · exact nomatch h
  · rename_i hwhole
    rw [not_or, not_lt] at hwhole
    have hdigits : ∀ c ∈ text.takeWhile Char.isDigit, c.isDigit = true :=
      List.all_eq_true.mp List.all_takeWhile
    split at h
    · obtain ⟨rfl, rfl⟩ := Prod.mk.inj (Option.some.inj h)
      exact ⟨hdigits, hwhole.2, by simp, by simp⟩
    · rename_i fraction' _
      split at h
      · exact nomatch h
      · rename_i hfraction
        obtain ⟨rfl, rfl⟩ := Prod.mk.inj (Option.some.inj h)
        rw [not_or, not_or, not_lt, Bool.not_eq_true, Bool.not_eq_false'] at hfraction
        exact ⟨hdigits, hwhole.2, List.all_eq_true.mp hfraction.2.2, hfraction.2.1⟩
    · exact nomatch h

theorem bigIntOf_nonneg (l : List Char) : 0 ≤ bigIntOf l := by
  rw [bigIntOf_eq]
  exact Int.natCast_nonneg _

theorem bigIntOf_lt {l : List Char} {n : ℕ} (h : ∀ c ∈ l, c.isDigit = true) (hlen : l.length ≤ n) :
    bigIntOf l < 10 ^ n := by
  have hlt : Nat.ofDigitChars 10 l 0 < 10 ^ n :=
    (ofDigitChars_lt h).trans_le (Nat.pow_le_pow_right (by decide) hlen)
  rw [bigIntOf_eq]
  exact_mod_cast hlt

/-- **An amount is inside the domain.** -/
theorem parseAmount_lt {text : DecimalString} {value : ℤ} (h : parseAmount text = some value) :
    value < 10 ^ (amountIntegerDigits + amountScale) := by
  unfold parseAmount at h
  simp only at h
  split at h
  · exact nomatch h
  · rename_i whole fraction hmatch
    obtain ⟨hwd, hwlen, hfd, hflen⟩ := matchDecimal_some hmatch
    have hpadd : ∀ c ∈ padEnd amountScale fraction, c.isDigit = true := by
      intro c hc
      rcases List.mem_append.mp hc with hf | hz
      · exact hfd c hf
      · rw [List.eq_of_mem_replicate hz]
        rfl
    have hpadlen : (padEnd amountScale fraction).length ≤ amountScale := by
      rw [padEnd, List.length_append, List.length_replicate]
      omega
    have hw₀ := bigIntOf_nonneg whole
    have hw := bigIntOf_lt hwd hwlen
    have hf₀ := bigIntOf_nonneg (padEnd amountScale fraction)
    have hf := bigIntOf_lt hpadd hpadlen
    have hvalue : (if text.head? = some '-' then
        -(bigIntOf whole * amountUnit + bigIntOf (padEnd amountScale fraction))
        else bigIntOf whole * amountUnit + bigIntOf (padEnd amountScale fraction)) = value := by
      simpa using Option.some.inj h
    have hsum : bigIntOf whole * amountUnit + bigIntOf (padEnd amountScale fraction) <
        10 ^ (amountIntegerDigits + amountScale) := by
      have hunit : amountUnit = 10 ^ 8 := rfl
      have hscale : amountIntegerDigits + amountScale = 20 := rfl
      rw [hunit, hscale]
      have hw' : bigIntOf whole < 10 ^ 12 := hw
      have hf' : bigIntOf (padEnd amountScale fraction) < 10 ^ 8 := hf
      omega
    have hunit : 0 < amountUnit := by decide
    have hpos : 0 ≤ bigIntOf whole * amountUnit := by positivity
    split_ifs at hvalue <;> omega

/-- The fraction digits a value on the grid needs, padded with zeros, are all its fraction digits. -/
theorem value_cut {value : ℤ} {s : ℕ} (hs : s ≤ amountScale)
    (hgrid : 10 ^ (amountScale - s) ∣ value.natAbs) :
    bigIntOf (padEnd amountScale ((fractionText value).take s)) = (value.natAbs % 10 ^ amountScale : ℕ) := by
  have hlen := fractionText_length value
  have hdvd : 10 ^ (amountScale - s) ∣ Nat.ofDigitChars 10 (fractionText value) 0 := by
    rw [value_fractionText]
    exact (Nat.dvd_mod_iff (pow_dvd_pow 10 (by omega))).mpr hgrid
  have hcut := take_zeros_of_dvd (fun c hc => isDigit_fractionText hc) (by omega) hdvd
  have htake : (fractionText value).length - (amountScale - s) = s := by omega
  have hpad : amountScale - ((fractionText value).take s).length = amountScale - s := by
    rw [List.length_take]
    omega
  rw [htake, value_fractionText] at hcut
  rw [padEnd, hpad, bigIntOf_eq, hcut]

theorem wholeText_length {value : ℤ} (h₀ : 0 ≤ value)
    (h : value < 10 ^ (amountIntegerDigits + amountScale)) :
    (wholeText value).length ≤ amountIntegerDigits := by
  refine toDigits_length_le (by decide) ?_
  rw [Nat.div_lt_iff_lt_mul (by positivity), ← pow_add]
  zify
  rw [abs_of_nonneg h₀]
  exact h

/-- The whole part and the fraction of a value make it up. -/
theorem whole_add_fraction {value : ℤ} (h₀ : 0 ≤ value) :
    bigIntOf (wholeText value) * amountUnit + (value.natAbs % 10 ^ amountScale : ℕ) = value := by
  rw [wholeText, bigIntOf_bigIntText]
  have habs : (value.natAbs : ℤ) = value := Int.natAbs_of_nonneg h₀
  have hdiv := Nat.div_add_mod value.natAbs (10 ^ amountScale)
  have hcast : ((10 ^ amountScale * (value.natAbs / 10 ^ amountScale) +
      value.natAbs % 10 ^ amountScale : ℕ) : ℤ) = value := by
    rw [hdiv, habs]
  push_cast at hcast ⊢
  rw [amountUnit, mul_comm]
  exact hcast

end Reading

/-! ## The grid -/

section Grid

variable {scale : ℤ}

/-- A scale the money module accepts. -/
def ScaleOk (scale : ℤ) : Prop := 0 ≤ scale ∧ scale ≤ amountScale

/-- The size of a grid step of an accepted scale. -/
def gridUnit (scale : ℤ) : ℤ := 10 ^ (amountScale - scale.toNat)

theorem gridUnit_pos (scale : ℤ) : 0 < gridUnit scale := by
  unfold gridUnit
  positivity

theorem gridStep_ok (h : ScaleOk scale) : gridStep scale = .ok (gridUnit scale) := by
  have hnot : ¬ (scale < 0 ∨ (amountScale : ℤ) < scale) := by
    obtain ⟨h₀, h₁⟩ := h
    omega
  rw [gridStep, assertScale, if_neg hnot]
  rfl

theorem divCeil_ok {a b : ℤ} (ha : 0 ≤ a) (hb : 0 < b) : divCeil a b = .ok ((a + b - 1) / b) := by
  rw [divCeil, if_neg (by omega)]

/-- Rounding up to a multiple of a positive unit. -/
theorem le_ceil_mul {a b : ℤ} (hb : 0 < b) : a ≤ (a + b - 1) / b * b := by
  have hmod : (a + b - 1) % b < b := Int.emod_lt_of_pos _ hb
  have hdiv : b * ((a + b - 1) / b) + (a + b - 1) % b = a + b - 1 := Int.mul_ediv_add_emod _ _
  rw [Int.mul_comm b] at hdiv
  omega

theorem ceilToScale_ok (value : ℤ) (hv : 0 ≤ value) (h : ScaleOk scale) :
    ∃ rounded, ceilToScale value scale = .ok rounded ∧ value ≤ rounded ∧ gridUnit scale ∣ rounded := by
  refine ⟨(value + gridUnit scale - 1) / gridUnit scale * gridUnit scale, ?_,
    le_ceil_mul (gridUnit_pos scale), Int.dvd_mul_left _ _⟩
  rw [ceilToScale, if_neg (by omega), gridStep_ok h]
  show (do return (← divCeil value (gridUnit scale)) * gridUnit scale) = _
  rw [divCeil_ok hv (gridUnit_pos scale)]
  rfl

theorem floorToScale_ok {value : ℤ} (hv : 0 ≤ value) (h : ScaleOk scale) :
    floorToScale value scale = .ok (value / gridUnit scale * gridUnit scale) := by
  rw [floorToScale, if_neg (by omega), gridStep_ok h]
  rfl

/-- **A stake on the grid is printed, and its text reads back as the stake** inside the domain. -/
theorem formatStake_ok {value : ℤ} (hv : 0 ≤ value) (h : ScaleOk scale) (hgrid : gridUnit scale ∣ value) :
    ∃ text, formatStake value scale = .ok text ∧
      (value < 10 ^ (amountIntegerDigits + amountScale) → parseAmount text = some value) := by
  obtain ⟨h₀, h₁⟩ := h
  have hs : scale.toNat ≤ amountScale := by omega
  have habs : (value.natAbs : ℤ) = value := Int.natAbs_of_nonneg hv
  have hnat : 10 ^ (amountScale - scale.toNat) ∣ value.natAbs := by
    have hd : ((10 ^ (amountScale - scale.toNat) : ℕ) : ℤ) ∣ (value.natAbs : ℤ) := by
      rw [habs]
      push_cast
      exact hgrid
    exact Int.natCast_dvd_natCast.mp hd
  have hcut := value_cut hs hnat
  have hsum := whole_add_fraction hv
  have hwd : ∀ c ∈ wholeText value, c.isDigit = true := fun c hc => isDigit_wholeText hc
  have hwne := wholeText_ne_nil value
  have hprint : ∀ text, (if scale = 0 then wholeText value
      else wholeText value ++ '.' :: (fractionText value).take scale.toNat) = text →
      isDecimalString text = true → formatStake value scale = .ok text := by
    intro text ht htext
    rw [formatStake, gridStep_ok ⟨h₀, h₁⟩]
    show (if value < 0 ∨ value % gridUnit scale ≠ 0 then _ else _) = _
    rw [if_neg (by rw [Int.emod_eq_zero_of_dvd hgrid]; omega)]
    show parseDecimalString _ = _
    rw [ht, parseDecimalString_ok htext]
  have hneg : ∀ rest, ¬ (wholeText value ++ rest).head? = some '-' := head?_digits_append hwne hwd
  by_cases hzero : scale = 0
  · subst hzero
    refine ⟨wholeText value, hprint _ (if_pos rfl) ?_, fun hlt => ?_⟩
    · have hd := isDecimalString_of_parts (.inl rfl) hwne hwd (.inl rfl)
      simpa using hd
    · have hcut₀ : bigIntOf (padEnd amountScale []) = (value.natAbs % 10 ^ amountScale : ℕ) := by
        simpa using hcut
      have hnegw : ¬ (wholeText value).head? = some '-' := by simpa using hneg []
      unfold parseAmount
      simp only [hnegw, if_false,
        matchDecimal_whole hwne hwd (wholeText_length hv hlt), hcut₀, hsum]
  · have hlen := fractionText_length value
    have hne : (fractionText value).take scale.toNat ≠ [] := by
      intro hnil
      have hl := congrArg List.length hnil
      rw [List.length_take, List.length_nil] at hl
      have hpos : 0 < amountScale := by decide
      omega
    have hfd : ∀ c ∈ (fractionText value).take scale.toNat, c.isDigit = true :=
      fun c hc => isDigit_fractionText (List.mem_of_mem_take hc)
    have hflen : ((fractionText value).take scale.toNat).length ≤ amountScale := by
      rw [List.length_take]
      omega
    refine ⟨_, hprint _ (if_neg hzero) ?_, fun hlt => ?_⟩
    · exact isDecimalString_of_parts (.inl rfl) hwne hwd (.inr ⟨_, rfl, hne, hfd⟩)
    · unfold parseAmount
      simp only [hneg, if_false,
        matchDecimal_point hwne hwd (wholeText_length hv hlt) hne hfd hflen, hcut, hsum]

end Grid

end Binarius
