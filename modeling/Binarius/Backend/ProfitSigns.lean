import Mathlib.Tactic
import Binarius.Backend.Driver

/-!
# Backend.ProfitSigns — the result of a trade by its profit's text and by its profit

The driver tells a win, a loss and a tie by tests on the text; the sizer parses the text.

* `NumericText`: a numeric(20,8) text; `parseAmount_isSome`: **it parses**.
* `resultOf_eq`: **the text's class is the sign of the amount**, zeros of either sign being ties.
-/

namespace Binarius

open Lib

/-- A digit that is not zero: `/[1-9]/`. -/
def hasNonzeroDigit (text : List Char) : Bool := text.any (fun c => '1' ≤ c && c ≤ '9')

/-- A fraction behind its point; none has no point. -/
def pointed (fraction : List Char) : List Char := if fraction = [] then [] else '.' :: fraction

/-- A sign if any, up to 12 integer digits and, if any, up to 8 fraction digits. -/
def NumericText (text : DecimalString) : Prop :=
  ∃ sign whole fraction : List Char, text = sign ++ (whole ++ pointed fraction) ∧ (sign = [] ∨ sign = ['-']) ∧
    whole ≠ [] ∧ (∀ c ∈ whole, c.isDigit = true) ∧ whole.length ≤ amountIntegerDigits ∧
    (∀ c ∈ fraction, c.isDigit = true) ∧ fraction.length ≤ amountScale

/-- The class of an amount. -/
def resultOfAmount (value : ℤ) : SessionTradeResult :=
  if 0 < value then .won else if value < 0 then .lost else .tied

/-! ## Digits -/

theorem nonzero_digit_iff {c : Char} (h : c.isDigit = true) :
    ('1' ≤ c && c ≤ '9') = true ↔ 0 < c.toNat - '0'.toNat := by
  simp only [Char.isDigit, Bool.and_eq_true, decide_eq_true_eq] at h
  have hlow : 48 ≤ c.toNat := h.1
  have hhigh : c.toNat ≤ 57 := h.2
  have hone : '1' ≤ c ↔ 49 ≤ c.toNat := Iff.rfl
  have hnine : c ≤ '9' ↔ c.toNat ≤ 57 := Iff.rfl
  have hzero : '0'.toNat = 48 := rfl
  rw [Bool.and_eq_true, decide_eq_true_eq, decide_eq_true_eq, hone, hnine]
  omega

theorem hasNonzeroDigit_iff {l : List Char} (h : ∀ c ∈ l, c.isDigit = true) :
    hasNonzeroDigit l = true ↔ 0 < bigIntOf l := by
  rw [bigIntOf_eq, Int.natCast_pos]
  induction l with
  | nil => simp [hasNonzeroDigit]
  | cons c l ih =>
    have htail := ih (fun d hd => h d (List.mem_cons_of_mem _ hd))
    have hhead := nonzero_digit_iff (h c List.mem_cons_self)
    rw [Nat.ofDigitChars_cons, Nat.ofDigitChars_eq_ofDigitChars_zero, Nat.mul_zero, Nat.zero_add]
    rw [hasNonzeroDigit, List.any_cons, Bool.or_eq_true, hhead]
    change _ ∨ hasNonzeroDigit l = true ↔ _
    rw [htail]
    constructor
    · rintro (hpos | hpos)
      · exact Nat.add_pos_left (Nat.mul_pos (by positivity) hpos) _
      · exact Nat.add_pos_right _ hpos
    · intro hpos
      rcases Nat.eq_zero_or_pos (c.toNat - '0'.toNat) with hzero | hnonzero
      · rw [hzero, Nat.mul_zero, Nat.zero_add] at hpos
        exact .inr hpos
      · exact .inl hnonzero

theorem padEnd_pos_iff {l : List Char} (h : ∀ c ∈ l, c.isDigit = true) :
    0 < bigIntOf (padEnd amountScale l) ↔ hasNonzeroDigit l = true := by
  rw [hasNonzeroDigit_iff h, bigIntOf_eq, bigIntOf_eq, padEnd, ofDigitChars_append_zeros]
  simp only [Int.natCast_pos]
  exact ⟨fun hpos => Nat.pos_of_mul_pos_left hpos, fun hpos => Nat.mul_pos (by positivity) hpos⟩

theorem hasNonzeroDigit_append (l l' : List Char) :
    hasNonzeroDigit (l ++ l') = (hasNonzeroDigit l || hasNonzeroDigit l') := List.any_append

theorem hasNonzeroDigit_pointed (fraction : List Char) :
    hasNonzeroDigit (pointed fraction) = hasNonzeroDigit fraction := by
  unfold pointed
  split_ifs with h
  · rw [h]
  · rfl

/-! ## Parsing -/

theorem matchDecimal_text {integerDigits scale : ℕ} {text whole fraction : List Char}
    (h : matchDecimal integerDigits scale text = some (whole, fraction)) :
    whole ≠ [] ∧ text = whole ++ pointed fraction := by
  unfold matchDecimal at h
  simp only at h
  split at h
  · exact nomatch h
  · rename_i hwhole
    have htext : text.takeWhile Char.isDigit ++ text.dropWhile Char.isDigit = text :=
      List.takeWhile_append_dropWhile
    split at h
    · rename_i hrest
      obtain ⟨rfl, rfl⟩ := Prod.mk.inj (Option.some.inj h)
      rw [hrest] at htext
      exact ⟨fun hnil => hwhole (.inl hnil), htext.symm⟩
    · rename_i fraction' hrest
      split at h
      · exact nomatch h
      · rename_i hfraction
        obtain ⟨rfl, rfl⟩ := Prod.mk.inj (Option.some.inj h)
        rw [hrest] at htext
        refine ⟨fun hnil => hwhole (.inl hnil), ?_⟩
        rw [pointed, if_neg (fun hnil => hfraction (.inl hnil))]
        exact htext.symm
    · exact nomatch h

/-- The parts of a text that parses, and its amount. -/
theorem parseAmount_parts {text : DecimalString} {value : ℤ} (h : parseAmount text = some value) :
    ∃ whole fraction, whole ≠ [] ∧ (∀ c ∈ whole, c.isDigit = true) ∧ (∀ c ∈ fraction, c.isDigit = true) ∧
      ((text = '-' :: (whole ++ pointed fraction) ∧
          value = -(bigIntOf whole * amountUnit + bigIntOf (padEnd amountScale fraction))) ∨
        (text.head? ≠ some '-' ∧ text = whole ++ pointed fraction ∧
          value = bigIntOf whole * amountUnit + bigIntOf (padEnd amountScale fraction))) := by
  unfold parseAmount at h
  simp only at h
  split at h
  · exact nomatch h
  · rename_i whole fraction hmatch
    obtain ⟨hwd, -, hfd, -⟩ := matchDecimal_some hmatch
    obtain ⟨hwhole, htext⟩ := matchDecimal_text hmatch
    refine ⟨whole, fraction, hwhole, hwd, hfd, ?_⟩
    by_cases hneg : text.head? = some '-'
    · left
      rw [if_pos (by simpa using hneg)] at htext
      rw [if_pos (by simpa using hneg)] at h
      cases text with
      | nil => exact nomatch hneg
      | cons c cs =>
        rw [List.head?_cons, Option.some.injEq] at hneg
        rw [hneg, ← htext]
        exact ⟨rfl, (Option.some.inj h).symm⟩
    · right
      rw [if_neg (by simpa using hneg)] at htext
      rw [if_neg (by simpa using hneg)] at h
      exact ⟨hneg, htext, (Option.some.inj h).symm⟩

theorem matchDecimal_pointed {whole fraction : List Char} (hw : whole ≠ [])
    (hwd : ∀ c ∈ whole, c.isDigit = true) (hlen : whole.length ≤ amountIntegerDigits)
    (hfd : ∀ c ∈ fraction, c.isDigit = true) (hflen : fraction.length ≤ amountScale) :
    matchDecimal amountIntegerDigits amountScale (whole ++ pointed fraction) = some (whole, fraction) := by
  by_cases hf : fraction = []
  · rw [hf, pointed, if_pos rfl, List.append_nil]
    exact matchDecimal_whole hw hwd hlen
  · rw [pointed, if_neg hf]
    exact matchDecimal_point hw hwd hlen hf hfd hflen

/-- **A numeric(20,8) text parses.** -/
theorem parseAmount_isSome {text : DecimalString} (h : NumericText text) : ∃ value, parseAmount text = some value := by
  obtain ⟨sign, whole, fraction, rfl, hsign, hw, hwd, hlen, hfd, hflen⟩ := h
  have hmatch := matchDecimal_pointed hw hwd hlen hfd hflen
  unfold parseAmount
  rcases hsign with rfl | rfl
  · have hhead : (whole ++ pointed fraction).head? ≠ some '-' := head?_digits_append hw hwd _
    simp only [List.nil_append, hhead, if_false, hmatch]
    exact ⟨_, rfl⟩
  · simp only [List.singleton_append, List.head?_cons, if_true, List.drop_one, List.tail_cons, hmatch]
    exact ⟨_, rfl⟩

/-- **The text's class is the amount's sign.** -/
theorem resultOf_eq {text : DecimalString} {value : ℤ} (h : parseAmount text = some value) :
    resultOf text = resultOfAmount value := by
  obtain ⟨whole, fraction, hw, hwd, hfd, hcase⟩ := parseAmount_parts h
  have hwhole := hasNonzeroDigit_iff hwd
  have hfraction := padEnd_pos_iff hfd
  have hw₀ := bigIntOf_nonneg whole
  have hf₀ := bigIntOf_nonneg (padEnd amountScale fraction)
  have hunit : amountUnit = 100000000 := rfl
  -- the amount is not zero just where a digit is not
  have hnonzero : hasNonzeroDigit (whole ++ pointed fraction) = true ↔
      0 < bigIntOf whole * amountUnit + bigIntOf (padEnd amountScale fraction) := by
    rw [hasNonzeroDigit_append, hasNonzeroDigit_pointed, Bool.or_eq_true, hwhole, ← hfraction, hunit]
    omega
  have hX : 0 ≤ bigIntOf whole * amountUnit + bigIntOf (padEnd amountScale fraction) := by
    rw [hunit]
    omega
  generalize bigIntOf whole * amountUnit + bigIntOf (padEnd amountScale fraction) = amount at *
  rcases hcase with ⟨rfl, rfl⟩ | ⟨hhead, rfl, rfl⟩
  · -- a sign: never a win
    have hwin : isWin (some ('-' :: (whole ++ pointed fraction))) = false := by
      simp [isWin]
    have hany : ('-' :: (whole ++ pointed fraction)).any (fun c => '1' ≤ c && c ≤ '9') =
        hasNonzeroDigit (whole ++ pointed fraction) := rfl
    have hnotWon : ¬ 0 < -amount := by omega
    rw [resultOf, hwin, resultOfAmount, hany, List.head?_cons, decide_eq_true rfl, Bool.and_true,
      if_neg Bool.false_ne_true, if_neg hnotWon]
    by_cases hdigit : hasNonzeroDigit (whole ++ pointed fraction) = true
    · have hpos := hnonzero.mp hdigit
      rw [if_pos hdigit, if_pos (by omega)]
    · have hpos := mt hnonzero.mpr hdigit
      rw [if_neg hdigit, if_neg (by omega)]
  · -- no sign: never a loss
    have hwin : isWin (some (whole ++ pointed fraction)) = hasNonzeroDigit (whole ++ pointed fraction) := by
      have hdecimal : isDecimalString ([] ++ whole ++ pointed fraction) = true := by
        refine isDecimalString_of_parts (.inl rfl) hw hwd ?_
        unfold pointed
        split_ifs with hf
        · exact .inl rfl
        · exact .inr ⟨fraction, rfl, hf, hfd⟩
      rw [List.nil_append] at hdecimal
      show (isDecimalString (whole ++ pointed fraction) && decide ((whole ++ pointed fraction).head? ≠ some '-') &&
        hasNonzeroDigit (whole ++ pointed fraction)) = _
      rw [hdecimal, decide_eq_true hhead, Bool.true_and, Bool.true_and]
    rw [resultOf, hwin, resultOfAmount, decide_eq_false hhead, Bool.and_false]
    by_cases hdigit : hasNonzeroDigit (whole ++ pointed fraction) = true
    · rw [if_pos hdigit, if_pos (hnonzero.mp hdigit)]
    · have hpos := mt hnonzero.mpr hdigit
      rw [if_neg hdigit, if_neg hpos, if_neg Bool.false_ne_true, if_neg (by omega)]

end Binarius
