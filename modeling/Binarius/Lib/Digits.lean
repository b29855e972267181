import Mathlib.Tactic

/-!
# Lib.Digits — decimal digit strings and their values

The value of a digit string is core's `Nat.ofDigitChars 10`, the digits of a number are
`Nat.toDigits 10`.

* `ofDigitChars_lt`: a string of `n` digits is below `10 ^ n`.
* `toDigits_length_le`, `ofDigitChars_zeros_append`: how long a number is, and leading zeros.
* `take_zeros_of_dvd`: **cutting a fraction to the digits it needs keeps its value** once the cut
  digits are written as zeros.
* `takeWhile_digits_append`, `dropWhile_digits_append`: a run of digits is read to its end.
* `ofDigitChars_inj`, `ofDigitChars_canonical`: **digit strings of one length, and digit strings without a
  leading zero, are told apart by their values**.
-/

namespace Lib

section Digits

theorem digit_sub_lt {c : Char} (h : c.isDigit = true) : c.toNat - '0'.toNat < 10 := by
  simp only [Char.isDigit, Bool.and_eq_true, decide_eq_true_eq] at h
  have h₁ : c.toNat ≤ 57 := h.2
  have h₂ : '0'.toNat = 48 := rfl
  omega

theorem ofDigitChars_lt {l : List Char} (h : ∀ c ∈ l, c.isDigit = true) :
    Nat.ofDigitChars 10 l 0 < 10 ^ l.length := by
  induction l with
  | nil => simp
  | cons c l ih =>
    have hc := digit_sub_lt (h c List.mem_cons_self)
    have hl := ih (fun d hd => h d (List.mem_cons_of_mem _ hd))
    rw [Nat.ofDigitChars_cons, Nat.ofDigitChars_eq_ofDigitChars_zero, List.length_cons, pow_succ]
    have hmul : 10 ^ l.length * (10 * 0 + (c.toNat - '0'.toNat)) ≤ 10 ^ l.length * 9 :=
      Nat.mul_le_mul_left _ (by omega)
    omega

theorem ofDigitChars_zeros_append (n : ℕ) (l : List Char) :
    Nat.ofDigitChars 10 (List.replicate n '0' ++ l) 0 = Nat.ofDigitChars 10 l 0 := by
  rw [Nat.ofDigitChars_append, Nat.ofDigitChars_replicate_zero, Nat.mul_zero]

theorem ofDigitChars_append_zeros (n : ℕ) (l : List Char) :
    Nat.ofDigitChars 10 (l ++ List.replicate n '0') 0 = 10 ^ n * Nat.ofDigitChars 10 l 0 := by
  rw [Nat.ofDigitChars_append, Nat.ofDigitChars_replicate_zero]

theorem toDigits_length_le {n k : ℕ} (hk : 0 < k) (h : n < 10 ^ k) :
    (Nat.toDigits 10 n).length ≤ k :=
  (Nat.length_toDigits_le_iff (by omega) hk).mpr h

theorem isDigit_toDigits {n : ℕ} {c : Char} (h : c ∈ Nat.toDigits 10 n) : c.isDigit = true :=
  Nat.isDigit_of_mem_toDigits (by omega) (by omega) h

/-- The last `k` digits of a value that is a multiple of `10 ^ k` may be written as zeros. -/
theorem take_zeros_of_dvd {l : List Char} {k : ℕ} (h : ∀ c ∈ l, c.isDigit = true) (hk : k ≤ l.length)
    (hd : 10 ^ k ∣ Nat.ofDigitChars 10 l 0) :
    Nat.ofDigitChars 10 (l.take (l.length - k) ++ List.replicate k '0') 0 = Nat.ofDigitChars 10 l 0 := by
  have hcut : Nat.ofDigitChars 10 l 0 = 10 ^ k * Nat.ofDigitChars 10 (l.take (l.length - k)) 0 +
      Nat.ofDigitChars 10 (l.drop (l.length - k)) 0 := by
    have hlen : (l.drop (l.length - k)).length = k := by
      rw [List.length_drop]
      omega
    calc Nat.ofDigitChars 10 l 0
        = Nat.ofDigitChars 10 (l.take (l.length - k) ++ l.drop (l.length - k)) 0 := by
          rw [List.take_append_drop]
      _ = Nat.ofDigitChars 10 (l.drop (l.length - k)) (Nat.ofDigitChars 10 (l.take (l.length - k)) 0) := by
          rw [Nat.ofDigitChars_append]
      _ = _ := by rw [Nat.ofDigitChars_eq_ofDigitChars_zero, hlen]
  have hlt : Nat.ofDigitChars 10 (l.drop (l.length - k)) 0 < 10 ^ k := by
    have hlt := ofDigitChars_lt (l := l.drop (l.length - k)) (fun c hc => h c (List.mem_of_mem_drop hc))
    rw [List.length_drop] at hlt
    rwa [Nat.sub_sub_self hk] at hlt
  rw [hcut, Nat.dvd_add_right (Nat.dvd_mul_right _ _)] at hd
  have hzero := Nat.eq_zero_of_dvd_of_lt hd hlt
  rw [ofDigitChars_append_zeros, hcut, hzero, Nat.add_zero]

/-! ### Reading a run of digits -/

/-- A text that does not go on with a digit. -/
def EndsDigits (rest : List Char) : Prop := ∀ c cs, rest = c :: cs → c.isDigit = false

theorem takeWhile_digits_append {l rest : List Char} (h : ∀ c ∈ l, c.isDigit = true)
    (hr : EndsDigits rest) : (l ++ rest).takeWhile Char.isDigit = l := by
  rw [List.takeWhile_append_of_pos h]
  cases rest with
  | nil => simp
  | cons c cs => simp [hr c cs rfl]

theorem dropWhile_digits_append {l rest : List Char} (h : ∀ c ∈ l, c.isDigit = true)
    (hr : EndsDigits rest) : (l ++ rest).dropWhile Char.isDigit = rest := by
  rw [List.dropWhile_append_of_pos h]
  cases rest with
  | nil => simp
  | cons c cs => simp [hr c cs rfl]

theorem endsDigits_nil : EndsDigits [] := fun _ _ h => nomatch h

theorem endsDigits_point (cs : List Char) : EndsDigits ('.' :: cs) := by
  intro c cs' h
  obtain ⟨rfl, -⟩ := List.cons.inj h
  rfl

/-! ### Strings told apart by their values -/

theorem ofDigitChars_cons_zero (c : Char) (l : List Char) :
    Nat.ofDigitChars 10 (c :: l) 0 = 10 ^ l.length * (c.toNat - '0'.toNat) + Nat.ofDigitChars 10 l 0 := by
  rw [Nat.ofDigitChars_cons, Nat.ofDigitChars_eq_ofDigitChars_zero]
  simp

theorem digit_ext {c c' : Char} (h : c.isDigit = true) (h' : c'.isDigit = true)
    (heq : c.toNat - '0'.toNat = c'.toNat - '0'.toNat) : c = c' := by
  simp only [Char.isDigit, Bool.and_eq_true, decide_eq_true_eq] at h h'
  have h₁ : 48 ≤ c.toNat := h.1
  have h₂ : 48 ≤ c'.toNat := h'.1
  have h₃ : '0'.toNat = 48 := rfl
  exact Char.toNat_inj.mp (by omega)

/-- **Digit strings of one length are told apart by their values.** -/
theorem ofDigitChars_inj {l l' : List Char} (h : ∀ c ∈ l, c.isDigit = true) (h' : ∀ c ∈ l', c.isDigit = true)
    (hlen : l.length = l'.length) (heq : Nat.ofDigitChars 10 l 0 = Nat.ofDigitChars 10 l' 0) : l = l' := by
  induction l generalizing l' with
  | nil => exact (List.length_eq_zero_iff.mp hlen.symm).symm
  | cons c l ih =>
    cases l' with
    | nil => cases hlen
    | cons c' l' =>
      have hlen' : l.length = l'.length := Nat.succ.inj hlen
      have hl := ofDigitChars_lt (fun d hd => h d (List.mem_cons_of_mem _ hd))
      have hl' := ofDigitChars_lt (fun d hd => h' d (List.mem_cons_of_mem _ hd))
      rw [ofDigitChars_cons_zero, ofDigitChars_cons_zero, ← hlen'] at heq
      rw [← hlen'] at hl'
      -- the first digit is the quotient by the place of the rest, the rest the remainder
      have hdiv := congrArg (· / 10 ^ l.length) heq
      have hmod := congrArg (· % 10 ^ l.length) heq
      simp only [Nat.mul_add_div (Nat.pow_pos (by decide : 0 < 10)), Nat.div_eq_of_lt hl,
        Nat.div_eq_of_lt hl', Nat.add_zero] at hdiv
      simp only [Nat.mul_add_mod, Nat.mod_eq_of_lt hl, Nat.mod_eq_of_lt hl'] at hmod
      rw [digit_ext (h c List.mem_cons_self) (h' c' List.mem_cons_self) hdiv,
        ih (fun d hd => h d (List.mem_cons_of_mem _ hd)) (fun d hd => h' d (List.mem_cons_of_mem _ hd))
          hlen' hmod]

/-- No zero before another digit. -/
def NoLeadingZero (l : List Char) : Prop := l.head? = some '0' → l.length = 1

/-- A number is printed without a leading zero. -/
theorem noLeadingZero_toDigits (n : ℕ) : NoLeadingZero (Nat.toDigits 10 n) := by
  intro hhead
  cases hdigits : Nat.toDigits 10 n with
  | nil => exact absurd hdigits Nat.toDigits_ne_nil
  | cons c l =>
    rw [hdigits] at hhead
    have hzero : c = '0' := Option.some.inj hhead
    have hdigit : ∀ d ∈ l, d.isDigit = true :=
      fun d hd => isDigit_toDigits (n := n) (by rw [hdigits]; exact List.mem_cons_of_mem _ hd)
    have hvalue : n = Nat.ofDigitChars 10 l 0 := by
      have hself := Nat.ofDigitChars_ten_toDigits (n := n)
      rw [hdigits, ofDigitChars_cons_zero, hzero] at hself
      simpa using hself.symm
    -- the digits behind the zero would be enough
    have hlt : n < 10 ^ l.length := hvalue ▸ ofDigitChars_lt hdigit
    by_contra hlen
    have hpos : 0 < l.length := by
      rw [List.length_cons] at hlen
      omega
    have hle := toDigits_length_le hpos hlt
    rw [hdigits, List.length_cons] at hle
    omega

theorem le_ofDigitChars {l : List Char} (h : ∀ c ∈ l, c.isDigit = true) (hzero : NoLeadingZero l)
    (hlen : 1 < l.length) : 10 ^ (l.length - 1) ≤ Nat.ofDigitChars 10 l 0 := by
  cases l with
  | nil => simp at hlen
  | cons c l =>
    have hne : c.toNat - '0'.toNat ≠ 0 := by
      intro hc
      have heq : c = '0' := digit_ext (h c List.mem_cons_self) (by decide) hc
      have hone := hzero (by rw [heq]; rfl)
      omega
    rw [ofDigitChars_cons_zero, List.length_cons, Nat.add_sub_cancel]
    exact (Nat.le_mul_of_pos_right _ (Nat.pos_of_ne_zero hne)).trans (Nat.le_add_right _ _)

/-- **Digit strings without a leading zero are told apart by their values.** -/
theorem ofDigitChars_canonical {l l' : List Char} (h : ∀ c ∈ l, c.isDigit = true)
    (h' : ∀ c ∈ l', c.isDigit = true) (hsome : l ≠ []) (hsome' : l' ≠ []) (hzero : NoLeadingZero l)
    (hzero' : NoLeadingZero l') (heq : Nat.ofDigitChars 10 l 0 = Nat.ofDigitChars 10 l' 0) : l = l' := by
  -- the longer of two would be the greater
  have hlen : ∀ {l l' : List Char}, (∀ c ∈ l, c.isDigit = true) → (∀ c ∈ l', c.isDigit = true) → l ≠ [] →
      NoLeadingZero l' → Nat.ofDigitChars 10 l 0 = Nat.ofDigitChars 10 l' 0 → l'.length ≤ l.length := by
    intro l l' h h' hsome hzero' heq
    by_contra hlt
    have hpos : 0 < l.length := List.length_pos_of_ne_nil hsome
    have hlow := le_ofDigitChars h' hzero' (by omega)
    have hhigh := ofDigitChars_lt h
    have hpow : 10 ^ l.length ≤ 10 ^ (l'.length - 1) := Nat.pow_le_pow_right (by decide) (by omega)
    omega
  exact ofDigitChars_inj h h'
    (le_antisymm (hlen h' h hsome' hzero heq.symm) (hlen h h' hsome hzero' heq)) heq

end Digits

end Lib
