import Mathlib.Tactic
import Binarius.Stake.Size

/-!
# Stake.Recovery — the martingale stake is the smallest that recovers

`martingaleStake` rounds three times: the target up to the grid, the quotient by the payout up to an
integer, the stake up to the grid; `expectedProfit` rounds down twice.  Each rounding is least or
greatest on its side, so a stake on the grid earns the target exactly from the formula's value on.

* `ceilToScale_isLeast`, `divCeil_isLeast`: what rounding up returns.
* `target_le_expectedProfit_iff`: **a stake of the grid earns the target iff the quotient allows it.**
* `martingaleStake_recovers`: **the smallest stake on the grid whose win recovers the run.**
-/

namespace Binarius

section Recovery

variable {scale : ℤ}

/-- Rounding a quotient up: the least integer that times the divisor reaches the dividend. -/
theorem ceil_le_iff {a b n : ℤ} (hb : 0 < b) : (a + b - 1) / b ≤ n ↔ a ≤ n * b := by
  constructor
  · intro h
    have hquot : a ≤ (a + b - 1) / b * b := le_ceil_mul hb
    have hmul : (a + b - 1) / b * b ≤ n * b := mul_le_mul_of_nonneg_right h hb.le
    omega
  · intro h
    have hlt : (a + b - 1) / b < n + 1 := by
      refine (Int.ediv_lt_iff_lt_mul hb).mpr ?_
      rw [add_mul, one_mul]
      omega
    omega

theorem divCeil_isLeast {a b : ℤ} (ha : 0 ≤ a) (hb : 0 < b) :
    ∃ quotient, divCeil a b = .ok quotient ∧ IsLeast {n | a ≤ n * b} quotient := by
  refine ⟨_, divCeil_ok ha hb, le_ceil_mul hb, ?_⟩
  intro n hn
  exact (ceil_le_iff hb).mpr hn

/-- **Rounding up to the grid** returns the least multiple above the value. -/
theorem ceilToScale_isLeast (value : ℤ) (hv : 0 ≤ value) (h : ScaleOk scale) :
    ∃ rounded, ceilToScale value scale = .ok rounded ∧
      IsLeast {s | gridUnit scale ∣ s ∧ value ≤ s} rounded := by
  have hunit := gridUnit_pos scale
  refine ⟨(value + gridUnit scale - 1) / gridUnit scale * gridUnit scale, ?_,
    ⟨Int.dvd_mul_left _ _, le_ceil_mul hunit⟩, ?_⟩
  · rw [ceilToScale, if_neg (by omega), gridStep_ok h]
    show (do return (← divCeil value (gridUnit scale)) * gridUnit scale) = _
    rw [divCeil_ok hv hunit]
    rfl
  · rintro s ⟨⟨k, rfl⟩, hk⟩
    have hle : (value + gridUnit scale - 1) / gridUnit scale ≤ k := by
      refine (ceil_le_iff hunit).mpr ?_
      rw [mul_comm]
      exact hk
    rw [mul_comm (gridUnit scale) k]
    exact mul_le_mul_of_nonneg_right hle hunit.le

/-- The floored profit of a stake that is not negative. -/
theorem expectedProfit_ok {stake payoutScaled : ℤ} (hstake : 0 ≤ stake) (hpayout : 0 < payoutScaled)
    (h : ScaleOk scale) :
    expectedProfit stake payoutScaled scale =
      .ok (stake * payoutScaled / percentDivisor / gridUnit scale * gridUnit scale) := by
  have hD : 0 < percentDivisor := by decide
  have hprofit : 0 ≤ stake * payoutScaled / percentDivisor :=
    Int.ediv_nonneg (mul_nonneg hstake hpayout.le) hD.le
  exact floorToScale_ok hprofit h

/-- **A target on the grid is earned** exactly by the stakes that times the payout reach it: flooring
the profit to the grid loses nothing below the target. -/
theorem target_le_expectedProfit_iff {stake payoutScaled target profit : ℤ} (hstake : 0 ≤ stake)
    (hpayout : 0 < payoutScaled) (h : ScaleOk scale) (htarget : gridUnit scale ∣ target)
    (hprofit : expectedProfit stake payoutScaled scale = .ok profit) :
    target ≤ profit ↔ target * percentDivisor ≤ stake * payoutScaled := by
  have hunit := gridUnit_pos scale
  have hD : 0 < percentDivisor := by decide
  rw [expectedProfit_ok hstake hpayout h] at hprofit
  obtain rfl := Except.ok.inj hprofit
  obtain ⟨k, rfl⟩ := htarget
  calc gridUnit scale * k ≤ stake * payoutScaled / percentDivisor / gridUnit scale * gridUnit scale
      ↔ k ≤ stake * payoutScaled / percentDivisor / gridUnit scale := by
        rw [mul_comm (gridUnit scale) k]
        exact mul_le_mul_iff_of_pos_right hunit
    _ ↔ k * gridUnit scale ≤ stake * payoutScaled / percentDivisor := Int.le_ediv_iff_mul_le hunit
    _ ↔ k * gridUnit scale * percentDivisor ≤ stake * payoutScaled := Int.le_ediv_iff_mul_le hD
    _ ↔ gridUnit scale * k * percentDivisor ≤ stake * payoutScaled := by
        rw [mul_comm (gridUnit scale) k]

/-- A stake with a floored profit is not negative. -/
theorem nonneg_of_expectedProfit {stake payoutScaled profit : ℤ} (hpayout : 0 < payoutScaled)
    (hprofit : expectedProfit stake payoutScaled scale = .ok profit) : 0 ≤ stake := by
  by_contra hneg
  have hD : 0 < percentDivisor := by decide
  have hmul : stake * payoutScaled < 0 := mul_neg_of_neg_of_pos (not_le.mp hneg) hpayout
  have hquot : stake * payoutScaled / percentDivisor < 0 := Int.ediv_neg_of_neg_of_pos hmul hD
  rw [expectedProfit, floorToScale, if_pos hquot] at hprofit
  cases hprofit

/-- The stakes of the grid whose floored profit covers `target`. -/
def recovering (payoutScaled scale target : ℤ) : Set ℤ :=
  {stake | gridUnit scale ∣ stake ∧
    ∃ profit, expectedProfit stake payoutScaled scale = .ok profit ∧ target ≤ profit}

/-- **What the formula returns**: the least stake that covers its target. -/
theorem martingaleStake_isLeast {streakLoss base payoutScaled : ℤ} (hs : ScaleOk scale)
    (hstreak : 0 < streakLoss) (hbase : 0 ≤ base) (hpayout : 0 < payoutScaled) :
    ∃ stake baseProfit target, martingaleStake streakLoss base payoutScaled scale = .ok stake ∧
      expectedProfit base payoutScaled scale = .ok baseProfit ∧
      ceilToScale (streakLoss + baseProfit) scale = .ok target ∧
      streakLoss + baseProfit ≤ target ∧ IsLeast (recovering payoutScaled scale target) stake := by
  have hD : 0 < percentDivisor := by decide
  have hbaseProfit := expectedProfit_ok hbase hpayout hs
  have hnonneg : 0 ≤ base * payoutScaled / percentDivisor / gridUnit scale * gridUnit scale :=
    mul_nonneg (Int.ediv_nonneg (Int.ediv_nonneg (mul_nonneg hbase hpayout.le) hD.le)
      (gridUnit_pos scale).le) (gridUnit_pos scale).le
  generalize base * payoutScaled / percentDivisor / gridUnit scale * gridUnit scale = baseProfit
    at hbaseProfit hnonneg
  obtain ⟨target, htarget, ⟨htargetGrid, htargetLe⟩, -⟩ :=
    ceilToScale_isLeast (streakLoss + baseProfit) (by omega) hs
  have htarget₀ : 0 ≤ target * percentDivisor := mul_nonneg (by omega) hD.le
  obtain ⟨quotient, hquotient, hquotientLe, hquotientLeast⟩ := divCeil_isLeast htarget₀ hpayout
  have hquotient₀ : 0 ≤ quotient := by
    by_contra hneg
    have hlt : quotient * payoutScaled < 0 := mul_neg_of_neg_of_pos (not_le.mp hneg) hpayout
    have hle : target * percentDivisor ≤ quotient * payoutScaled := hquotientLe
    omega
  obtain ⟨stake, hstake, ⟨hstakeGrid, hstakeLe⟩, hstakeLeast⟩ := ceilToScale_isLeast quotient hquotient₀ hs
  refine ⟨stake, baseProfit, target, ?_, hbaseProfit, htarget, htargetLe, ⟨hstakeGrid, ?_⟩, ?_⟩
  · unfold martingaleStake
    rw [hbaseProfit]
    show (ceilToScale _ scale >>= _) = _
    rw [htarget]
    show (divCeil _ payoutScaled >>= _) = _
    rw [hquotient]
    exact hstake
  · have hstake₀ : 0 ≤ stake := hquotient₀.trans hstakeLe
    refine ⟨_, expectedProfit_ok hstake₀ hpayout hs, ?_⟩
    refine (target_le_expectedProfit_iff hstake₀ hpayout hs htargetGrid
      (expectedProfit_ok hstake₀ hpayout hs)).mpr ?_
    calc target * percentDivisor ≤ quotient * payoutScaled := hquotientLe
      _ ≤ stake * payoutScaled := mul_le_mul_of_nonneg_right hstakeLe hpayout.le
  · -- any other recovering stake is above the quotient, hence above its rounding to the grid
    rintro other ⟨hgrid, profit, hprofit, hcovers⟩
    have hother := nonneg_of_expectedProfit hpayout hprofit
    have hreaches : target * percentDivisor ≤ other * payoutScaled :=
      (target_le_expectedProfit_iff hother hpayout hs htargetGrid hprofit).mp hcovers
    exact hstakeLeast ⟨hgrid, hquotientLeast hreaches⟩

/-- A greater profit takes a greater stake. -/
theorem lt_of_expectedProfit_lt {base stake payoutScaled baseProfit profit : ℤ} (hs : ScaleOk scale)
    (hpayout : 0 < payoutScaled) (hbase : expectedProfit base payoutScaled scale = .ok baseProfit)
    (hstake : expectedProfit stake payoutScaled scale = .ok profit) (hlt : baseProfit < profit) :
    base < stake := by
  by_contra hnot
  have hbase₀ := nonneg_of_expectedProfit hpayout hbase
  have hstake₀ := nonneg_of_expectedProfit hpayout hstake
  rw [expectedProfit_ok hbase₀ hpayout hs] at hbase
  rw [expectedProfit_ok hstake₀ hpayout hs] at hstake
  obtain rfl := Except.ok.inj hbase
  obtain rfl := Except.ok.inj hstake
  have hD : 0 < percentDivisor := by decide
  have hunit := gridUnit_pos scale
  have hmul : stake * payoutScaled ≤ base * payoutScaled :=
    mul_le_mul_of_nonneg_right (not_lt.mp hnot) hpayout.le
  have hfloored : stake * payoutScaled / percentDivisor / gridUnit scale ≤
      base * payoutScaled / percentDivisor / gridUnit scale :=
    Int.ediv_le_ediv hunit (Int.ediv_le_ediv hD hmul)
  have hprofits := mul_le_mul_of_nonneg_right hfloored hunit.le
  omega

/-- **The martingale stake is the smallest that recovers.**  For every streak loss, base stake,
payout and scale the formula returns the least stake of the grid whose floored profit covers the
streak loss plus the base stake's profit, rounded up to the grid; it is above the base stake, and a
win that pays no less than its floored profit leaves the run at the base stake's profit or above. -/
theorem martingaleStake_recovers {streakLoss base payoutScaled : ℤ} {payout : List Char}
    (hs : 0 ≤ scale ∧ scale ≤ amountScale) (hstreak : 0 < streakLoss) (hbase : 0 ≤ base)
    (hpayout : parsePayout payout = some payoutScaled) :
    ∃ stake baseProfit target profit,
      martingaleStake streakLoss base payoutScaled scale = .ok stake ∧
      expectedProfit base payoutScaled scale = .ok baseProfit ∧
      ceilToScale (streakLoss + baseProfit) scale = .ok target ∧
      expectedProfit stake payoutScaled scale = .ok profit ∧
      IsLeast (recovering payoutScaled scale target) stake ∧ base < stake ∧
      ∀ paid, profit ≤ paid → baseProfit ≤ paid - streakLoss := by
  have hpos := parsePayout_positive hpayout
  obtain ⟨stake, baseProfit, target, hstake, hbaseProfit, htarget, hle, hleast⟩ :=
    martingaleStake_isLeast hs hstreak hbase hpos
  obtain ⟨-, profit, hprofit, hcovers⟩ := hleast.1
  refine ⟨stake, baseProfit, target, profit, hstake, hbaseProfit, htarget, hprofit, hleast, ?_, ?_⟩
  · exact lt_of_expectedProfit_lt hs hpos hbaseProfit hprofit (by omega)
  · intro paid hpaid
    omega

/-- A loss of 10.00 over a base stake of 1.00 at 92 percents, in cents: the stake is 11.87. -/
theorem martingaleStake_recovers_ten : ∃ profit,
    martingaleStake 1000000000 100000000 920000 2 = .ok 1187000000 ∧
      expectedProfit 1187000000 920000 2 = .ok profit ∧ (100000000 : ℤ) < 1187000000 ∧
      ∀ paid, profit ≤ paid → 92000000 ≤ paid - 1000000000 := by
  obtain ⟨stake, baseProfit, target, profit, hstake, hbaseProfit, -, hprofit, -, hlt, hpaid⟩ :=
    @martingaleStake_recovers 2 1000000000 100000000 920000 "92".toList (by decide) (by decide) (by decide)
      (by decide)
  have hformula : martingaleStake 1000000000 100000000 920000 2 = .ok 1187000000 := by decide
  have hearned : expectedProfit 100000000 920000 2 = .ok 92000000 := by decide
  obtain rfl := Except.ok.inj (hformula.symm.trans hstake)
  obtain rfl := Except.ok.inj (hearned.symm.trans hbaseProfit)
  exact ⟨profit, hstake, hprofit, hlt, hpaid⟩

end Recovery

end Binarius
