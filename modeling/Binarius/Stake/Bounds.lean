import Mathlib.Tactic
import Binarius.Lib.Runs
import Binarius.Stake.Size

/-!
# Stake.Bounds — what a martingale session can stake and lose

A run of the sizer: calls of `next` over the trades so far, a trade placed with the stake of the last
call, its result, or its rejection.

* `martingaleStake_ok`: the recovery formula never throws and never goes below the base stake.
* `next_total`: **`next` throws only for an invalid clock.**
* `next_stake`: what a returned stake meets.
* `SizerRun.Inv`: the profits of the settled trades less the stakes of the open ones stay above the
  session's limit; `SizerRun.Inv.act` is the step, `stake_bounds` **the bounds over every run**.
-/

namespace Binarius

open Lib

/-! ## The history -/

section History

/-- The profit a trade of the history brought. -/
def SessionTrade.profit : SessionTrade → ℤ
  | .settled _ profit => (parseAmount profit).getD 0
  | _ => 0

/-- The losses since the last win, newest trade first; ties and rejected trades are passed over. -/
def lossesSinceWin : List SessionTrade → ℕ
  | [] => 0
  | trade :: older =>
    if 0 < trade.profit then 0
    else if trade.profit < 0 then lossesSinceWin older + 1 else lossesSinceWin older

/-- The consecutive losses that precede the next trade. -/
def consecutiveLosses (history : List SessionTrade) : ℕ := lossesSinceWin history.reverse

/-- The sum of the profits. -/
def netProfit (history : List SessionTrade) : ℤ := (history.map SessionTrade.profit).sum

theorem consecutiveLosses_snoc (history : List SessionTrade) (trade : SessionTrade) :
    consecutiveLosses (history ++ [trade]) =
      if 0 < trade.profit then 0
      else if trade.profit < 0 then consecutiveLosses history + 1 else consecutiveLosses history := by
  rw [consecutiveLosses, List.reverse_append, List.reverse_singleton, List.singleton_append,
    lossesSinceWin]
  rfl

theorem netProfit_snoc (history : List SessionTrade) (trade : SessionTrade) :
    netProfit (history ++ [trade]) = netProfit history + trade.profit := by
  simp [netProfit]

theorem foldHistory_snoc (history : List SessionTrade) (trade : SessionTrade) :
    foldHistory (history ++ [trade]) =
      (foldHistory history >>= fun fold => readTrade fold (trade, history.length)) := by
  rw [foldHistory, List.zipIdx_append, List.foldlM_append]
  simp [foldHistory]

/-- One trade read: it has a result, and the fold takes its profit. -/
theorem readTrade_ok {fold fold' : HistoryFold} {trade : SessionTrade} {index : ℕ}
    (h : readTrade fold (trade, index) = .ok fold') :
    trade ≠ .unresolved ∧ (trade = .rejected ∧ fold' = fold ∨ fold' = fold.add trade.profit) := by
  cases trade with
  | rejected =>
    obtain rfl := Except.ok.inj h
    exact ⟨by simp, .inl ⟨rfl, rfl⟩⟩
  | unresolved => exact nomatch h
  | settled stakeText profitText =>
    refine ⟨by simp, .inr ?_⟩
    unfold readTrade at h
    simp only at h
    split at h
    · exact nomatch h
    · split at h
      · exact nomatch h
      · rename_i profit hprofit
        split at h
        · exact nomatch h
        · split at h
          · exact nomatch h
          · rw [SessionTrade.profit, hprofit, Option.getD_some]
            exact (Except.ok.inj h).symm

/-- **What the loop over the history computes.** -/
theorem foldHistory_ok {history : List SessionTrade} {fold : HistoryFold}
    (h : foldHistory history = .ok fold) :
    (∀ trade ∈ history, trade ≠ .unresolved) ∧ fold.net = netProfit history ∧
      fold.consecutiveLosses = consecutiveLosses history ∧ 0 ≤ fold.streakLoss ∧
      (0 < fold.consecutiveLosses → 0 < fold.streakLoss) := by
  induction history using List.reverseRecOn generalizing fold with
  | nil =>
    obtain rfl := Except.ok.inj h
    refine ⟨by simp, rfl, rfl, le_refl _, fun hpos => absurd hpos (by simp)⟩
  | append_singleton history trade ih =>
    rw [foldHistory_snoc] at h
    cases hf : foldHistory history with
    | error stop =>
      rw [hf] at h
      exact nomatch h
    | ok before =>
      rw [hf] at h
      obtain ⟨hall, hnet, hlosses, hnonneg, hpos⟩ := ih hf
      obtain ⟨hne, hstep⟩ := readTrade_ok h
      have hall' : ∀ t ∈ history ++ [trade], t ≠ .unresolved := by
        intro t ht
        rcases List.mem_append.mp ht with hold | hnew
        · exact hall t hold
        · rw [List.mem_singleton.mp hnew]
          exact hne
      rw [netProfit_snoc, consecutiveLosses_snoc]
      rcases hstep with ⟨rfl, rfl⟩ | rfl
      · exact ⟨hall', by simp [SessionTrade.profit, hnet], by simp [SessionTrade.profit, hlosses], hnonneg, hpos⟩
      · refine ⟨hall', by simp [HistoryFold.add, hnet], by simp [HistoryFold.add, hlosses], ?_, ?_⟩
        · show 0 ≤ (if 0 < trade.profit then 0 else if trade.profit < 0 then _ else _ : ℤ)
          split_ifs <;> omega
        · show 0 < (if 0 < trade.profit then 0 else if trade.profit < 0 then _ else _ : ℕ) →
            0 < (if 0 < trade.profit then 0 else if trade.profit < 0 then _ else _ : ℤ)
          split_ifs <;> omega

/-- The ledger of a history: no trade without a result, the loss of the profits' sum, the streak. -/
theorem readHistory_ok {history : List SessionTrade} {ledger : StakeLedger}
    (h : readHistory history = .ok ledger) :
    (∀ trade ∈ history, trade ≠ .unresolved) ∧
      ledger.realizedSessionLoss = max 0 (-netProfit history) ∧
      ledger.consecutiveLosses = consecutiveLosses history ∧ 0 ≤ ledger.streakLoss ∧
      (0 < ledger.consecutiveLosses → 0 < ledger.streakLoss) := by
  unfold readHistory at h
  cases hf : foldHistory history with
  | error stop =>
    rw [hf] at h
    exact nomatch h
  | ok fold =>
    rw [hf] at h
    obtain rfl := Except.ok.inj h
    obtain ⟨hall, hnet, hlosses, hnonneg, hpos⟩ := foldHistory_ok hf
    refine ⟨hall, ?_, hlosses, hnonneg, hpos⟩
    rw [← hnet]
    show (if fold.net < 0 then -fold.net else 0) = _
    split_ifs with hneg
    · rw [max_eq_right (by omega)]
    · rw [max_eq_left (by omega)]

end History

/-! ## The parameters -/

section Params

/-- The parameters of a martingale sizer, as `assertStakeParams` leaves them. -/
structure StakeSizer.Valid (sizer : StakeSizer) (parsed : ParsedLimits) : Prop where
  martingale : sizer.martingale = some parsed
  scale_ok : ScaleOk sizer.params.stakeScale
  base_pos : 0 < sizer.base
  base_grid : gridUnit sizer.params.stakeScale ∣ sizer.base
  maxStake_lt : parsed.maxStake < 10 ^ (amountIntegerDigits + amountScale)
  base_le_loss : sizer.base ≤ parsed.maxSessionLoss

theorem paramsAmount_ok {field : String} {value : DecimalString} {parsed : ℤ}
    (h : paramsAmount field value = .ok parsed) : parseAmount value = some parsed := by
  unfold paramsAmount at h
  split at h
  · exact nomatch h
  · rename_i v hv
    rw [hv, Except.ok.inj h]

theorem requireAmount_ok {text : DecimalString} {value : ℤ} (h : parseAmount text = some value) :
    requireAmount text = .ok value := by
  rw [requireAmount, h]

/-- **What `assertStakeParams` accepts** of a martingale sizer's parameters. -/
theorem createStakeSizer_ok {params : StakeParams} {limits : MartingaleLimits}
    (hstrategy : params.strategy = .martingale limits) (h : assertStakeParams params = .ok ()) :
    ∃ sizer parsed, createStakeSizer params = .ok sizer ∧ sizer.params = params ∧
      parseAmount params.baseStake = some sizer.base ∧ parsed.limits = limits ∧
      parseAmount limits.maxStake = some parsed.maxStake ∧
      parseAmount limits.maxSessionLoss = some parsed.maxSessionLoss ∧ sizer.Valid parsed := by
  have haccepted := h
  unfold assertStakeParams at h
  rw [hstrategy] at h
  simp only [bind, Except.bind, failParams] at h
  split at h
  · exact nomatch h
  rename_i hscale
  split at h
  · exact nomatch h
  rename_i base hbase
  split at h
  · exact nomatch h
  rename_i hpos
  split at h
  · exact nomatch h
  rename_i floored hfloor
  split at h
  · exact nomatch h
  rename_i hgrid
  unfold assertMartingaleLimits at h
  simp only [bind, Except.bind, failParams] at h
  split at h
  · exact nomatch h
  split at h
  · exact nomatch h
  rename_i maxStake hmaxStake
  split at h
  · exact nomatch h
  split at h
  · exact nomatch h
  rename_i maxSessionLoss hmaxLoss
  split at h
  · exact nomatch h
  rename_i hloss
  have hbase' := paramsAmount_ok hbase
  have hmaxStake' := paramsAmount_ok hmaxStake
  have hmaxLoss' := paramsAmount_ok hmaxLoss
  have hscale' : ScaleOk params.stakeScale := by
    rw [not_or] at hscale
    exact ⟨not_lt.mp hscale.1, not_lt.mp hscale.2⟩
  have hgrid' : gridUnit params.stakeScale ∣ base := by
    rw [floorToScale_ok (by omega) hscale'] at hfloor
    have hfloored := Except.ok.inj hfloor
    rw [ne_eq, not_not] at hgrid
    rw [← hgrid, ← hfloored]
    exact Int.dvd_mul_left _ _
  let parsed : ParsedLimits := ⟨limits, maxStake, maxSessionLoss⟩
  refine ⟨⟨stakeAlgorithmVersion, params, base, some parsed⟩, parsed, ?_, rfl, hbase', rfl, hmaxStake',
    hmaxLoss', ⟨rfl, hscale', not_le.mp hpos, hgrid', parseAmount_lt hmaxStake', not_lt.mp hloss⟩⟩
  unfold createStakeSizer
  rw [haccepted, requireAmount_ok hbase', hstrategy]
  simp only [bind, Except.bind, requireAmount_ok hmaxStake', requireAmount_ok hmaxLoss']
  rfl

end Params

/-! ## One call of `next` -/

section Next

variable {sizer : StakeSizer} {parsed : ParsedLimits}

/-- **The recovery formula** is always computed, on the grid, and never below the base stake. -/
theorem martingaleStake_ok {streakLoss base payoutScaled scale : ℤ} (hs : ScaleOk scale)
    (hstreak : 0 < streakLoss) (hbase : 0 < base) (hpayout : 0 < payoutScaled) :
    ∃ stake, martingaleStake streakLoss base payoutScaled scale = .ok stake ∧ base ≤ stake ∧
      gridUnit scale ∣ stake := by
  have hunit := gridUnit_pos scale
  have hD : 0 < percentDivisor := by decide
  have hprofit₀ : 0 ≤ base * payoutScaled / percentDivisor :=
    Int.ediv_nonneg (by positivity) hD.le
  have hprofit := floorToScale_ok hprofit₀ hs
  have hfloor₀ : 0 ≤ base * payoutScaled / percentDivisor / gridUnit scale * gridUnit scale :=
    mul_nonneg (Int.ediv_nonneg hprofit₀ hunit.le) hunit.le
  obtain ⟨target, htarget, hle, hdvd⟩ := ceilToScale_ok
    (streakLoss + base * payoutScaled / percentDivisor / gridUnit scale * gridUnit scale) (by omega) hs
  have htarget₀ : 0 ≤ target * percentDivisor := mul_nonneg (by omega) hD.le
  have hquot := le_ceil_mul (a := target * percentDivisor) hpayout
  obtain ⟨stake, hstake, hqle, hgrid⟩ := ceilToScale_ok
    ((target * percentDivisor + payoutScaled - 1) / payoutScaled) (Int.ediv_nonneg (by omega) hpayout.le) hs
  refine ⟨stake, ?_, ?_, hgrid⟩
  · unfold martingaleStake expectedProfit
    rw [hprofit]
    show (ceilToScale _ scale >>= _) = _
    rw [htarget]
    show (divCeil _ payoutScaled >>= _) = _
    rw [divCeil_ok htarget₀ hpayout]
    exact hstake
  · -- a smaller stake would earn the whole target, which is above what the base stake earns
    by_contra hlt
    have hearned : target * percentDivisor ≤ base * payoutScaled :=
      calc target * percentDivisor
          ≤ (target * percentDivisor + payoutScaled - 1) / payoutScaled * payoutScaled := hquot
        _ ≤ stake * payoutScaled := mul_le_mul_of_nonneg_right hqle hpayout.le
        _ ≤ base * payoutScaled := mul_le_mul_of_nonneg_right (not_le.mp hlt).le hpayout.le
    have htarget_le : target ≤ base * payoutScaled / percentDivisor :=
      (Int.le_ediv_iff_mul_le hD).mpr hearned
    obtain ⟨k, rfl⟩ := hdvd
    have hk : k ≤ base * payoutScaled / percentDivisor / gridUnit scale := by
      refine (Int.le_ediv_iff_mul_le hunit).mpr ?_
      rw [mul_comm]
      exact htarget_le
    have hmul : gridUnit scale * k ≤
        base * payoutScaled / percentDivisor / gridUnit scale * gridUnit scale := by
      rw [mul_comm]
      exact mul_le_mul_of_nonneg_right hk hunit.le
    omega

theorem features_ok (sizer : StakeSizer) (ledger : StakeLedger) (elapsed : ℚ) :
    ∃ features, sizer.features ledger elapsed = .ok features ∧ features.step = sizer.step ledger := by
  obtain ⟨streak, hstreak⟩ := formatAmount_ok ledger.streakLoss
  obtain ⟨realized, hrealized⟩ := formatAmount_ok ledger.realizedSessionLoss
  refine ⟨{
    strategy := sizer.params.strategy
    step := sizer.step ledger
    consecutiveLosses := ledger.consecutiveLosses
    streakLoss := streak
    realizedSessionLoss := realized
    settledTrades := ledger.settledTrades
    sessionElapsedMs := elapsed
    baseStake := sizer.params.baseStake }, ?_, rfl⟩
  unfold StakeSizer.features
  rw [hstreak, hrealized]
  rfl

theorem stepStake_ok (hv : sizer.Valid parsed) (ledger : StakeLedger) (step : ℕ) {payoutScaled : ℤ}
    (hstreak : 1 < step → 0 < ledger.streakLoss) (hpayout : 0 < payoutScaled) :
    ∃ candidate, sizer.stepStake ledger step payoutScaled = .ok candidate ∧ sizer.base ≤ candidate ∧
      gridUnit sizer.params.stakeScale ∣ candidate := by
  unfold StakeSizer.stepStake
  split
  · rename_i hstep
    exact martingaleStake_ok hv.scale_ok (hstreak hstep) hv.base_pos hpayout
  · exact ⟨sizer.base, rfl, le_refl _, hv.base_grid⟩

/-- **The martingale branch** never throws: it stops, or its candidate is inside the limits. -/
theorem martingaleCandidate_ok (hv : sizer.Valid parsed) (input : StakeInput) {ledger : StakeLedger}
    {features : StakeFeatures} (hstep : features.step = ledger.consecutiveLosses + 1)
    (hstreak : 0 < ledger.consecutiveLosses → 0 < ledger.streakLoss) :
    (∃ decision, sizer.martingaleCandidate parsed input ledger features = .ok (.error decision) ∧
      ∀ version amount f, decision ≠ .stake version amount f) ∨
    ∃ candidate, sizer.martingaleCandidate parsed input ledger features = .ok (.ok candidate) ∧
      sizer.base ≤ candidate ∧ candidate ≤ parsed.maxStake ∧
      gridUnit sizer.params.stakeScale ∣ candidate ∧
      ledger.realizedSessionLoss + candidate ≤ parsed.maxSessionLoss ∧
      (ledger.consecutiveLosses : ℤ) < parsed.limits.maxSteps := by
  unfold StakeSizer.martingaleCandidate
  simp only
  split
  · exact .inl ⟨_, rfl, fun _ _ _ h => nomatch h⟩
  split
  · exact .inl ⟨_, rfl, fun _ _ _ h => nomatch h⟩
  rename_i hsteps
  split
  · exact .inl ⟨_, rfl, fun _ _ _ h => nomatch h⟩
  rename_i payoutScaled hpayout
  obtain ⟨candidate, hcand, hbase, hgrid⟩ := stepStake_ok hv ledger features.step
    (fun hlt => hstreak (by omega)) (parsePayout_positive hpayout)
  obtain ⟨text, htext⟩ := formatAmount_ok candidate
  rw [hcand]
  simp only [bind, Except.bind, htext]
  split
  · exact .inl ⟨_, rfl, fun _ _ _ h => nomatch h⟩
  rename_i hmax
  split
  · exact .inl ⟨_, rfl, fun _ _ _ h => nomatch h⟩
  rename_i hloss
  exact .inr ⟨candidate, rfl, hbase, not_lt.mp hmax, hgrid, not_lt.mp hloss, by omega⟩

/-- **The account's checks** never throw on a candidate of the grid inside the domain. -/
theorem accountCheck_ok (hs : ScaleOk sizer.params.stakeScale) (input : StakeInput) (balance : ℤ × ℤ)
    (features : StakeFeatures) {candidate : ℤ} (h₀ : 0 ≤ candidate)
    (hgrid : gridUnit sizer.params.stakeScale ∣ candidate)
    (hlt : candidate < 10 ^ (amountIntegerDigits + amountScale)) :
    ∃ decision, sizer.accountCheck input balance features candidate = .ok decision ∧
      ∀ version amount f, decision = .stake version amount f →
        parseAmount amount = some candidate ∧ balance.1 ≤ candidate ∧ candidate ≤ balance.2 := by
  obtain ⟨text, htext⟩ := formatAmount_ok candidate
  obtain ⟨amount, hamount, hparse⟩ := formatStake_ok h₀ hs hgrid
  unfold StakeSizer.accountCheck
  simp only [bind, Except.bind, htext, hamount]
  split
  · exact ⟨_, rfl, fun _ _ _ h => nomatch h⟩
  rename_i hmin
  split
  · exact ⟨_, rfl, fun _ _ _ h => nomatch h⟩
  rename_i havail
  refine ⟨_, rfl, fun version a f h => ?_⟩
  obtain ⟨-, rfl, -⟩ := StakeDecision.stake.inj h
  exact ⟨hparse hlt, not_lt.mp hmin, not_lt.mp havail⟩

theorem readBalance_ok {input : StakeInput} {balance : ℤ × ℤ} (h : readBalance input = .ok balance) :
    parseAmount input.minTradeAmount = some balance.1 ∧ parseAmount input.available = some balance.2 := by
  unfold readBalance at h
  split at h
  · exact nomatch h
  rename_i minTradeAmount hmin
  split at h
  · exact nomatch h
  split at h
  · exact nomatch h
  rename_i available havail
  split at h
  · exact nomatch h
  obtain rfl := Except.ok.inj h
  exact ⟨hmin, havail⟩

/-- What a returned stake meets: the limits, the grid, the account, and the history before it. -/
structure GoodStake (sizer : StakeSizer) (parsed : ParsedLimits) (input : StakeInput)
    (amount : DecimalString) (stake : ℤ) : Prop where
  text : parseAmount amount = some stake
  base_le : sizer.base ≤ stake
  le_maxStake : stake ≤ parsed.maxStake
  grid : gridUnit sizer.params.stakeScale ∣ stake
  min_le : ∃ minTradeAmount, parseAmount input.minTradeAmount = some minTradeAmount ∧ minTradeAmount ≤ stake
  le_available : ∃ available, parseAmount input.available = some available ∧ stake ≤ available
  losses_lt : (consecutiveLosses input.history : ℤ) < parsed.limits.maxSteps
  resolved : ∀ trade ∈ input.history, trade ≠ .unresolved
  loss_le : max 0 (-netProfit input.history) + stake ≤ parsed.maxSessionLoss

/-- **One call after a valid clock**: it answers, and a stake it answers meets every bound. -/
theorem next_ok (hv : sizer.Valid parsed) {input : StakeInput} {times : ℚ × ℚ}
    (hclock : assertClock input.sessionStartedAtMs input.nowMs = .ok times) :
    ∃ decision, sizer.next input = .ok decision ∧ ∀ version amount features,
      decision = .stake version amount features → ∃ stake, GoodStake sizer parsed input amount stake := by
  unfold StakeSizer.next
  rw [hclock]
  simp only [bind, Except.bind]
  cases hhistory : readHistory input.history with
  | error stop => exact ⟨_, rfl, fun _ _ _ h => nomatch h⟩
  | ok ledger =>
    obtain ⟨hresolved, hrealized, hlosses, -, hstreak⟩ := readHistory_ok hhistory
    cases hbalance : readBalance input with
    | error stop => exact ⟨_, rfl, fun _ _ _ h => nomatch h⟩
    | ok balance =>
      obtain ⟨hmin, havail⟩ := readBalance_ok hbalance
      obtain ⟨features, hfeatures, hstep⟩ := features_ok sizer ledger (times.2 - times.1)
      have hstep' : features.step = ledger.consecutiveLosses + 1 := by
        rw [hstep, StakeSizer.step, hv.martingale]
      have hpos := hv.base_pos
      have hlimit := hv.maxStake_lt
      rcases martingaleCandidate_ok hv input hstep' hstreak with
        ⟨decision, hresult, hstop⟩ | ⟨candidate, hresult, hbase, hmax, hgrid, hloss, hlt⟩
      · simp only [hfeatures, hv.martingale, hresult]
        exact ⟨decision, rfl, fun version amount f h => absurd h (hstop version amount f)⟩
      · obtain ⟨decision, hdecision, hstake⟩ := accountCheck_ok hv.scale_ok input balance features
          (by omega) hgrid (by omega)
        simp only [hfeatures, hv.martingale, hresult]
        refine ⟨decision, hdecision, fun version amount f h => ?_⟩
        obtain ⟨htext, hle, hge⟩ := hstake version amount f h
        exact ⟨candidate, htext, hbase, hmax, hgrid, ⟨_, hmin, hle⟩, ⟨_, havail, hge⟩, hlosses ▸ hlt,
          hresolved, hrealized ▸ hloss⟩

/-- A clock `next` accepts: both times finite and not negative, and not going backwards. -/
def ClockValid (sessionStartedAtMs nowMs : ClockNumber) : Prop :=
  ∃ started now : ℚ, sessionStartedAtMs = .finite started ∧ nowMs = .finite now ∧ 0 ≤ started ∧
    started ≤ now

theorem assertTime_ok {name : String} {value : ClockNumber} {q : ℚ}
    (h : assertTime name value = .ok q) : value = .finite q ∧ 0 ≤ q := by
  unfold assertTime at h
  cases value with
  | notFinite text => exact nomatch h
  | finite value =>
    simp only at h
    split at h
    · exact nomatch h
    · rename_i hneg
      obtain rfl := Except.ok.inj h
      exact ⟨rfl, not_lt.mp hneg⟩

theorem assertClock_ok_iff {sessionStartedAtMs nowMs : ClockNumber} :
    (∃ times, assertClock sessionStartedAtMs nowMs = .ok times) ↔ ClockValid sessionStartedAtMs nowMs := by
  constructor
  · rintro ⟨times, h⟩
    unfold assertClock at h
    cases hs : assertTime "sessionStartedAtMs" sessionStartedAtMs with
    | error e =>
      rw [hs] at h
      exact nomatch h
    | ok started =>
      cases hn : assertTime "nowMs" nowMs with
      | error e =>
        rw [hs, hn] at h
        exact nomatch h
      | ok now =>
        rw [hs, hn] at h
        simp only [bind, Except.bind] at h
        split at h
        · exact nomatch h
        · rename_i hle
          exact ⟨started, now, (assertTime_ok hs).1, (assertTime_ok hn).1, (assertTime_ok hs).2,
            not_lt.mp hle⟩
  · rintro ⟨started, now, rfl, rfl, h₀, hle⟩
    refine ⟨(started, now), ?_⟩
    have hnow : 0 ≤ now := h₀.trans hle
    unfold assertClock assertTime
    simp only [bind, Except.bind, not_lt.mpr h₀, not_lt.mpr hnow, not_lt.mpr hle, if_false]
    rfl

/-- **`next` throws only for an invalid clock.** -/
theorem next_error_iff (hv : sizer.Valid parsed) (input : StakeInput) :
    (∃ e, sizer.next input = .error e) ↔ ¬ ClockValid input.sessionStartedAtMs input.nowMs := by
  constructor
  · rintro ⟨e, he⟩ hclock
    obtain ⟨times, htimes⟩ := assertClock_ok_iff.mpr hclock
    obtain ⟨decision, hdecision, -⟩ := next_ok hv htimes
    rw [he] at hdecision
    exact nomatch hdecision
  · intro hclock
    cases ht : assertClock input.sessionStartedAtMs input.nowMs with
    | ok times => exact absurd (assertClock_ok_iff.mp ⟨times, ht⟩) hclock
    | error e =>
      refine ⟨e, ?_⟩
      unfold StakeSizer.next
      rw [ht]
      rfl

/-- **A returned stake meets every bound.** -/
theorem next_stake (hv : sizer.Valid parsed) {input : StakeInput} {version : String}
    {amount : DecimalString} {features : StakeFeatures}
    (h : sizer.next input = .ok (.stake version amount features)) :
    ∃ stake, GoodStake sizer parsed input amount stake := by
  have hclock : ClockValid input.sessionStartedAtMs input.nowMs := by
    by_contra hnot
    obtain ⟨e, he⟩ := (next_error_iff hv input).mpr hnot
    rw [h] at he
    exact nomatch he
  obtain ⟨times, htimes⟩ := assertClock_ok_iff.mpr hclock
  obtain ⟨decision, hdecision, hgood⟩ := next_ok hv htimes
  rw [h] at hdecision
  exact hgood version amount features (Except.ok.inj hdecision).symm

end Next

/-! ## Runs of a session -/

/-- A trade of a run: open with its stake, certainly never opened, or settled. -/
inductive RunTrade
  | placed (stake : DecimalString)
  | rejected
  | settled (stake profit : DecimalString)
  deriving DecidableEq, Repr

/-- The trade as the sizer reads it. -/
def RunTrade.trade : RunTrade → SessionTrade
  | placed _ => .unresolved
  | rejected => .rejected
  | settled stake profit => .settled stake profit

/-- What the trade has cost at worst: an open one may still lose its whole stake. -/
def RunTrade.worst : RunTrade → ℤ
  | placed stake => -(parseAmount stake).getD 0
  | trade => trade.trade.profit

/-- A session: its trades, and the stake the last call of `next` returned and nothing was placed
with. -/
structure SizerRun where
  trades : List RunTrade := []
  offered : Option DecimalString := none
  deriving DecidableEq, Repr

/-- What a call of `next` reads besides the history. -/
structure CallInput where
  payout : List Char
  minTradeAmount : DecimalString
  available : DecimalString
  sessionStartedAtMs : ClockNumber
  nowMs : ClockNumber
  deriving DecidableEq, Repr

inductive RunAct
  | next (call : CallInput)
  | place
  /-- the result of the open trade: its stake as the row spells it, and a profit no smaller than the
  lost stake -/
  | settle (index : ℕ) (stake profit : DecimalString)
  | reject (index : ℕ)
  /-- an order that never was an open trade -/
  | rejectedOrder
  deriving DecidableEq, Repr

namespace SizerRun

def history (w : SizerRun) : List SessionTrade := w.trades.map RunTrade.trade

def input (w : SizerRun) (call : CallInput) : StakeInput where
  history := w.history
  payout := call.payout
  minTradeAmount := call.minTradeAmount
  available := call.available
  sessionStartedAtMs := call.sessionStartedAtMs
  nowMs := call.nowMs

/-- The result of a trade placed with `amount`: the same stake, and a profit of at least `-amount`. -/
def settles (amount stake profit : DecimalString) : Bool :=
  match parseAmount amount, parseAmount profit with
  | some a, some p => parseAmount stake = some a && decide (-a ≤ p)
  | _, _ => false

def act (sizer : StakeSizer) (w : SizerRun) : RunAct → SizerRun
  | .next call =>
    match sizer.next (w.input call) with
    | .ok (.stake _ amount _) => { w with offered := some amount }
    | _ => { w with offered := none }
  | .place =>
    match w.offered with
    | some amount => { trades := w.trades ++ [.placed amount], offered := none }
    | none => w
  | .settle index stake profit =>
    match w.trades[index]? with
    | some (.placed amount) =>
      if settles amount stake profit then
        { w with trades := w.trades.set index (.settled stake profit) }
      else w
    | _ => w
  | .reject index =>
    match w.trades[index]? with
    | some (.placed _) => { w with trades := w.trades.set index .rejected }
    | _ => w
  | .rejectedOrder => { w with trades := w.trades ++ [.rejected] }

/-- The profits of the settled trades less the stakes of the open ones. -/
def worst (w : SizerRun) : ℤ := (w.trades.map RunTrade.worst).sum

/-- **What every run keeps**: the session's limit covers the open stakes too, and the stake the last
call returned as well. -/
structure Inv (sizer : StakeSizer) (parsed : ParsedLimits) (w : SizerRun) : Prop where
  worst_ge : -parsed.maxSessionLoss ≤ w.worst
  stake_nonneg : ∀ amount, .placed amount ∈ w.trades → ∃ stake, parseAmount amount = some stake ∧ 0 ≤ stake
  offered : ∀ amount, w.offered = some amount → (∀ other, .placed other ∉ w.trades) ∧
    ∃ stake, parseAmount amount = some stake ∧ 0 ≤ stake ∧ -parsed.maxSessionLoss ≤ w.worst - stake

section Runs

variable {sizer : StakeSizer} {parsed : ParsedLimits} {w : SizerRun}

/-- One trade of the list, replaced. -/
theorem sum_worst_set {trades : List RunTrade} {index : ℕ} {trade trade' : RunTrade}
    (h : trades[index]? = some trade) :
    ((trades.set index trade').map RunTrade.worst).sum =
      (trades.map RunTrade.worst).sum - trade.worst + trade'.worst := by
  induction trades generalizing index with
  | nil => exact nomatch h
  | cons head tail ih =>
    cases index with
    | zero =>
      obtain rfl := Option.some.inj h
      simp only [List.set_cons_zero, List.map_cons, List.sum_cons]
      omega
    | succ index =>
      have htail := ih (by simpa using h)
      simp only [List.set_cons_succ, List.map_cons, List.sum_cons]
      omega

/-- With no open trade the worst case is the history's own sum. -/
theorem worst_eq_net (h : ∀ other, .placed other ∉ w.trades) : w.worst = netProfit w.history := by
  unfold worst netProfit history
  rw [List.map_map]
  congr 1
  refine List.map_congr_left (fun trade htrade => ?_)
  cases trade with
  | placed amount => exact absurd htrade (h amount)
  | rejected => rfl
  | settled stake profit => rfl

/-- The worst case is never above the history's sum. -/
theorem worst_le_net (h : ∀ amount, .placed amount ∈ w.trades →
    ∃ stake, parseAmount amount = some stake ∧ 0 ≤ stake) :
    w.worst ≤ netProfit w.history := by
  unfold worst netProfit history
  rw [List.map_map]
  refine List.sum_le_sum (fun trade htrade => ?_)
  cases trade with
  | placed amount =>
    obtain ⟨stake, hstake, hnonneg⟩ := h amount htrade
    show -(parseAmount amount).getD 0 ≤ 0
    rw [hstake, Option.getD_some]
    omega
  | rejected => exact le_refl _
  | settled stake profit => exact le_refl _

/-- A call of `next`. -/
theorem Inv.next (h : Inv sizer parsed w) (hv : sizer.Valid parsed) (call : CallInput) :
    Inv sizer parsed (w.act sizer (.next call)) := by
  show Inv sizer parsed (match sizer.next (w.input call) with | .ok (.stake _ amount _) => _ | _ => _)
  split
  · rename_i version amount features hnext
    obtain ⟨stake, hgood⟩ := next_stake hv hnext
    have hnone : ∀ other, .placed other ∉ w.trades := by
      intro other hother
      have hmem : SessionTrade.unresolved ∈ w.history := List.mem_map.mpr ⟨_, hother, rfl⟩
      exact hgood.resolved _ hmem rfl
    refine ⟨h.worst_ge, h.stake_nonneg, ?_⟩
    intro offered hoffered
    obtain rfl := Option.some.inj hoffered
    refine ⟨hnone, stake, hgood.text, hv.base_pos.le.trans hgood.base_le, ?_⟩
    have hloss : max 0 (-netProfit w.history) + stake ≤ parsed.maxSessionLoss := hgood.loss_le
    have hnet : w.worst = netProfit w.history := worst_eq_net hnone
    have hmax := le_max_right 0 (-netProfit w.history)
    show -parsed.maxSessionLoss ≤ w.worst - stake
    omega
  · exact ⟨h.worst_ge, h.stake_nonneg, fun _ hnone => nomatch hnone⟩

/-- A trade placed with the offered stake. -/
theorem Inv.place (h : Inv sizer parsed w) : Inv sizer parsed (w.act sizer .place) := by
  show Inv sizer parsed (match w.offered with | some amount => _ | none => _)
  split
  · rename_i amount hoffered
    obtain ⟨hnone, stake, hstake, hnonneg, hloss⟩ := h.offered amount hoffered
    refine ⟨?_, ?_, fun _ hnone => nomatch hnone⟩
    · have hworst : RunTrade.worst (.placed amount) = -stake := by
        show -(parseAmount amount).getD 0 = -stake
        rw [hstake, Option.getD_some]
      show -parsed.maxSessionLoss ≤ ((w.trades ++ [RunTrade.placed amount]).map RunTrade.worst).sum
      rw [List.map_append, List.sum_append, List.map_singleton, List.sum_singleton, hworst]
      have hsum : w.worst = (w.trades.map RunTrade.worst).sum := rfl
      omega
    · intro other hother
      rcases List.mem_append.mp hother with hold | hnew
      · exact absurd hold (hnone other)
      · obtain rfl := RunTrade.placed.inj (List.mem_singleton.mp hnew)
        exact ⟨stake, hstake, hnonneg⟩
  · exact h

/-- An open trade that ends: its place in the list holds its result, which costs no more than its
stake. -/
theorem Inv.ended (h : Inv sizer parsed w) {index : ℕ} {amount : DecimalString} {trade : RunTrade}
    (hopen : w.trades[index]? = some (.placed amount)) (hended : ∀ other, trade ≠ .placed other)
    (hworst : RunTrade.worst (.placed amount) ≤ trade.worst) :
    Inv sizer parsed { w with trades := w.trades.set index trade } := by
  have hmem : .placed amount ∈ w.trades := List.mem_of_getElem? hopen
  refine ⟨?_, ?_, ?_⟩
  · show -parsed.maxSessionLoss ≤ ((w.trades.set index trade).map RunTrade.worst).sum
    rw [sum_worst_set hopen]
    have hge : -parsed.maxSessionLoss ≤ (w.trades.map RunTrade.worst).sum := h.worst_ge
    omega
  · intro other hother
    rcases List.mem_or_eq_of_mem_set hother with hold | hnew
    · exact h.stake_nonneg other hold
    · exact absurd hnew.symm (hended other)
  · intro offered hoffered
    exact absurd hmem ((h.offered offered hoffered).1 amount)

/-- **Every action keeps the invariant.** -/
theorem Inv.act (h : Inv sizer parsed w) (hv : sizer.Valid parsed) (a : RunAct) :
    Inv sizer parsed (w.act sizer a) := by
  cases a with
  | next call => exact h.next hv call
  | place => exact h.place
  | settle index stake profit =>
    show Inv sizer parsed (match w.trades[index]? with | some (.placed amount) => _ | _ => _)
    split
    · rename_i amount hopen
      split
      · rename_i hsettles
        refine h.ended hopen (fun _ => by simp) ?_
        unfold settles at hsettles
        split at hsettles
        · rename_i a p ha hp
          rw [Bool.and_eq_true, decide_eq_true_eq, decide_eq_true_eq] at hsettles
          show -(parseAmount amount).getD 0 ≤ (parseAmount profit).getD 0
          rw [ha, hp, Option.getD_some, Option.getD_some]
          exact hsettles.2
        · exact nomatch hsettles
      · exact h
    · exact h
  | reject index =>
    show Inv sizer parsed (match w.trades[index]? with | some (.placed _) => _ | _ => _)
    split
    · rename_i amount hopen
      refine h.ended hopen (fun _ => by simp) ?_
      obtain ⟨stake, hstake, hnonneg⟩ := h.stake_nonneg amount (List.mem_of_getElem? hopen)
      show -(parseAmount amount).getD 0 ≤ 0
      rw [hstake, Option.getD_some]
      omega
    · exact h
  | rejectedOrder =>
    have hworst : (w.act sizer .rejectedOrder).worst = w.worst := by
      show ((w.trades ++ [RunTrade.rejected]).map RunTrade.worst).sum = (w.trades.map RunTrade.worst).sum
      rw [List.map_append, List.sum_append, List.map_singleton, List.sum_singleton]
      exact add_zero _
    have hplaced : ∀ other, .placed other ∈ (w.act sizer .rejectedOrder).trades → .placed other ∈ w.trades := by
      intro other hother
      rcases List.mem_append.mp hother with hold | hnew
      · exact hold
      · exact absurd (List.mem_singleton.mp hnew) (by simp)
    refine ⟨hworst ▸ h.worst_ge, fun amount hamount => h.stake_nonneg amount (hplaced amount hamount), ?_⟩
    intro offered hoffered
    obtain ⟨hnone, stake, hstake, hnonneg, hloss⟩ := h.offered offered hoffered
    exact ⟨fun other hother => hnone other (hplaced other hother), stake, hstake, hnonneg, hworst ▸ hloss⟩

theorem Inv.start (hv : sizer.Valid parsed) : Inv sizer parsed {} := by
  have hbase := hv.base_le_loss
  have hpos := hv.base_pos
  refine ⟨?_, (by simp), fun _ h => nomatch h⟩
  show -parsed.maxSessionLoss ≤ 0
  omega

end Runs

end SizerRun

/-- **Bounds over whole runs of the sizer.**  Under accepted martingale parameters, in every run the
realised loss stays within the session's limit and every stake `next` returns meets `GoodStake`;
`next` throws exactly for an invalid clock. -/
theorem stake_bounds {params : StakeParams} {limits : MartingaleLimits}
    (hstrategy : params.strategy = .martingale limits) (haccepted : assertStakeParams params = .ok ()) :
    ∃ sizer parsed, createStakeSizer params = .ok sizer ∧ sizer.params = params ∧
      parseAmount params.baseStake = some sizer.base ∧ parsed.limits = limits ∧
      parseAmount limits.maxStake = some parsed.maxStake ∧
      parseAmount limits.maxSessionLoss = some parsed.maxSessionLoss ∧
      (∀ acts, let w := run (SizerRun.act sizer) {} acts
        max 0 (-netProfit w.history) ≤ parsed.maxSessionLoss ∧
        (∀ ledger, readHistory w.history = .ok ledger →
          ledger.realizedSessionLoss ≤ parsed.maxSessionLoss) ∧
        ∀ call version amount features, sizer.next (w.input call) = .ok (.stake version amount features) →
          ∃ stake, GoodStake sizer parsed (w.input call) amount stake) ∧
      ∀ input, (∃ e, sizer.next input = .error e) ↔
        ¬ ClockValid input.sessionStartedAtMs input.nowMs := by
  obtain ⟨sizer, parsed, hcreate, hparams, hbase, hlimits, hmaxStake, hmaxLoss, hv⟩ :=
    createStakeSizer_ok hstrategy haccepted
  refine ⟨sizer, parsed, hcreate, hparams, hbase, hlimits, hmaxStake, hmaxLoss, ?_, next_error_iff hv⟩
  intro acts
  have hinv : SizerRun.Inv sizer parsed (run (SizerRun.act sizer) {} acts) :=
    run_induction (SizerRun.Inv.start hv) (fun w a hw => hw.act hv a) acts
  have hnet := SizerRun.worst_le_net hinv.stake_nonneg
  have hworst := hinv.worst_ge
  have hbase₀ := hv.base_le_loss
  have hpos := hv.base_pos
  have hloss : max 0 (-netProfit (run (SizerRun.act sizer) {} acts).history) ≤ parsed.maxSessionLoss :=
    max_le (by omega) (by omega)
  refine ⟨hloss, fun ledger hledger => ?_, fun call version amount features hnext => next_stake hv hnext⟩
  rw [(readHistory_ok hledger).2.1]
  exact hloss

/-- A sizer of base 1.00 with a session limit of 10.00. -/
theorem stake_bounds_ten : ∃ sizer, createStakeSizer
      { baseStake := "1.00".toList, stakeScale := 2
        strategy := .martingale {
          maxSteps := 4, maxStake := "12.00".toList, maxSessionLoss := "10.00".toList
          maxSessionDurationMs := 3600000 } } = .ok sizer ∧
      ∀ acts, max 0 (-netProfit (run (SizerRun.act sizer) {} acts).history) ≤ 1000000000 := by
  obtain ⟨sizer, parsed, hcreate, -, -, -, -, hloss, hruns, -⟩ := @stake_bounds
    { baseStake := "1.00".toList, stakeScale := 2
      strategy := .martingale {
        maxSteps := 4, maxStake := "12.00".toList, maxSessionLoss := "10.00".toList
        maxSessionDurationMs := 3600000 } } _ rfl (by decide)
  have hten : parseAmount "10.00".toList = some 1000000000 := by decide
  have hparsed : parsed.maxSessionLoss = 1000000000 := Option.some.inj (hloss.symm.trans hten)
  exact ⟨sizer, hcreate, fun acts => hparsed ▸ (hruns acts).1⟩

end Binarius
