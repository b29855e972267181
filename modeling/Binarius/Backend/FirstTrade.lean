import Mathlib.Tactic
import Mathlib.Data.List.TakeWhile
import Binarius.Shared.StakeSettings
import Binarius.Backend.ProfitSigns
import Binarius.Stake.Bounds
import Binarius.Stake.PlainAmounts

/-!
# Backend.FirstTrade — a session that starts can place its first trade

The base stake and the limits are built as texts, read by the schema, and read again by the sizer.

* `stakeSettingsFrom_startStake`: **the stake of the start is built, on its grid.**
* `BaseRead.asserted`, `firstStake`: what the sizer asks of its parameters, and its first answer.
-/

namespace Binarius

open Lib

/-! ## The stake of the start -/

/-- A base stake the sizer can trade: on its grid, not below the minimum. -/
structure StartStake (minimum : ℤ) (stake : SessionStake) (whole fraction : List Char) : Prop where
  plain : Plain stake.baseStake whole fraction
  scale : ScaleOk stake.stakeScale
  grid : gridUnit stake.stakeScale ∣ amountOf whole fraction
  minimum : minimum ≤ amountOf whole fraction

theorem parseDecimalString_normalize {text whole fraction : List Char} (h : Plain text whole fraction) :
    parseDecimalString (normalizeDecimal text) = .ok (normalizeDecimal text) :=
  parseDecimalString_ok h.normalize.isDecimal

/-- The stakes a start has: none saved, or one that `checkStake` accepts against the minimum. -/
def StartsWith (minTradeAmount : DecimalString) (saved : Option DecimalString) : Prop :=
  ∀ stake, saved = some stake →
    NumericText stake ∧ ∃ available, checkStake stake { minTradeAmount, available } = none

theorem startsWith_none (minTradeAmount : DecimalString) : StartsWith minTradeAmount none :=
  fun _ h => nomatch h

/-- **The stake of the start is built, on its grid and not below the minimum.** -/
theorem stakeSettingsFrom_startStake {minTradeAmount : DecimalString} {saved : Option DecimalString}
    (hmin : NumericText minTradeAmount) (hpos : 0 < units minTradeAmount)
    (hsaved : StartsWith minTradeAmount saved) :
    ∃ stake whole fraction, stakeSettingsFrom saved minTradeAmount = .ok stake ∧
      StartStake (units minTradeAmount) stake whole fraction := by
  obtain ⟨wholeMin, fractionMin, hplain, -, hlen⟩ := hmin.plain hpos
  have hminScale := hplain.decimalScale
  have hstrip := stripTrailingZeros_length_le fractionMin
  cases saved with
  | none =>
    have hlow : ((stripTrailingZeros fractionMin).length : ℤ) ≤ amountScale := by
      exact_mod_cast hstrip.trans hlen
    refine ⟨⟨normalizeDecimal minTradeAmount, (stripTrailingZeros fractionMin).length⟩, _, _, ?_,
      hplain.normalize, ⟨Int.natCast_nonneg _, hlow⟩, ?_, ?_⟩
    · show stakeSettingsFor minTradeAmount = _
      unfold stakeSettingsFor
      simp only [parseDecimalString_normalize hplain, hplain.normalize.split]
      rfl
    · exact amountOf_onGrid _ ⟨Int.natCast_nonneg _, hlow⟩ (le_refl _)
    · rw [amountOf_strip hplain.wholeDigits hlen, hplain.units]
  | some stake =>
    obtain ⟨hnumeric, available, hcheck⟩ := hsaved stake rfl
    unfold checkStake at hcheck
    split_ifs at hcheck with hprecision hbelow habove
    rw [not_lt] at hprecision hbelow
    obtain ⟨whole, fraction, hstake, -, hlen'⟩ := hnumeric.plain (hpos.trans_le hbelow)
    have hscaleLe : stakeScale minTradeAmount ≤ amountScale := by
      rw [stakeScale, hminScale]
      exact max_le (by decide) (hstrip.trans hlen)
    have hscale : ScaleOk (stakeScale minTradeAmount) := ⟨Int.natCast_nonneg _, by exact_mod_cast hscaleLe⟩
    rw [hstake.decimalScale] at hprecision
    refine ⟨⟨normalizeDecimal stake, stakeScale minTradeAmount⟩, _, _, ?_, hstake.normalize, hscale, ?_, ?_⟩
    · show (do return { baseStake := ← parseDecimalString (normalizeDecimal stake),
                        stakeScale := (stakeScale minTradeAmount : ℤ) } : Except StakeError SessionStake) = _
      rw [parseDecimalString_normalize hstake]
      rfl
    · have hfew : ((stripTrailingZeros fraction).length : ℤ) ≤ (stakeScale minTradeAmount : ℤ) := by
        exact_mod_cast hprecision
      exact amountOf_onGrid _ hscale hfew
    · rw [amountOf_strip hstake.wholeDigits hlen', ← hstake.units]
      exact hbelow

/-! ## The sizer of the start -/

theorem paramsAmount_of_parse {field : String} {text : DecimalString} {value : ℤ}
    (h : parseAmount text = some value) : paramsAmount field text = .ok value := by
  rw [paramsAmount, h]

/-- The limits of a session, read against its base stake. -/
structure LimitsRead (base : ℤ) (parsed : ParsedLimits) : Prop where
  steps : 2 ≤ parsed.limits.maxSteps
  maxStake : parseAmount parsed.limits.maxStake = some parsed.maxStake
  maxSessionLoss : parseAmount parsed.limits.maxSessionLoss = some parsed.maxSessionLoss
  stake : base ≤ parsed.maxStake
  loss : base ≤ parsed.maxSessionLoss
  duration : 1 ≤ parsed.limits.maxSessionDurationMs

theorem LimitsRead.accepted {base : ℤ} {parsed : ParsedLimits} (h : LimitsRead base parsed)
    (baseStake : DecimalString) :
    assertMartingaleLimits base baseStake parsed.limits = .ok () := by
  unfold assertMartingaleLimits
  simp only [not_lt.mpr h.steps, not_lt.mpr h.stake, not_lt.mpr h.loss, not_lt.mpr h.duration, if_false,
    paramsAmount_of_parse h.maxStake, paramsAmount_of_parse h.maxSessionLoss, bind, Except.bind]
  rfl

/-- The parameters of a start: a positive base stake on its grid. -/
structure BaseRead (params : StakeParams) (base : ℤ) : Prop where
  scale : ScaleOk params.stakeScale
  parsed : parseAmount params.baseStake = some base
  positive : 0 < base
  grid : gridUnit params.stakeScale ∣ base

theorem BaseRead.floored {params : StakeParams} {base : ℤ} (h : BaseRead params base) :
    floorToScale base params.stakeScale = .ok base := by
  rw [floorToScale_ok h.positive.le h.scale, Int.ediv_mul_cancel h.grid]

theorem BaseRead.asserted {params : StakeParams} {base : ℤ} (h : BaseRead params base) :
    assertStakeParams params =
      match params.strategy with
      | .fixed => .ok ()
      | .martingale limits => assertMartingaleLimits base params.baseStake limits := by
  have hscale : ¬ (params.stakeScale < 0 ∨ (amountScale : ℤ) < params.stakeScale) := by
    obtain ⟨h₀, h₈⟩ := h.scale
    omega
  unfold assertStakeParams
  simp only [hscale, if_false, paramsAmount_of_parse h.parsed, not_le.mpr h.positive, h.floored, ne_eq,
    not_true, bind, Except.bind]
  rfl

theorem createStakeSizer_fixed {params : StakeParams} {base : ℤ} (h : BaseRead params base)
    (hfixed : params.strategy = .fixed) :
    createStakeSizer params = .ok { version := stakeAlgorithmVersion, params, base, martingale := none } := by
  have hassert := h.asserted
  rw [hfixed] at hassert
  unfold createStakeSizer
  rw [hassert, requireAmount_ok h.parsed, hfixed]
  rfl

theorem createStakeSizer_martingale {params : StakeParams} {base : ℤ} {parsed : ParsedLimits}
    (h : BaseRead params base) (hmartingale : params.strategy = .martingale parsed.limits) (hlimits : LimitsRead base parsed) :
    createStakeSizer params =
      .ok { version := stakeAlgorithmVersion, params, base, martingale := some parsed } := by
  have hassert := h.asserted
  rw [hmartingale] at hassert
  have hok : assertStakeParams params = .ok () := hassert.trans (hlimits.accepted _)
  unfold createStakeSizer
  rw [hok, requireAmount_ok h.parsed, hmartingale]
  simp only [requireAmount_ok hlimits.maxStake, requireAmount_ok hlimits.maxSessionLoss]
  rfl

/-! ## The first answer -/

/-- The input of a session's first trade: no trade yet, the account's minimum, a valid payout, and a balance
of at least the base stake. -/
structure FirstInput (minTradeAmount : DecimalString) (base : ℤ) (input : StakeInput) : Prop where
  history : input.history = []
  minTradeAmount : input.minTradeAmount = minTradeAmount
  payout : ∃ scaled, parsePayout input.payout = some scaled
  available : ∃ available, parseAmount input.available = some available ∧ base ≤ available

/-- The time since the session's start, on a valid clock. -/
structure ElapsedMs (input : StakeInput) (elapsed : ℚ) : Prop where
  clock : ∃ started now : ℚ, input.sessionStartedAtMs = .finite started ∧ input.nowMs = .finite now ∧
    0 ≤ started ∧ started ≤ now ∧ elapsed = now - started

theorem assertClock_elapsed {input : StakeInput} {elapsed : ℚ} (h : ElapsedMs input elapsed) :
    ∃ started now, assertClock input.sessionStartedAtMs input.nowMs = .ok (started, now) ∧
      elapsed = now - started := by
  obtain ⟨started, now, hs, hn, h₀, hle, helapsed⟩ := h.clock
  refine ⟨started, now, ?_, helapsed⟩
  rw [hs, hn]
  unfold assertClock assertTime
  simp only [not_lt.mpr h₀, not_lt.mpr (h₀.trans hle), not_lt.mpr hle, if_false, bind, Except.bind]
  rfl

/-- What the first stake passes: the limits of a martingale session, and its hour. -/
structure PassesLimits (sizer : StakeSizer) (elapsed : ℚ) (parsed : ParsedLimits) : Prop where
  read : LimitsRead sizer.base parsed
  duration : elapsed ≤ parsed.limits.maxSessionDurationMs

/-- The account's checks pass the base stake and print it. -/
theorem accountCheck_base {sizer : StakeSizer} {input : StakeInput} {balance : ℤ × ℤ}
    {features : StakeFeatures} (hbase : BaseRead sizer.params sizer.base) (hlow : balance.1 ≤ sizer.base)
    (hhigh : sizer.base ≤ balance.2) :
    ∃ amount, sizer.accountCheck input balance features sizer.base =
      .ok (.stake sizer.version amount features) ∧ parseAmount amount = some sizer.base := by
  obtain ⟨amount, hprint, hread⟩ := formatStake_ok hbase.positive.le hbase.scale hbase.grid
  refine ⟨amount, ?_, hread (parseAmount_lt hbase.parsed)⟩
  unfold StakeSizer.accountCheck
  simp only [not_lt.mpr hlow, gt_iff_lt, not_lt.mpr hhigh, if_false, hprint, bind, Except.bind]
  rfl

/-- The ledger of a session without a trade. -/
def freshLedger : StakeLedger where
  settledTrades := 0
  consecutiveLosses := 0
  streakLoss := 0
  realizedSessionLoss := 0

theorem features_fresh (sizer : StakeSizer) (elapsed : ℚ) :
    ∃ features, sizer.features freshLedger elapsed = .ok features ∧ features.step = 1 ∧
      features.sessionElapsedMs = elapsed := by
  have hzero : formatAmount 0 = .ok ['0'] := by decide
  have hstep : sizer.step freshLedger = 1 := by
    unfold StakeSizer.step
    split <;> rfl
  unfold StakeSizer.features
  simp only [freshLedger, hzero, bind, Except.bind]
  exact ⟨_, rfl, hstep, rfl⟩

/-- The limits let the base stake through. -/
theorem martingaleCandidate_first {sizer : StakeSizer} {parsed : ParsedLimits} {input : StakeInput}
    {features : StakeFeatures} {scaled : ℤ} (hstep : features.step = 1)
    (hpayout : parsePayout input.payout = some scaled) (h : PassesLimits sizer features.sessionElapsedMs parsed) :
    sizer.martingaleCandidate parsed input freshLedger features = .ok (.ok sizer.base) := by
  obtain ⟨hlimits, hduration⟩ := h
  have hsteps : ¬ (parsed.limits.maxSteps < ((1 : ℕ) : ℤ)) := by
    have htwo := hlimits.steps
    omega
  have hloss : ¬ (parsed.maxSessionLoss < freshLedger.realizedSessionLoss + sizer.base) := by
    show ¬ (parsed.maxSessionLoss < 0 + sizer.base)
    rw [zero_add]
    exact not_lt.mpr hlimits.loss
  have hfirst : sizer.stepStake freshLedger 1 scaled = .ok sizer.base := rfl
  unfold StakeSizer.martingaleCandidate
  simp only [gt_iff_lt, hstep, hsteps, hpayout, hfirst, not_lt.mpr hduration, not_lt.mpr hlimits.stake, hloss,
    if_false, bind, Except.bind]
  rfl

/-- **The first answer of a sizer is its base stake.** -/
theorem firstStake {sizer : StakeSizer} {minimum : ℤ} {input : StakeInput} {elapsed : ℚ}
    (hbase : BaseRead sizer.params sizer.base) (hmin : parseAmount input.minTradeAmount = some minimum)
    (h₀ : 0 ≤ minimum) (hle : minimum ≤ sizer.base)
    (hinput : FirstInput input.minTradeAmount sizer.base input)
    (helapsed : ElapsedMs input elapsed)
    (hlimits : ∀ parsed, sizer.martingale = some parsed → PassesLimits sizer elapsed parsed) :
    ∃ amount features, sizer.next input = .ok (.stake sizer.version amount features) ∧
      parseAmount amount = some sizer.base := by
  obtain ⟨started, now, hclock, rfl⟩ := assertClock_elapsed helapsed
  obtain ⟨available, havailable, hhigh⟩ := hinput.available
  obtain ⟨scaled, hpayout⟩ := hinput.payout
  have hbalance : readBalance input = .ok (minimum, available) := by
    unfold readBalance
    simp only [hmin, havailable, not_lt.mpr h₀, not_lt.mpr (hbase.positive.le.trans hhigh), if_false]
  have hhistory : readHistory input.history = .ok freshLedger := by
    rw [hinput.history]
    rfl
  obtain ⟨features, hfeatures, hstep, hduration⟩ := features_fresh sizer (now - started)
  obtain ⟨amount, hcheck, hread⟩ :=
    @accountCheck_base sizer input (minimum, available) features hbase hle hhigh
  refine ⟨amount, features, ?_, hread⟩
  unfold StakeSizer.next
  simp only [hclock, hhistory, hbalance, hfeatures, bind, Except.bind]
  cases hmartingale : sizer.martingale with
  | none => exact hcheck
  | some parsed =>
    have hpasses := hlimits parsed hmartingale
    rw [← hduration] at hpasses
    simp only [martingaleCandidate_first hstep hpayout hpasses]
    exact hcheck

/-! ## The start -/

/-- What the schema accepted of the stake. -/
theorem settingsV5Schema_stake {settings : SettingsV5} (h : settingsV5Schema settings = true) :
    strategyStakeSchema settings.stake = true := by
  simp only [settingsV5Schema, Bool.and_eq_true] at h
  exact h.1.2

/-- The limits of a base stake are read as its multiples. -/
theorem martingaleLimitsFor_read {base : DecimalString} {whole fraction : List Char}
    (h : Plain base whole fraction) (hpos : 0 < amountOf whole fraction) {limits : MartingaleLimits}
    (hlimits : martingaleLimitsFor base = .ok limits) (hschema : martingaleLimitsSchema limits = true) :
    ∃ parsed, parsed.limits = limits ∧ LimitsRead (amountOf whole fraction) parsed ∧
      parsed.limits.maxSessionDurationMs = sessionMaxDurationMs := by
  obtain ⟨stakeText, w, f, hstake, hstakePlain, hstakeAmount⟩ :=
    @multiplyDecimal_plain _ _ _ h martingaleMaxStakeMultiplier (by decide)
  obtain ⟨lossText, w', f', hloss, hlossPlain, hlossAmount⟩ :=
    @multiplyDecimal_plain _ _ _ h martingaleMaxSessionLossMultiplier (by decide)
  unfold martingaleLimitsFor at hlimits
  simp only [hstake, hloss, bind, Except.bind] at hlimits
  obtain rfl := (Except.ok.inj hlimits).symm
  simp only [martingaleLimitsSchema, Bool.and_eq_true] at hschema
  obtain ⟨⟨⟨⟨-, hstakeOk⟩, hlossOk⟩, -⟩, -⟩ := hschema
  have hstakeRead := (hstakePlain.parse_of_isTradeAmount hstakeOk).1
  have hlossRead := (hlossPlain.parse_of_isTradeAmount hlossOk).1
  have hstakeMul : martingaleMaxStakeMultiplier = 12 := rfl
  have hlossMul : martingaleMaxSessionLossMultiplier = 20 := rfl
  rw [hstakeAmount, hstakeMul] at hstakeRead
  rw [hlossAmount, hlossMul] at hlossRead
  exact ⟨{ limits := _, maxStake := _, maxSessionLoss := _ }, rfl,
    { steps := show (2 : ℤ) ≤ 4 by decide
      maxStake := hstakeRead
      maxSessionLoss := hlossRead
      stake := show amountOf whole fraction ≤ amountOf whole fraction * 12 by omega
      loss := show amountOf whole fraction ≤ amountOf whole fraction * 20 by omega
      duration := show (1 : ℤ) ≤ 3600000 by decide }, rfl⟩

theorem sessionStakeOf_ok {stake : SessionStake} {strategy : SessionStakeStrategy} {params : StakeParams}
    (h : sessionStakeOf stake strategy = .ok params) :
    params.baseStake = stake.baseStake ∧ params.stakeScale = stake.stakeScale ∧
      (strategy = .fixed ∧ params.strategy = .fixed ∨
        strategy = .martingale ∧ ∃ limits, martingaleLimitsFor stake.baseStake = .ok limits ∧
          params.strategy = .martingale limits) := by
  cases strategy with
  | fixed =>
    obtain rfl := Except.ok.inj h
    exact ⟨rfl, rfl, .inl ⟨rfl, rfl⟩⟩
  | martingale =>
    unfold sessionStakeOf at h
    cases hlimits : martingaleLimitsFor stake.baseStake with
    | error e =>
      simp only [hlimits, bind, Except.bind] at h
      exact nomatch h
    | ok limits =>
      simp only [hlimits, bind, Except.bind] at h
      obtain rfl := Except.ok.inj h
      exact ⟨rfl, rfl, .inr ⟨rfl, limits, rfl, rfl⟩⟩

/-- The accepted settings of a start, from its stake. -/
theorem buildH1SessionSettings_ok {input : H1SessionInput} {settings : SettingsV5}
    (h : buildH1SessionSettings input = .ok (some settings)) :
    sessionStakeOf input.stake input.strategy = .ok settings.stake ∧ settingsV5Schema settings = true := by
  unfold buildH1SessionSettings at h
  cases hparams : sessionStakeOf input.stake input.strategy with
  | error e =>
    simp only [hparams, bind, Except.bind] at h
    exact nomatch h
  | ok params =>
    simp only [hparams, bind, Except.bind] at h
    have hsome := Except.ok.inj h
    split_ifs at hsome with hschema
    obtain rfl := (Option.some.inj hsome).symm
    exact ⟨rfl, hschema⟩

/-- **A session that starts can place its first trade.**  The settings the schema accepts make a sizer, and
its first answer inside the session's hour is the base stake; a fixed stake asks for no hour. -/
theorem first_trade {minTradeAmount : DecimalString} {saved : Option DecimalString} {assetId cycles : ℤ}
    {strategy : SessionStakeStrategy} {settings : SettingsV5} (hmin : NumericText minTradeAmount)
    (hpos : 0 < units minTradeAmount) (hsaved : StartsWith minTradeAmount saved)
    (hbuild : (do
      let stake ← stakeSettingsFrom saved minTradeAmount
      buildH1SessionSettings { assetId, cycles, stake, strategy }) = .ok (some settings)) :
    ∃ sizer base, createStakeSizer (sessionStakeParams settings.h1) = .ok sizer ∧
      parseAmount settings.stake.baseStake = some base ∧
      ∀ input elapsed, FirstInput minTradeAmount base input → ElapsedMs input elapsed →
        (strategy = .martingale → elapsed ≤ sessionMaxDurationMs) →
        ∃ amount features, sizer.next input = .ok (.stake stakeAlgorithmVersion amount features) ∧
          parseAmount amount = some base := by
  obtain ⟨wholeMin, fractionMin, hplain, hwlen, hflen⟩ := hmin.plain hpos
  have hminRead := hplain.parse hwlen hflen
  rw [← hplain.units] at hminRead
  obtain ⟨stake, whole, fraction, hstake, hgood⟩ := stakeSettingsFrom_startStake hmin hpos hsaved
  simp only [hstake, bind, Except.bind] at hbuild
  obtain ⟨hparams, hschema⟩ := buildH1SessionSettings_ok hbuild
  have hschema := settingsV5Schema_stake hschema
  simp only [strategyStakeSchema, Bool.and_eq_true] at hschema
  obtain ⟨⟨hamount, -⟩, hlimitsOk⟩ := hschema
  obtain ⟨hbaseStake, hscale, hstrategy⟩ := sessionStakeOf_ok hparams
  rw [hbaseStake] at hamount
  obtain ⟨hread, hbasePos⟩ := hgood.plain.parse_of_isTradeAmount hamount
  have hbase : BaseRead settings.stake (amountOf whole fraction) := by
    refine ⟨?_, ?_, hbasePos, ?_⟩
    · rw [hscale]
      exact hgood.scale
    · rw [hbaseStake]
      exact hread
    · rw [hscale]
      exact hgood.grid
  rcases hstrategy with ⟨-, hfixed⟩ | ⟨hmartingale, limits, hlimits, hparamsMartingale⟩
  · refine ⟨_, _, createStakeSizer_fixed hbase hfixed, hbase.parsed,
      fun input elapsed hinput helapsed _ => ?_⟩
    have hmin' : parseAmount input.minTradeAmount = some (units minTradeAmount) := by
      rw [hinput.minTradeAmount]
      exact hminRead
    rw [← hinput.minTradeAmount] at hinput
    exact firstStake hbase hmin' hpos.le hgood.minimum hinput helapsed (fun _ hnone => nomatch hnone)
  · rw [hparamsMartingale] at hlimitsOk
    obtain ⟨parsed, rfl, hlimitsRead, hduration⟩ :=
      martingaleLimitsFor_read hgood.plain hbasePos hlimits hlimitsOk
    refine ⟨_, _, createStakeSizer_martingale hbase hparamsMartingale hlimitsRead, hbase.parsed,
      fun input elapsed hinput helapsed hour => ?_⟩
    have hmin' : parseAmount input.minTradeAmount = some (units minTradeAmount) := by
      rw [hinput.minTradeAmount]
      exact hminRead
    rw [← hinput.minTradeAmount] at hinput
    refine firstStake hbase hmin' hpos.le hgood.minimum hinput helapsed (fun parsed' hparsed => ?_)
    obtain rfl := Option.some.inj hparsed
    refine ⟨hlimitsRead, ?_⟩
    rw [hduration]
    exact hour hmartingale

/-! ### A minimum of one -/

def oneMinimum : DecimalString := "1.00000000".toList

def oneSettings : SettingsV5 where
  version := 5
  assetId := 7
  durationSec := 5
  cycles := 3
  stake := {
    baseStake := "1".toList
    stakeScale := 0
    strategy := .martingale
      { maxSteps := 4, maxStake := "12".toList, maxSessionLoss := "20".toList
        maxSessionDurationMs := 3600000 } }
  signal := { kind := "h1", params := h1R1Params, entryDelaySec := 1, expirySec := 5 }

/-- A first call, so long after the start. -/
def oneInput (elapsedMs : ℚ) : StakeInput where
  history := []
  payout := "92".toList
  minTradeAmount := oneMinimum
  available := "50.00000000".toList
  sessionStartedAtMs := .finite 0
  nowMs := .finite elapsedMs

theorem oneMinimum_numeric : NumericText oneMinimum := by
  refine ⟨[], ['1'], List.replicate 8 '0', by decide, .inl rfl, by decide, fun c hc => ?_, by decide,
    fun c hc => ?_, by decide⟩
  · rw [List.mem_singleton.mp hc]
    rfl
  · rw [List.eq_of_mem_replicate hc]
    rfl

theorem oneSettings_built : (do
    let stake ← stakeSettingsFrom none oneMinimum
    buildH1SessionSettings { assetId := 7, cycles := 3, stake, strategy := .martingale }) =
      .ok (some oneSettings) := by decide +kernel

theorem oneInput_first (elapsedMs : ℚ) : FirstInput oneMinimum 100000000 (oneInput elapsedMs) where
  history := rfl
  minTradeAmount := rfl
  payout := ⟨920000, show parsePayout "92".toList = some 920000 by decide +kernel⟩
  available :=
    ⟨5000000000, show parseAmount "50.00000000".toList = some 5000000000 by decide +kernel, by decide⟩

theorem first_trade_one : ∃ sizer amount features,
    createStakeSizer (sessionStakeParams oneSettings.h1) = .ok sizer ∧
      sizer.next (oneInput 1000) = .ok (.stake stakeAlgorithmVersion amount features) ∧
      parseAmount amount = some 100000000 := by
  obtain ⟨sizer, base, hsizer, hbase, hfirst⟩ :=
    first_trade oneMinimum_numeric (by decide +kernel) (startsWith_none _) oneSettings_built
  obtain rfl : (100000000 : ℤ) = base := Option.some.inj ((by decide +kernel :
    some (100000000 : ℤ) = parseAmount oneSettings.stake.baseStake).trans hbase)
  obtain ⟨amount, features, hnext, hamount⟩ := hfirst (oneInput 1000) 1000 (oneInput_first 1000)
    ⟨0, 1000, rfl, rfl, le_refl _, by norm_num, by norm_num⟩
    (fun _ => by rw [sessionMaxDurationMs]; norm_num)
  exact ⟨sizer, amount, features, hsizer, hnext, hamount⟩

/-- The first call an hour after the start stops: the hour is the session's. -/
theorem first_trade_late : ∃ sizer features,
    createStakeSizer (sessionStakeParams oneSettings.h1) = .ok sizer ∧
      FirstInput oneMinimum 100000000 (oneInput 3600001) ∧
      parseAmount oneSettings.stake.baseStake = some 100000000 ∧
      (do
        let stake ← stakeSettingsFrom none oneMinimum
        buildH1SessionSettings { assetId := 7, cycles := 3, stake, strategy := .martingale }) =
          .ok (some oneSettings) ∧
      sizer.next (oneInput 3600001) =
        .ok (.limitStop stakeAlgorithmVersion features (.sessionDurationExceeded 3600001 3600000)) := by
  refine ⟨{ version := stakeAlgorithmVersion, params := oneSettings.stake, base := 100000000
            martingale := some {
              limits := { maxSteps := 4, maxStake := "12".toList, maxSessionLoss := "20".toList
                          maxSessionDurationMs := 3600000 }
              maxStake := 1200000000, maxSessionLoss := 2000000000 } },
    { strategy := oneSettings.stake.strategy, step := 1, consecutiveLosses := 0, streakLoss := ['0']
      realizedSessionLoss := ['0'], settledTrades := 0, sessionElapsedMs := 3600001, baseStake := ['1'] },
    ?_, oneInput_first 3600001, ?_, oneSettings_built, ?_⟩
  · decide +kernel
  · decide +kernel
  · decide +kernel

end Binarius
