import Mathlib.Tactic
import Binarius.Shared.SessionSettings
import Binarius.Shared.Postback

/-!
# Shared.StakeSettings — the stake an H1 session starts with (packages/shared: stake.ts, trading-session.ts)

An object the schema reads has integers where the source has numbers; the schema asks for integers.

* `stakeSettingsFrom`: the base stake and its scale, from the saved stake or from the broker's minimum.
* `martingaleLimitsFor`: the limits, multiples of the base stake.
* `buildH1SessionSettings`: the settings, when the schema accepts them.
-/

namespace Binarius

inductive SessionStakeStrategy
  | fixed
  | martingale
  deriving DecidableEq, Repr

/-! ## Multiples of an amount (stake.ts) -/

/-- `BigInt.toString()`. -/
def bigIntString (value : ℤ) : List Char :=
  if value < 0 then '-' :: bigIntText value.natAbs else bigIntText value.natAbs

def unitScale : ℤ := 10 ^ numericFractionDigits

/-- The division of a `BigInt` truncates; its remainder has the dividend's sign. -/
def fromUnits (value : ℤ) : Except StakeError DecimalString :=
  let integer := value.tdiv unitScale
  let fraction := padStart numericFractionDigits (bigIntString (value.tmod unitScale))
  parseDecimalString (normalizeDecimal (bigIntString integer ++ '.' :: fraction))

def multiplyDecimal (amount : DecimalString) (k : ℤ) : Except StakeError DecimalString :=
  fromUnits (units amount * k)

/-! ## The stake of a session (trading-session.ts) -/

structure SessionStake where
  baseStake : DecimalString
  stakeScale : ℤ
  deriving DecidableEq, Repr

/-- The broker's minimum, and its own fraction length as the scale. -/
def stakeSettingsFor (minTradeAmount : DecimalString) : Except StakeError SessionStake := do
  let canonical := normalizeDecimal minTradeAmount
  let fraction := (splitDecimal canonical).2
  return { baseStake := ← parseDecimalString canonical, stakeScale := fraction.length }

/-- A saved stake takes the minimum's grid. -/
def stakeSettingsFrom (stake : Option DecimalString) (minTradeAmount : DecimalString) :
    Except StakeError SessionStake :=
  match stake with
  | none => stakeSettingsFor minTradeAmount
  | some stake => do
    return { baseStake := ← parseDecimalString (normalizeDecimal stake)
             stakeScale := stakeScale minTradeAmount }

def sessionMaxDurationMs : ℤ := 3600000

def martingaleMaxSteps : ℤ := 4
def martingaleMaxStakeMultiplier : ℤ := 12
def martingaleMaxSessionLossMultiplier : ℤ := 20

def martingaleLimitsFor (baseStake : DecimalString) : Except StakeError MartingaleLimits := do
  return { maxSteps := martingaleMaxSteps
           maxStake := ← multiplyDecimal baseStake martingaleMaxStakeMultiplier
           maxSessionLoss := ← multiplyDecimal baseStake martingaleMaxSessionLossMultiplier
           maxSessionDurationMs := sessionMaxDurationMs }

/-! ## Settings, version 5 -/

structure H1Params where
  moveSec : ℤ
  sdWindowSec : ℤ
  sdStepSec : ℤ
  threshold : ℚ
  deriving DecidableEq, Repr

def h1R1Params : H1Params where
  moveSec := 3
  sdWindowSec := 300
  sdStepSec := 5
  threshold := 1

structure H1SessionSignal where
  kind : String
  params : H1Params
  entryDelaySec : ℤ
  expirySec : ℤ
  deriving DecidableEq, Repr

structure SettingsV5 where
  version : ℤ
  assetId : ℤ
  durationSec : ℤ
  cycles : ℤ
  stake : StakeParams
  signal : H1SessionSignal
  deriving DecidableEq, Repr

def h1SessionSettingsVersion : ℤ := 5
def h1SessionSignalKind : String := "h1"
def h1EntryWindowSecFrom : ℤ := 1
def maxSessionCycles : ℤ := 20
def maxStakeScale : ℤ := 8
def int4Max : ℤ := 2147483647

/-- What `z.int()` accepts. -/
def isSafeInteger (n : ℤ) : Bool := decide (-9007199254740991 ≤ n ∧ n ≤ 9007199254740991)

/-- An amount of trade_intents: positive, inside numeric(20,8). -/
def isTradeAmount (value : DecimalString) : Bool := isNumericDomainDecimal value

def martingaleLimitsSchema (limits : MartingaleLimits) : Bool :=
  isSafeInteger limits.maxSteps && decide (2 ≤ limits.maxSteps) &&
    isTradeAmount limits.maxStake && isTradeAmount limits.maxSessionLoss &&
    isSafeInteger limits.maxSessionDurationMs && decide (1 ≤ limits.maxSessionDurationMs)

def strategyStakeSchema (stake : StakeParams) : Bool :=
  isTradeAmount stake.baseStake && decide (0 ≤ stake.stakeScale ∧ stake.stakeScale ≤ maxStakeScale) &&
    match stake.strategy with
    | .fixed => true
    | .martingale limits => martingaleLimitsSchema limits

def h1ParamsSchema (params : H1Params) : Bool :=
  isSafeInteger params.moveSec && decide (0 < params.moveSec) &&
    isSafeInteger params.sdWindowSec && decide (0 < params.sdWindowSec) &&
    isSafeInteger params.sdStepSec && decide (0 < params.sdStepSec) && decide (0 < params.threshold)

def h1SessionSignalSchema (signal : H1SessionSignal) : Bool :=
  decide (signal.kind = h1SessionSignalKind) && h1ParamsSchema signal.params &&
    isSafeInteger signal.entryDelaySec && decide (1 ≤ signal.entryDelaySec) &&
    decide (signal.expirySec = h1ExpirySec)

def settingsV5Schema (settings : SettingsV5) : Bool :=
  decide (settings.version = h1SessionSettingsVersion) &&
    decide (0 < settings.assetId ∧ settings.assetId ≤ int4Max) &&
    decide (h1ExpirySec ≤ settings.durationSec ∧ settings.durationSec ≤ h1ExpirySec) &&
    decide (1 ≤ settings.cycles ∧ settings.cycles ≤ maxSessionCycles) &&
    strategyStakeSchema settings.stake && h1SessionSignalSchema settings.signal

structure H1SessionInput where
  assetId : ℤ
  cycles : ℤ
  stake : SessionStake
  strategy : SessionStakeStrategy
  deriving DecidableEq, Repr

/-- The stake of the settings: martingale has the default limits. -/
def sessionStakeOf (stake : SessionStake) : SessionStakeStrategy → Except StakeError StakeParams
  | .martingale => do
    return { baseStake := stake.baseStake, stakeScale := stake.stakeScale
             strategy := .martingale (← martingaleLimitsFor stake.baseStake) }
  | .fixed => return { baseStake := stake.baseStake, stakeScale := stake.stakeScale, strategy := .fixed }

/-- The settings of an H1 session; none where the schema refuses them. -/
def buildH1SessionSettings (input : H1SessionInput) : Except StakeError (Option SettingsV5) := do
  let settings : SettingsV5 := {
    version := h1SessionSettingsVersion
    assetId := input.assetId
    durationSec := h1ExpirySec
    cycles := input.cycles
    stake := ← sessionStakeOf input.stake input.strategy
    signal := {
      kind := h1SessionSignalKind
      params := h1R1Params
      entryDelaySec := h1EntryWindowSecFrom
      expirySec := h1ExpirySec } }
  return if settingsV5Schema settings then some settings else none

/-- The settings as their readers take them. -/
def SettingsV5.h1 (settings : SettingsV5) : H1SessionSettings where
  assetId := settings.assetId.toNat
  durationSec := settings.durationSec.toNat
  length := .cycles settings.cycles.toNat
  stake := settings.stake
  entryDelaySec := settings.signal.entryDelaySec.toNat
  expirySec := settings.signal.expirySec.toNat

end Binarius
