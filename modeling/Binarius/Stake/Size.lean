import Mathlib.Tactic
import Binarius.Shared.Trading
import Binarius.Stake.Money

/-!
# Stake.Size — the stake sizer (packages/stake/src: config.ts, size.ts, history.ts)

Integers of the source are integers here: a number that is not one is refused by the checks that read
it.  The clock is a JavaScript number, finite or not.

* `createStakeSizer`, `StakeSizer.next`: the sizer and its decision.
* `StakeSizer.Valid`: **what `assertStakeParams` promises of a martingale sizer**, a structure of its own.
-/

namespace Binarius

inductive TradeProblem
  | nonPositiveStake
  | lossExceedsStake
  deriving DecidableEq, Repr

inductive AmountField
  | historyStake (index : ℕ)
  | historyProfit (index : ℕ)
  | minTradeAmount
  | available
  deriving DecidableEq, Repr

/-! ## Parameters (config.ts) -/

def stakeAlgorithmVersion : String := "v1"

structure MartingaleLimits where
  maxSteps : ℤ
  maxStake : DecimalString
  maxSessionLoss : DecimalString
  maxSessionDurationMs : ℤ
  deriving DecidableEq, Repr

inductive StakeStrategy
  | fixed
  | martingale (limits : MartingaleLimits)
  deriving DecidableEq, Repr

structure StakeParams where
  baseStake : DecimalString
  stakeScale : ℤ
  strategy : StakeStrategy
  deriving DecidableEq, Repr

def failParams {α : Type} (field rule value : String) : Except StakeError α :=
  .error ⟨s!"stake params: {field} must be {rule}, got {value}"⟩

def paramsAmount (field : String) (value : DecimalString) : Except StakeError ℤ :=
  match parseAmount value with
  | none => failParams field "a decimal string with at most 12 integer and 8 fractional digits"
      (String.ofList value)
  | some parsed => .ok parsed

def assertMartingaleLimits (base : ℤ) (baseStake : DecimalString) (limits : MartingaleLimits) :
    Except StakeError Unit := do
  if limits.maxSteps < 2 then
    failParams "limits.maxSteps" "an integer >= 2" (toString limits.maxSteps)
  if (← paramsAmount "limits.maxStake" limits.maxStake) < base then
    failParams "limits.maxStake" s!">= baseStake ({String.ofList baseStake})" (String.ofList limits.maxStake)
  if (← paramsAmount "limits.maxSessionLoss" limits.maxSessionLoss) < base then
    failParams "limits.maxSessionLoss" s!">= baseStake ({String.ofList baseStake})"
      (String.ofList limits.maxSessionLoss)
  if limits.maxSessionDurationMs < 1 then
    failParams "limits.maxSessionDurationMs" "an integer >= 1" (toString limits.maxSessionDurationMs)

def assertStakeParams (params : StakeParams) : Except StakeError Unit := do
  if params.stakeScale < 0 ∨ (amountScale : ℤ) < params.stakeScale then
    failParams "stakeScale" s!"an integer in [0, {amountScale}]" (toString params.stakeScale)
  let base ← paramsAmount "baseStake" params.baseStake
  if base ≤ 0 then failParams "baseStake" "> 0" (String.ofList params.baseStake)
  if (← floorToScale base params.stakeScale) ≠ base then
    failParams "baseStake" s!"at most {params.stakeScale} significant fractional digits"
      (String.ofList params.baseStake)
  match params.strategy with
  | .fixed => return ()
  | .martingale limits => assertMartingaleLimits base params.baseStake limits

/-! ## The decision (size.ts) -/

inductive SessionTrade
  | settled (stake profit : DecimalString)
  | rejected
  | unresolved
  deriving DecidableEq, Repr

/-- A JavaScript number of a clock: a finite one, or one that is not, as its text. -/
inductive ClockNumber
  | finite (value : ℚ)
  | notFinite (text : String)
  deriving DecidableEq, Repr

structure StakeInput where
  history : List SessionTrade
  payout : List Char
  minTradeAmount : DecimalString
  available : DecimalString
  sessionStartedAtMs : ClockNumber
  nowMs : ClockNumber
  deriving DecidableEq, Repr

structure StakeFeatures where
  strategy : StakeStrategy
  step : ℕ
  consecutiveLosses : ℕ
  streakLoss : DecimalString
  realizedSessionLoss : DecimalString
  settledTrades : ℕ
  sessionElapsedMs : ℚ
  baseStake : DecimalString
  deriving DecidableEq, Repr

inductive LimitStop
  | sessionDurationExceeded (sessionElapsedMs : ℚ) (maxSessionDurationMs : ℤ)
  | maxStepsExceeded (step : ℕ) (maxSteps : ℤ)
  | maxStakeExceeded (amount maxStake : DecimalString)
  | maxSessionLossExceeded (amount realizedSessionLoss maxSessionLoss : DecimalString)
  | belowMinTradeAmount (amount minTradeAmount : DecimalString)
  | insufficientBalance (amount available : DecimalString)
  deriving DecidableEq, Repr

inductive DataStop
  | unresolvedTrade (index : ℕ)
  | invalidAmount (field : AmountField)
  | invalidTrade (index : ℕ) (problem : TradeProblem)
  | invalidPayout (payout : List Char)
  deriving DecidableEq, Repr

inductive StakeDecision
  | stake (version : String) (amount : DecimalString) (features : StakeFeatures)
  | limitStop (version : String) (features : StakeFeatures) (stop : LimitStop)
  | dataStop (version : String) (stop : DataStop)
  deriving DecidableEq, Repr

def ClockNumber.text : ClockNumber → String
  | finite value => toString value
  | notFinite text => text

/-- One time of the clock: finite and not negative. -/
def assertTime (name : String) (value : ClockNumber) : Except StakeError ℚ :=
  let refuse := .error ⟨s!"stake clock: {name} must be finite and >= 0, got {value.text}"⟩
  match value with
  | .finite q => if q < 0 then refuse else .ok q
  | .notFinite _ => refuse

/-- The clock's two times, once they are checked. -/
def assertClock (sessionStartedAtMs nowMs : ClockNumber) : Except StakeError (ℚ × ℚ) := do
  let started ← assertTime "sessionStartedAtMs" sessionStartedAtMs
  let now ← assertTime "nowMs" nowMs
  if now < started then
    throw ⟨s!"stake clock: nowMs ({now}) must be >= sessionStartedAtMs ({started})"⟩
  return (started, now)

/-- The fold of the settled trades. -/
structure HistoryFold where
  settledTrades : ℕ := 0
  consecutiveLosses : ℕ := 0
  streakLoss : ℤ := 0
  net : ℤ := 0
  deriving DecidableEq, Repr

structure StakeLedger where
  settledTrades : ℕ
  consecutiveLosses : ℕ
  streakLoss : ℤ
  realizedSessionLoss : ℤ
  deriving DecidableEq, Repr

/-- Ties neither extend nor end the streak; a win of any size ends it. -/
def HistoryFold.add (fold : HistoryFold) (profit : ℤ) : HistoryFold where
  settledTrades := fold.settledTrades + 1
  net := fold.net + profit
  consecutiveLosses :=
    if 0 < profit then 0 else if profit < 0 then fold.consecutiveLosses + 1 else fold.consecutiveLosses
  streakLoss := if 0 < profit then 0 else if profit < 0 then fold.streakLoss - profit else fold.streakLoss

/-- One trade of the history, in creation order. -/
def readTrade (fold : HistoryFold) (entry : SessionTrade × ℕ) : Except DataStop HistoryFold :=
  match entry.1 with
  | .rejected => .ok fold
  | .unresolved => .error (.unresolvedTrade entry.2)
  | .settled stakeText profitText =>
    match parseAmount stakeText with
    | none => .error (.invalidAmount (.historyStake entry.2))
    | some stake =>
      match parseAmount profitText with
      | none => .error (.invalidAmount (.historyProfit entry.2))
      | some profit =>
        if stake ≤ 0 then .error (.invalidTrade entry.2 .nonPositiveStake)
        else if profit < -stake then .error (.invalidTrade entry.2 .lossExceedsStake)
        else .ok (fold.add profit)

/-- The loop over the history. -/
def foldHistory (history : List SessionTrade) : Except DataStop HistoryFold :=
  history.zipIdx.foldlM readTrade {}

def HistoryFold.ledger (fold : HistoryFold) : StakeLedger where
  settledTrades := fold.settledTrades
  consecutiveLosses := fold.consecutiveLosses
  streakLoss := fold.streakLoss
  realizedSessionLoss := if fold.net < 0 then -fold.net else 0

/-- The first unusable trade, or the session's ledger. -/
def readHistory (history : List SessionTrade) : Except DataStop StakeLedger :=
  (foldHistory history).map HistoryFold.ledger

/-- The two amounts of the account: the broker's minimum and the balance. -/
def readBalance (input : StakeInput) : Except DataStop (ℤ × ℤ) :=
  match parseAmount input.minTradeAmount with
  | none => .error (.invalidAmount .minTradeAmount)
  | some minTradeAmount =>
    if minTradeAmount < 0 then .error (.invalidAmount .minTradeAmount)
    else match parseAmount input.available with
      | none => .error (.invalidAmount .available)
      | some available =>
        if available < 0 then .error (.invalidAmount .available) else .ok (minTradeAmount, available)

/-- The smallest stake on the grid whose floored profit covers the streak loss rounded up to the grid
plus the base stake's profit. -/
def martingaleStake (streakLoss base payoutScaled scale : ℤ) : Except StakeError ℤ := do
  let target ← ceilToScale (streakLoss + (← expectedProfit base payoutScaled scale)) scale
  ceilToScale (← divCeil (target * percentDivisor) payoutScaled) scale

def requireAmount (text : DecimalString) : Except StakeError ℤ :=
  match parseAmount text with
  | none => .error ⟨s!"stake params: unparsable amount {String.ofList text}"⟩
  | some value => .ok value

/-- The limits of a martingale sizer, its two amounts parsed. -/
structure ParsedLimits where
  limits : MartingaleLimits
  maxStake : ℤ
  maxSessionLoss : ℤ
  deriving DecidableEq, Repr

structure StakeSizer where
  version : String
  params : StakeParams
  base : ℤ
  martingale : Option ParsedLimits
  deriving DecidableEq, Repr

def createStakeSizer (params : StakeParams) : Except StakeError StakeSizer := do
  assertStakeParams params
  let base ← requireAmount params.baseStake
  let martingale ← match params.strategy with
    | .fixed => pure none
    | .martingale limits => do
      let maxStake ← requireAmount limits.maxStake
      let maxSessionLoss ← requireAmount limits.maxSessionLoss
      pure (some { limits, maxStake, maxSessionLoss })
  return { version := stakeAlgorithmVersion, params, base, martingale }

namespace StakeSizer

variable (sizer : StakeSizer)

/-- The step of the next stake. -/
def step (ledger : StakeLedger) : ℕ :=
  match sizer.martingale with
  | none => 1
  | some _ => ledger.consecutiveLosses + 1

def features (ledger : StakeLedger) (sessionElapsedMs : ℚ) : Except StakeError StakeFeatures := do
  return {
    strategy := sizer.params.strategy
    step := sizer.step ledger
    consecutiveLosses := ledger.consecutiveLosses
    streakLoss := ← formatAmount ledger.streakLoss
    realizedSessionLoss := ← formatAmount ledger.realizedSessionLoss
    settledTrades := ledger.settledTrades
    sessionElapsedMs
    baseStake := sizer.params.baseStake }

/-- The stake of a step: the base stake, and from the second step on the recovery formula's. -/
def stepStake (ledger : StakeLedger) (step : ℕ) (payoutScaled : ℤ) : Except StakeError ℤ :=
  if step > 1 then martingaleStake ledger.streakLoss sizer.base payoutScaled sizer.params.stakeScale
  else pure sizer.base

/-- The martingale branch: the candidate stake, or the decision that stops. -/
def martingaleCandidate (parsed : ParsedLimits) (input : StakeInput) (ledger : StakeLedger)
    (features : StakeFeatures) : Except StakeError (Except StakeDecision ℤ) := do
  let stop (limitStop : LimitStop) : Except StakeError (Except StakeDecision ℤ) :=
    pure (.error (.limitStop sizer.version features limitStop))
  if features.sessionElapsedMs > parsed.limits.maxSessionDurationMs then
    stop (.sessionDurationExceeded features.sessionElapsedMs parsed.limits.maxSessionDurationMs)
  else if (features.step : ℤ) > parsed.limits.maxSteps then
    stop (.maxStepsExceeded features.step parsed.limits.maxSteps)
  else match parsePayout input.payout with
    | none => pure (.error (.dataStop sizer.version (.invalidPayout input.payout)))
    | some payoutScaled =>
      let candidate ← sizer.stepStake ledger features.step payoutScaled
      if candidate > parsed.maxStake then
        stop (.maxStakeExceeded (← formatAmount candidate) parsed.limits.maxStake)
      else if ledger.realizedSessionLoss + candidate > parsed.maxSessionLoss then
        stop (.maxSessionLossExceeded (← formatAmount candidate) features.realizedSessionLoss
          parsed.limits.maxSessionLoss)
      else pure (.ok candidate)

/-- The checks of the account, after the strategy's. -/
def accountCheck (input : StakeInput) (balance : ℤ × ℤ) (features : StakeFeatures) (candidate : ℤ) :
    Except StakeError StakeDecision := do
  if candidate < balance.1 then
    return .limitStop sizer.version features
      (.belowMinTradeAmount (← formatAmount candidate) input.minTradeAmount)
  if candidate > balance.2 then
    return .limitStop sizer.version features
      (.insufficientBalance (← formatAmount candidate) input.available)
  return .stake sizer.version (← formatStake candidate sizer.params.stakeScale) features

def next (input : StakeInput) : Except StakeError StakeDecision := do
  let (started, now) ← assertClock input.sessionStartedAtMs input.nowMs
  match readHistory input.history with
  | .error stop => return .dataStop sizer.version stop
  | .ok ledger =>
    match readBalance input with
    | .error stop => return .dataStop sizer.version stop
    | .ok balance =>
      let features ← sizer.features ledger (now - started)
      match sizer.martingale with
      | none => sizer.accountCheck input balance features sizer.base
      | some parsed =>
        match ← sizer.martingaleCandidate parsed input ledger features with
        | .error decision => return decision
        | .ok candidate => sizer.accountCheck input balance features candidate

end StakeSizer

/-! ## The sizer's input (history.ts) -/

structure SessionIntentOutcome where
  status : TradeIntentStatus
  amount : DecimalString
  profit : Option DecimalString
  deriving DecidableEq, Repr

/-- A settled intent whose broker trade has no profit yet is unresolved, not a zero. -/
def sessionTradeOf (intent : SessionIntentOutcome) : SessionTrade :=
  match intent.status, intent.profit with
  | .rejected, _ => .rejected
  | .settled, some profit => .settled intent.amount profit
  | _, _ => .unresolved

/-- The sizer's input of a session's step: a clock behind the session's start reads as the start. -/
def sessionStakeInput (intents : List SessionIntentOutcome) (payout : List Char)
    (minTradeAmount available : DecimalString) (sessionStartedAtMs nowMs : ℤ) : StakeInput where
  history := intents.map sessionTradeOf
  payout := payout
  minTradeAmount := minTradeAmount
  available := available
  sessionStartedAtMs := .finite sessionStartedAtMs
  nowMs := .finite (max nowMs sessionStartedAtMs : ℤ)

end Binarius
