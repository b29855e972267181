import Mathlib.Tactic
import Binarius.Shared.Trading
import Binarius.Stake.Size

/-!
# Shared.TradingSession — a session's settings and its next step
(packages/shared: trading-session.ts, session-steps.ts)

The settings are those of an H1 session: its length in trades (version 4) or in cycles (version 5).

* `sessionIntentBlock`: why a session may not create its next intent now.
* `sessionTradeSteps`: the cycle and the step of each settled trade.
-/

namespace Binarius

/-! ## Steps (session-steps.ts) -/

inductive SessionTradeResult
  | won
  | lost
  | tied
  deriving DecidableEq, Repr

structure SessionTradeStep where
  cycle : ℕ
  step : ℕ
  deriving DecidableEq, Repr

def StakeStrategy.isMartingale : StakeStrategy → Bool
  | fixed => false
  | martingale _ => true

/-- The loop of `sessionTradeSteps`. -/
def sessionTradeStepsFrom (martingale : Bool) : ℕ → ℕ → List SessionTradeResult → List SessionTradeStep
  | _, _, [] => []
  | tradesSinceWin, cycle, result :: results =>
    let step := if martingale then tradesSinceWin + 1 else 1
    let cycle' := if step = 1 then cycle + 1 else cycle
    { cycle := cycle', step } ::
      sessionTradeStepsFrom martingale (if result = .won then 0 else tradesSinceWin + 1) cycle' results

/-- The cycle and the step of each settled trade, in their order. -/
def sessionTradeSteps (results : List SessionTradeResult) (strategy : StakeStrategy) :
    List SessionTradeStep :=
  sessionTradeStepsFrom strategy.isMartingale 0 0 results

/-! ## Settings (trading-session.ts) -/

def h1ExpirySec : ℕ := 5

inductive SessionLength
  | trades (trades : ℕ)
  | cycles (cycles : ℕ)
  deriving DecidableEq, Repr

structure H1SessionSettings where
  assetId : ℕ
  durationSec : ℕ
  length : SessionLength
  stake : StakeParams
  entryDelaySec : ℕ
  expirySec : ℕ
  deriving DecidableEq, Repr

def sessionStakeParams (settings : H1SessionSettings) : StakeParams := settings.stake

structure SessionProgress where
  planned : ℕ
  done : ℕ
  deriving DecidableEq, Repr

/-- How much of the session is done: trades, or cycles, which under martingale only a win closes. -/
def sessionProgress (settings : H1SessionSettings) (settled won : ℕ) : SessionProgress :=
  match settings.length with
  | .trades trades => { planned := trades, done := settled }
  | .cycles cycles =>
    { planned := cycles, done := if settings.stake.strategy.isMartingale then won else settled }

inductive SessionIntentBlockReason
  | expired
  | live
  | completed
  | rejectedTwice
  deriving DecidableEq, Repr

/-- A profit above zero. -/
def isWin (profit : Option DecimalString) : Bool :=
  profit.any (fun p => isDecimalString p && decide (p.head? ≠ some '-') &&
    p.any (fun c => '1' ≤ c && c ≤ '9'))

structure SessionHistoryIntent where
  id : IntentId
  action : TradeAction
  status : TradeIntentStatus
  amount : DecimalString
  profit : Option DecimalString
  lastError : Option TradeIntentFailureReason
  deriving DecidableEq, Repr

structure SessionHistory where
  telegramUserId : ℕ
  expired : Bool
  waitExpired : Bool
  intents : List SessionHistoryIntent
  deriving DecidableEq, Repr

/-- Why a session may not create its next intent now. -/
def sessionIntentBlock (history : SessionHistory) (settings : H1SessionSettings) :
    Option SessionIntentBlockReason :=
  let settledIntents := history.intents.filter (fun i => i.status = .settled)
  let won := (settledIntents.filter (fun i => isWin i.profit)).length
  let progress := sessionProgress settings settledIntents.length won
  let lastTwo := history.intents.drop (history.intents.length - 2)
  if history.expired then some .expired
  else if history.intents.any (fun i => !i.status.terminal) then some .live
  else if progress.planned ≤ progress.done then some .completed
  else if lastTwo.length = 2 ∧ lastTwo.all (fun i => i.status = .rejected) then some .rejectedTwice
  else none

inductive TradingSessionStopReason
  | completed
  | manualReview
  | rejectedTwice
  | timeout
  | stakeStop
  | maxStepsExceeded
  | maxStakeExceeded
  | maxSessionLossExceeded
  | sessionDurationExceeded
  | accountUnavailable
  | pairUnavailable
  | balanceUnavailable
  | invalidSettings
  | userStopped
  | killSwitch
  | noSignalTimeout
  deriving DecidableEq, Repr

end Binarius
