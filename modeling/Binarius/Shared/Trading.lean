import Mathlib.Tactic
import Binarius.Shared.Money

/-!
# Shared.Trading — modes, statuses and the transition graph of a trade intent
(packages/shared: trading.ts, broker.ts, users.ts, oauth.ts)

* `canTransition`: the graph every status change goes through.
* `rank`: a measure of the graph that never falls back (`canTransition_rank_lt`).  No edge leads back
  to `queued`, and an intent leaves each status at most once.
-/

namespace Binarius

inductive TradeMode
  | demo
  | real
  deriving DecidableEq, Repr

inductive TradeAction
  | up
  | down
  deriving DecidableEq, Repr

inductive TradeIntentStatus
  | planned
  | reserved
  | queued
  | submitting
  | accepted
  | settled
  | rejected
  | unknown
  | reconciling
  | manualReview
  deriving DecidableEq, Repr

namespace TradeIntentStatus

/-- TRADE_INTENT_TRANSITIONS. -/
def transitions : TradeIntentStatus → List TradeIntentStatus
  | planned => [reserved, rejected]
  | reserved => [queued, rejected]
  | queued => [submitting, rejected]
  | submitting => [accepted, rejected, unknown]
  | accepted => [settled]
  | settled => []
  | rejected => []
  | unknown => [reconciling]
  | reconciling => [accepted, rejected, manualReview]
  | manualReview => [settled, rejected]

/-- A status with no outgoing edge is finished (TERMINAL_TRADE_INTENT_STATUSES). -/
def terminal (s : TradeIntentStatus) : Bool := s.transitions.isEmpty

end TradeIntentStatus

open TradeIntentStatus

def canTransition (fromStatus toStatus : TradeIntentStatus) : Bool :=
  fromStatus.transitions.contains toStatus

/-- How far along its graph a status is. -/
def TradeIntentStatus.rank : TradeIntentStatus → ℕ
  | planned => 0
  | reserved => 1
  | queued => 2
  | submitting => 3
  | unknown => 4
  | reconciling => 5
  | manualReview => 6
  | accepted => 7
  | settled => 8
  | rejected => 8

/-- **The graph has no way back**: every edge raises the rank. -/
theorem canTransition_rank_lt {a b : TradeIntentStatus} (h : canTransition a b = true) :
    a.rank < b.rank := by
  revert h
  cases a <;> cases b <;> decide

theorem not_terminal_of_canTransition {a b : TradeIntentStatus} (h : canTransition a b = true) :
    a.terminal = false := by
  revert h
  cases a <;> cases b <;> decide

/-- How the order reached the broker. -/
inductive TradeTransport
  | socket
  | restFallback
  deriving DecidableEq, Repr

/-- The values `trade_intents.last_error` and the dead-letter payload may carry. -/
inductive TradeIntentFailureReason
  | expired
  | executorNotConfigured
  | executorTimeout
  | executorError
  | brokerRejected
  | publishFailed
  | staleSubmitting
  | invalidJob
  | processingFailed
  | tradingPaused
  | tradeMismatch
  | manualRejected
  | reconciliationNotFound
  | reconciliationAmbiguous
  | brokerUnavailable
  | demoOnly
  | entryWindowMissed
  deriving DecidableEq, Repr

inductive TradeIntentErrorCode
  | userNotFound
  | userBlocked
  | brokerAccountNotFound
  | ambiguousBrokerAccount
  | accountRevoked
  | accountNotConfirmed
  | accountHalted
  | insufficientTokens
  | activeIntentExists
  | clientRequestIdConflict
  | tradingPaused
  | balanceUnavailable
  | stakePrecision
  | stakeBelowMinimum
  | insufficientBalance
  | demoOnly
  | realModeOff
  deriving DecidableEq, Repr

/-- TradeIntentErrorCode spells the stake's refusals from StakeRefusal. -/
def StakeRefusal.errorCode : StakeRefusal → TradeIntentErrorCode
  | .precision => .stakePrecision
  | .belowMinimum => .stakeBelowMinimum
  | .aboveAvailable => .insufficientBalance

inductive UserStatus
  | active
  | blocked
  deriving DecidableEq, Repr

inductive BrokerAccountStatus
  | pending
  | active
  | revoked
  deriving DecidableEq, Repr

inductive TradingSessionStatus
  | active
  | paused
  | stopped
  deriving DecidableEq, Repr

/-- Unix milliseconds. -/
abbrev UnixMs := ℤ

abbrev UserId := ℕ
abbrev AccountId := ℕ
abbrev IntentId := ℕ
abbrev SessionId := ℕ

/-- What a closed trade adds to its open form. -/
structure TradeClose where
  closeTimestamp : UnixMs
  profit : DecimalString
  deriving DecidableEq, Repr

/-- A broker trade as shared's parsers hand it out: open, or closed with `closed` set. -/
structure BrokerTrade where
  id : String
  assetId : ℕ
  action : TradeAction
  amount : DecimalString
  openTimestamp : UnixMs
  isDemo : Bool
  closed : Option TradeClose
  deriving DecidableEq, Repr

end Binarius
