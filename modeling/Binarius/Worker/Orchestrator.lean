import Mathlib.Tactic
import Binarius.Db.TradingSessionOps
import Binarius.Shared.Catalog

/-!
# Worker.Orchestrator — how a session's attempt ends
(apps/trading-worker/src/trading-session/orchestrator.ts)

A batch decides each runnable session in three steps, one function each: `prepare` reads the settings,
`beforePair` the history and the balance, `atPair` the pairs catalog and the sizer.  An ending stops the
session, moves its decision mark, holds it back, or failed in a throw.

* `orchestratorEnding`: the three steps of one session.
* `beforePair_ok`, `atPair_stake`: how the steps pass a session on.
-/

namespace Binarius

/-! ## Settings of a stored session (packages/shared: trading-session.ts) -/

/-- The settings a row holds: an H1 session's, or those of an earlier version, which no one trades. -/
inductive TradingSessionSettings
  | h1 (settings : H1SessionSettings)
  | earlier (version : ℕ) (stake : StakeParams)
  deriving DecidableEq, Repr

/-- The schema: an H1 session's duration is its expiry; `schemaAccepts` is its verdict on the other
fields. -/
def safeParseTradingSessionSettings (schemaAccepts : TradingSessionSettings → Bool)
    (settings : TradingSessionSettings) : Option TradingSessionSettings :=
  match settings with
  | .h1 h1 => if h1.durationSec = h1ExpirySec ∧ schemaAccepts settings then some settings else none
  | .earlier _ _ => if schemaAccepts settings then some settings else none

def TradingSessionSettings.stakeParams : TradingSessionSettings → StakeParams
  | h1 settings => sessionStakeParams settings
  | earlier _ stake => stake

/-! ## The three steps -/

/-- The sizer's stop codes as the session's stop reason: a martingale limit is its own. -/
def LimitStop.stopReason : LimitStop → TradingSessionStopReason
  | sessionDurationExceeded _ _ => .sessionDurationExceeded
  | maxStepsExceeded _ _ => .maxStepsExceeded
  | maxStakeExceeded _ _ => .maxStakeExceeded
  | maxSessionLossExceeded _ _ _ => .maxSessionLossExceeded
  | belowMinTradeAmount _ _ => .stakeStop
  | insufficientBalance _ _ => .stakeStop

structure SessionOrchestratorConfig where
  retryMs : ℚ
  tickMs : ℚ
  h1CheckMs : ℚ
  deriving DecidableEq, Repr

inductive SessionEnding
  | stop (reason : TradingSessionStopReason)
  | reschedule
  | hold (ms : ℚ)
  /-- a throw in the session's decision -/
  | failed
  deriving DecidableEq, Repr

structure RunnableSession where
  id : SessionId
  brokerAccountId : AccountId
  startedAt : UnixMs
  settings : TradingSessionSettings
  deriving DecidableEq, Repr

/-- A session whose settings parsed. -/
structure Prepared where
  session : RunnableSession
  settings : H1SessionSettings
  sizer : StakeSizer

/-- A session that passed its history and balance. -/
structure AtPair where
  prepared : Prepared
  history : SessionHistory
  balance : SessionBalanceRead

/-- The pairs as the backend's route answers them. -/
inductive PairsOutcome
  | ok (catalog : PairsCatalogView)
  | failed
  deriving DecidableEq, Repr

section Steps

variable (config : SessionOrchestratorConfig)

/-- The settings, before any read. -/
def prepare (schemaAccepts : TradingSessionSettings → Bool) (session : RunnableSession) :
    Except SessionEnding Prepared :=
  match safeParseTradingSessionSettings schemaAccepts session.settings with
  | none => .error (.stop .invalidSettings)
  | some settings =>
    match createStakeSizer settings.stakeParams with
    | .error _ => .error (.stop .invalidSettings)
    | .ok sizer =>
      match settings with
      | .earlier _ _ => .error (.stop .invalidSettings)
      | .h1 settings => .ok { session, settings, sizer }

def SessionIntentBlockReason.ending : SessionIntentBlockReason → SessionEnding
  | expired => .stop .timeout
  | live => .reschedule
  | completed => .stop .completed
  | rejectedTwice => .stop .rejectedTwice

/-- The history and the balance: none of these stops waits for the catalog. -/
def beforePair (prepared : Prepared) (read : Option SessionBatchRead) : Except SessionEnding AtPair :=
  match read with
  | none => .error (.hold config.retryMs)
  | some read =>
    match sessionIntentBlock read.history prepared.settings with
    | some reason => .error reason.ending
    | none =>
      match read.balance with
      | none => .error (.stop .balanceUnavailable)
      | some balance => .ok { prepared, history := read.history, balance }

/-- A stake stop that a settlement's payout may still lift. -/
def waitsForBalance (decision : StakeDecision) (balance : SessionBalanceRead) : Bool :=
  match decision with
  | .limitStop _ _ (.insufficientBalance _ _) => balance.awaitsBalance
  | _ => false

/-- What the sizer's decision makes of the session. -/
def stakeEnding (balance : SessionBalanceRead) (decision : StakeDecision) : SessionEnding :=
  if waitsForBalance decision balance then .hold config.tickMs
  else match decision with
    | .limitStop _ _ stop => .stop stop.stopReason
    | .dataStop _ _ => .stop .stakeStop
    | .stake _ _ _ => .hold config.h1CheckMs

/-- The catalog's pair and the sizer; the throw of the sizer is caught around it. -/
def atPair (waiting : AtPair) (catalog : PairsOutcome) (tickAt : ℤ) : SessionEnding :=
  match catalog with
  | .failed => .hold config.retryMs
  | .ok view =>
    if !view.fresh then .hold config.retryMs
    else match view.pairOf waiting.prepared.settings.assetId with
      | none => .stop .pairUnavailable
      | some pair =>
        if !pairAcceptsDuration pair waiting.prepared.settings.durationSec then .stop .pairUnavailable
        else if !isPairOpen pair tickAt then
          if waiting.history.waitExpired then .stop .noSignalTimeout
          else .hold (min (pair.scheduledUntil - tickAt) config.retryMs)
        else match waiting.prepared.sizer.next (sessionStakeInput
            (waiting.history.intents.map (fun i => { status := i.status, amount := i.amount, profit := i.profit }))
            pair.payout waiting.balance.minTradeAmount waiting.balance.available waiting.prepared.session.startedAt
            tickAt) with
          | .error _ => .failed
          | .ok decision => stakeEnding config waiting.balance decision

/-- How the batch ends one session. -/
def orchestratorEnding (schemaAccepts : TradingSessionSettings → Bool) (session : RunnableSession)
    (read : Option SessionBatchRead) (catalog : PairsOutcome) (tickAt : ℤ) : SessionEnding :=
  match prepare schemaAccepts session with
  | .error ending => ending
  | .ok prepared =>
    match beforePair config prepared read with
    | .error ending => ending
    | .ok atPairOf => atPair config atPairOf catalog tickAt

/-- A history without a block and a balance pass the second step. -/
theorem beforePair_ok {prepared : Prepared} {read : SessionBatchRead} {balance : SessionBalanceRead}
    (hblock : sessionIntentBlock read.history prepared.settings = none)
    (hbalance : read.balance = some balance) :
    beforePair config prepared (some read) = .ok { prepared, history := read.history, balance } := by
  unfold beforePair
  simp only [hblock, hbalance]

/-- **A session whose sizer answers a stake is never stopped for it**: on an open pair that takes its
duration it is held for the driver, whatever the catalog's freshness. -/
theorem atPair_stake {waiting : AtPair} {view : PairsCatalogView} {pair : BinaryPair} {tickAt : ℤ}
    {version : String} {amount : DecimalString} {features : StakeFeatures}
    (hpair : view.pairOf waiting.prepared.settings.assetId = some pair)
    (haccepts : pairAcceptsDuration pair waiting.prepared.settings.durationSec = true)
    (hopen : isPairOpen pair tickAt = true)
    (hnext : waiting.prepared.sizer.next (sessionStakeInput
      (waiting.history.intents.map (fun i => { status := i.status, amount := i.amount, profit := i.profit }))
      pair.payout waiting.balance.minTradeAmount waiting.balance.available
      waiting.prepared.session.startedAt tickAt) = .ok (.stake version amount features)) :
    ∃ ms, atPair config waiting (.ok view) tickAt = .hold ms := by
  unfold atPair
  simp only [hpair, haccepts, hopen, hnext]
  by_cases hfresh : view.fresh = true
  · exact ⟨config.h1CheckMs, by simp [hfresh, stakeEnding, waitsForBalance]⟩
  · exact ⟨config.retryMs, by simp [hfresh]⟩

/-- **When the third step stops a session** whose sizer answers a stake, it is for the pair. -/
theorem atPair_stop {waiting : AtPair} {outcome : PairsOutcome} {tickAt : ℤ}
    {reason : TradingSessionStopReason}
    (hstop : atPair config waiting outcome tickAt = .stop reason) :
    reason = .pairUnavailable ∨ reason = .noSignalTimeout ∨
      ∃ view pair, outcome = .ok view ∧ view.pairOf waiting.prepared.settings.assetId = some pair ∧
        ∃ decision, waiting.prepared.sizer.next (sessionStakeInput
            (waiting.history.intents.map (fun i =>
              { status := i.status, amount := i.amount, profit := i.profit }))
            pair.payout waiting.balance.minTradeAmount waiting.balance.available
            waiting.prepared.session.startedAt tickAt) = .ok decision ∧
          stakeEnding config waiting.balance decision = .stop reason := by
  unfold atPair at hstop
  split at hstop
  · exact nomatch hstop
  · rename_i view
    split at hstop
    · exact nomatch hstop
    · split at hstop
      · exact .inl (SessionEnding.stop.inj hstop).symm
      · rename_i pair hpair
        split at hstop
        · exact .inl (SessionEnding.stop.inj hstop).symm
        · split at hstop
          · split at hstop
            · exact .inr (.inl (SessionEnding.stop.inj hstop).symm)
            · exact nomatch hstop
          · split at hstop
            · exact nomatch hstop
            · rename_i decision hnext
              exact .inr (.inr ⟨view, pair, rfl, hpair, decision, hnext, hstop⟩)

end Steps

end Binarius
