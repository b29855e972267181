import Mathlib.Tactic
import Binarius.Shared.TradingSession

/-!
# Shared.SessionSettings — every version of a session's settings
(packages/shared: trading-session.ts, session-steps.ts)

* `StoredSettings`: versions 1 to 3, and the H1 versions 4 and 5; `stakeParams` and `progress`
  read any of them.
* `sessionNextStep`: the position of the session's open trade.
-/

namespace Binarius

/-- trading_sessions.settings. -/
inductive StoredSettings
  | v1 (assetId durationSec trades : ℕ) (baseStake : DecimalString) (stakeScale : ℤ)
  | v2 (assetId durationSec trades : ℕ) (stake : StakeParams)
  | v3 (assetId durationSec cycles : ℕ) (stake : StakeParams)
  /-- versions 4 and 5, by their length -/
  | h1 (settings : H1SessionSettings)
  deriving DecidableEq, Repr

namespace StoredSettings

/-- `sessionStakeParams`: version 1 is fixed. -/
def stakeParams : StoredSettings → StakeParams
  | v1 _ _ _ baseStake stakeScale => { baseStake, stakeScale, strategy := .fixed }
  | v2 _ _ _ stake => stake
  | v3 _ _ _ stake => stake
  | h1 settings => sessionStakeParams settings

/-- `sessionProgress`: versions 3 and 5 count cycles, the others trades. -/
def progress (settings : StoredSettings) (settled won : ℕ) : SessionProgress :=
  match settings with
  | v1 _ _ trades _ _ => { planned := trades, done := settled }
  | v2 _ _ trades _ => { planned := trades, done := settled }
  | v3 _ _ cycles stake =>
    { planned := cycles, done := if stake.strategy.isMartingale then won else settled }
  | h1 settings => sessionProgress settings settled won

/-- The sessions that count cycles. -/
def countsCycles : StoredSettings → Bool
  | v1 .. => false
  | v2 .. => false
  | v3 .. => true
  | h1 settings =>
    match settings.length with
    | .trades _ => false
    | .cycles _ => true

theorem progress_of_cycles {settings : StoredSettings} (h : settings.countsCycles = true)
    (settled won : ℕ) :
    (settings.progress settled won).done =
      if settings.stakeParams.strategy.isMartingale then won else settled := by
  cases settings with
  | v1 => exact nomatch h
  | v2 => exact nomatch h
  | v3 => rfl
  | h1 settings =>
    obtain ⟨_, _, length, _, _, _⟩ := settings
    cases length with
    | trades _ => exact nomatch h
    | cycles _ => rfl

end StoredSettings

/-- The cycle and the step of the session's open trade: those it takes whatever it ends with. -/
def sessionNextStep (results : List SessionTradeResult) (strategy : StakeStrategy) :
    Except String SessionTradeStep :=
  match (sessionTradeSteps (results ++ [.won]) strategy).getLast? with
  | none => .error "a session has no next step"
  | some next => .ok next

end Binarius
