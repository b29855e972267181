import Mathlib.Tactic
import Binarius.Shared.TelegramHtml

/-!
# Shared.TradingSwitch — who closes trading, and why (packages/shared/src/trading-switch.ts)
-/

namespace Binarius

/-- Who wrote the current state of the switch. -/
inductive TradingSwitchSource
  | migration
  | operator
  | circuitBreaker
  deriving DecidableEq, Repr

/-- The sources that may leave trading open: never an automatic closer. -/
def TRADING_SWITCH_OPENING_SOURCES : List TradingSwitchSource := [.migration, .operator]

def TRADING_SWITCH_REASON_MAX : ℕ := 200

/-- What `\p{Cc}` matches. -/
def isControl (c : Char) : Bool := c.toNat ≤ 0x1f || (0x7f ≤ c.toNat && c.toNat ≤ 0x9f)

/-- The pattern counts code points, so the length is that of the list. -/
def reasonShape (text : Text) : Bool :=
  text.all (fun c => !isControl c) && 1 ≤ text.length && text.length ≤ TRADING_SWITCH_REASON_MAX

def tradingSwitchReasonSchema (raw : Text) : Option Text :=
  if reasonShape (trim raw) then some (trim raw) else none

theorem reason_of_schema {raw reason : Text} (h : tradingSwitchReasonSchema raw = some reason) :
    1 ≤ reason.length ∧ reason.length ≤ TRADING_SWITCH_REASON_MAX ∧ ∀ c ∈ reason, isControl c = false := by
  unfold tradingSwitchReasonSchema at h
  split at h
  · rename_i hshape
    rw [← Option.some.inj h]
    unfold reasonShape at hshape
    simp only [Bool.and_eq_true, decide_eq_true_eq, List.all_eq_true, Bool.not_eq_true'] at hshape
    exact ⟨hshape.1.2, hshape.2, hshape.1.1⟩
  · cases h

end Binarius
