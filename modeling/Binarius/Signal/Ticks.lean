import Mathlib.Tactic

/-!
# Signal.Ticks — ticks of the price stream (packages/signal/src: ticks.ts, decide.ts)

Times and prices are rationals: the wire's schema refuses a number that is not finite, and a time below
zero.
-/

namespace Binarius

/-- A price update of one pair. -/
structure Tick where
  price : ℚ
  timestamp : ℚ
  nonneg : 0 ≤ timestamp
  deriving DecidableEq

/-- The most a tick's time may differ from its receipt. -/
def tickMaxSkewMs : ℚ := 60000

inductive TickProblem
  | invalid
  | skewed
  deriving DecidableEq, Repr

/-- One rule for the builder and for every caller that reads a tick's time before it. -/
def tickProblem (tick : Tick) (receivedAtMs : ℚ) : Option TickProblem :=
  if tick.price ≤ 0 then some .invalid
  else if tickMaxSkewMs < |receivedAtMs - tick.timestamp| then some .skewed
  else none

/-- `Number(value.toFixed(digits))`: the nearest multiple of the unit, the larger one of two. -/
def toFixed (digits : ℕ) (value : ℚ) : ℚ := ⌊value * 10 ^ digits + 1 / 2⌋ / 10 ^ digits

def maxPairDigits : ℕ := 10

/-- `assertDigits` throws on anything but an integer from 0 to `maxPairDigits`. -/
def assertDigits (digits : ℤ) : Option ℕ :=
  if 0 ≤ digits ∧ digits ≤ maxPairDigits then some digits.toNat else none

end Binarius
