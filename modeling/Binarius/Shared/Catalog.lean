import Mathlib.Tactic

/-!
# Shared.Catalog — the pairs a session may trade (packages/shared: catalog.ts, broker.ts)

A pair's payout is the text of a JavaScript number, as in `Stake.Money`.
-/

namespace Binarius

/-- The fields of a pair that the readers of a session's pair look at. -/
structure BinaryPair where
  id : ℕ
  payout : List Char
  minTimeframe : ℤ
  maxTimeframe : ℤ
  scheduledUntil : ℚ
  deriving DecidableEq, Repr

def isPairOpen (pair : BinaryPair) (nowMs : ℚ) : Bool :=
  decide (pair.scheduledUntil = 0) || decide (pair.scheduledUntil ≤ nowMs)

def pairAcceptsDuration (pair : BinaryPair) (durationSec : ℤ) : Bool :=
  decide (pair.minTimeframe ≤ durationSec) && decide (durationSec ≤ pair.maxTimeframe)

structure PairsCatalogView where
  fresh : Bool
  pairs : List BinaryPair
  deriving DecidableEq, Repr

def PairsCatalogView.pairOf (view : PairsCatalogView) (assetId : ℕ) : Option BinaryPair :=
  view.pairs.find? (fun candidate => candidate.id = assetId)

end Binarius
