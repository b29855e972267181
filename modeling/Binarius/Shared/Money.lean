import Mathlib.Tactic

/-!
# Shared.Money — decimal strings and the stake's bounds (packages/shared: money.ts, stake.ts)

A JavaScript string of ASCII characters is a `List Char`.  `normalizeDecimal` compares amounts by
value without a float; `checkStake` does its arithmetic on integers of `1e-8` units.
-/

namespace Binarius

/-- A decimal string like `12.50`: digits with an optional sign and fraction. -/
abbrev DecimalString := List Char

/-- numeric(20,8): fraction digits of every money column. -/
def numericFractionDigits : ℕ := 8

/-- decimalStringSchema: `^-?\d+(\.\d+)?$`. -/
def isDecimalString (value : List Char) : Bool :=
  let unsigned := if value.head? = some '-' then value.drop 1 else value
  let integer := unsigned.takeWhile Char.isDigit
  let rest := unsigned.dropWhile Char.isDigit
  !integer.isEmpty && (rest.isEmpty ||
    (rest.head? = some '.' && !(rest.drop 1).isEmpty && (rest.drop 1).all Char.isDigit))

/-- positiveDecimalStringSchema. -/
def isPositiveDecimalString (value : List Char) : Bool :=
  isDecimalString value && decide (value.head? ≠ some '-') && value.any (fun c => '1' ≤ c && c ≤ '9')

/-- `value.split('.')`, its first two parts; a missing fraction is the empty string. -/
def splitDecimal (value : List Char) : List Char × List Char :=
  (value.takeWhile (· ≠ '.'), ((value.dropWhile (· ≠ '.')).drop 1).takeWhile (· ≠ '.'))

/-- `replace(/^0+(?=\d)/, '')`: leading zeros go while a digit follows. -/
def stripLeadingZeros : List Char → List Char
  | '0' :: c :: cs => if c.isDigit then stripLeadingZeros (c :: cs) else '0' :: c :: cs
  | cs => cs

/-- `replace(/0+$/, '')`. -/
def stripTrailingZeros (fraction : List Char) : List Char :=
  (fraction.reverse.dropWhile (· = '0')).reverse

/-- Leading zeros and trailing fraction zeros are stripped: `10.00000000` and `10.00` are one. -/
def normalizeDecimal (value : DecimalString) : DecimalString :=
  let int := stripLeadingZeros (splitDecimal value).1
  let frac := stripTrailingZeros (splitDecimal value).2
  if frac = [] then int else int ++ '.' :: frac

/-! ## The stake (stake.ts) -/

/-- Cents are always allowed, whatever the broker's minimum looks like. -/
def stakeMinScale : ℕ := 2

inductive StakeRefusal
  | precision
  | belowMinimum
  | aboveAvailable
  deriving DecidableEq, Repr

structure StakeLimits where
  minTradeAmount : DecimalString
  available : DecimalString
  deriving DecidableEq, Repr

/-- Fraction digits of the canonical form. -/
def decimalScale (value : DecimalString) : ℕ := (splitDecimal (normalizeDecimal value)).2.length

/-- `BigInt` of a digit string; the empty string is `0n`. -/
def bigIntOf (digits : List Char) : ℤ :=
  digits.foldl (fun acc c => 10 * acc + (c.toNat - '0'.toNat : ℕ)) 0

/-- `padEnd(width, '0')`. -/
def padEnd (width : ℕ) (s : List Char) : List Char := s ++ List.replicate (width - s.length) '0'

/-- A decimal of at most eight fraction digits as an integer of `1e-8` units. -/
def units (value : DecimalString) : ℤ :=
  let negative := value.head? = some '-'
  let parts := splitDecimal (if negative then value.drop 1 else value)
  let amount := bigIntOf parts.1 * 10 ^ numericFractionDigits +
    bigIntOf (padEnd numericFractionDigits parts.2)
  if negative then -amount else amount

/-- The grid of the account: its minimum's fraction digits, never coarser than cents. -/
def stakeScale (minTradeAmount : DecimalString) : ℕ :=
  max stakeMinScale (decimalScale minTradeAmount)

/-- Fixed order: precision, then the minimum, then the available balance. -/
def checkStake (amount : DecimalString) (limits : StakeLimits) : Option StakeRefusal :=
  if decimalScale amount > stakeScale limits.minTradeAmount then some .precision
  else if units amount < units limits.minTradeAmount then some .belowMinimum
  else if units amount > units limits.available then some .aboveAvailable
  else none

end Binarius
