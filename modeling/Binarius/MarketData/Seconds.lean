import Mathlib.Tactic
import Binarius.Lib.OrderedMap
import Binarius.Lib.CellRing
import Binarius.Signal.Ticks

/-!
# MarketData.Seconds — the second series (apps/backend/src/market-data/seconds.ts)

A second is labelled by its end, a multiple of 1 000 ms.  Each pair keeps the closes of its newest
`capacitySec` seconds in a ring; the source's three arrays of a pair are one ring of the ticks whose
prices are the closes, and a NaN is an empty cell.

* `SecondSeries.push`, `advance`, `onDrop`: the three writers, with what they announce.
* `SecondSeries.window`, `close`, `lastTickOf`, `lastClosed`: the readers.
-/

namespace Binarius

open Lib

/-- The options the constructor accepts. -/
structure SecondSeriesOptions where
  capacitySec : ℕ
  closeMarginMs : ℚ
  capacity_pos : 0 < capacitySec
  margin_nonneg : 0 ≤ closeMarginMs

inductive H1SecondClosedBy
  | tick
  | clock
  deriving DecidableEq, Repr

structure ClosedSecond where
  assetId : ℕ
  second : ℤ
  closedBy : H1SecondClosedBy
  closedAtMs : ℚ
  deriving DecidableEq, Repr

structure LastTick where
  price : ℚ
  timestamp : ℚ
  receivedAtMs : ℚ
  deriving DecidableEq, Repr

structure SecondSeriesCounters where
  ahead : ℕ := 0
  late : ℕ := 0
  closedByTick : ℕ := 0
  closedByClock : ℕ := 0
  holeSeconds : ℕ := 0
  resets : ℕ := 0
  deriving DecidableEq, Repr

structure SecondPair where
  digits : ℕ
  cells : CellRing LastTick
  /-- the first second the series holds -/
  start : ℤ
  closedUntil : ℤ
  last : LastTick
  holePending : Bool
  lastClosedBy : H1SecondClosedBy
  /-- NaN before the first close -/
  lastClosedAtMs : Option ℚ

structure SecondSeries where
  pairs : OrderedMap ℕ SecondPair := OrderedMap.empty
  counts : SecondSeriesCounters := {}

/-- What a writer tells of a pair: a closed second, announced to the listeners, or a series emptied,
which is only counted. -/
inductive SeriesEvent
  | closed (closed : ClosedSecond)
  | reset (assetId : ℕ)
  deriving DecidableEq, Repr

def secondOf (timestamp : ℚ) : ℤ := ⌈timestamp / 1000⌉ * 1000

namespace SecondPair

variable (o : SecondSeriesOptions)

/-- The cell of a second, a multiple of 1 000 ms. -/
def readSecond (pair : SecondPair) (second : ℤ) : Option LastTick :=
  pair.cells.read o.capacitySec (second / 1000)

/-- The oldest second the ring can still hold. -/
def floorOf (pair : SecondPair) : ℤ := max pair.start (pair.closedUntil - (o.capacitySec - 1) * 1000)

def held (pair : SecondPair) (second : ℤ) : Bool :=
  decide (second % 1000 = 0) && decide (pair.floorOf o ≤ second) && decide (second ≤ pair.closedUntil)

/-- One pass of the closing loop: the second after the last closed one. -/
def closeNext (pair : SecondPair) : SecondPair :=
  let second := pair.closedUntil + 1000
  { pair with
    cells := pair.cells.write o.capacitySec (second / 1000) (if pair.holePending then none else some pair.last)
    closedUntil := second }

/-- The closing loop: `n` seconds, in order. -/
def closeLoop : ℕ → SecondPair → SecondPair × List ℤ
  | 0, pair => (pair, [])
  | n + 1, pair =>
    let (pair', closed) := closeLoop n (pair.closeNext o)
    (pair', (pair.closedUntil + 1000) :: closed)

/-- What `closeThrough` returns: the pair, the seconds to announce, and whether the series was emptied. -/
structure Closing where
  pair : SecondPair
  closed : List ℤ
  wasReset : Bool

/-- Closes `(closedUntil, target]`, a multiple of 1 000 ms; a jump past the capacity empties the pair. -/
def closeThrough (pair : SecondPair) (target : ℤ) : Closing :=
  let n := (target - pair.closedUntil) / 1000
  if (o.capacitySec : ℤ) < n then
    { pair := { pair with closedUntil := target, start := target + 1000 }, closed := [], wasReset := true }
  else
    let (pair', closed) := closeLoop o n.toNat pair
    { pair := pair', closed, wasReset := false }

/-- The counts of a closing. -/
def Closing.count (closing : Closing) (by_ : H1SecondClosedBy) (counts : SecondSeriesCounters) :
    SecondSeriesCounters :=
  let n := closing.closed.length
  { counts with
    resets := if closing.wasReset then counts.resets + 1 else counts.resets
    holeSeconds := if closing.pair.holePending then counts.holeSeconds + n else counts.holeSeconds
    closedByTick := if by_ = .tick then counts.closedByTick + n else counts.closedByTick
    closedByClock := if by_ = .clock then counts.closedByClock + n else counts.closedByClock }

/-- The pair remembers how and when its newest second closed. -/
def announced (pair : SecondPair) (closed : List ℤ) (closedBy : H1SecondClosedBy) (closedAtMs : ℚ) :
    SecondPair :=
  if closed = [] then pair
  else { pair with lastClosedBy := closedBy, lastClosedAtMs := some closedAtMs }

def Closing.events (closing : Closing) (assetId : ℕ) (closedBy : H1SecondClosedBy) (closedAtMs : ℚ) :
    List SeriesEvent :=
  (if closing.wasReset then [.reset assetId] else []) ++
    closing.closed.map (fun second => .closed { assetId, second, closedBy, closedAtMs })

/-- A tick of the open second: it ends a hole, and is the newest unless an applied one is newer. -/
def apply (pair : SecondPair) (tick : Tick) (receivedAtMs : ℚ) : SecondPair :=
  { pair with
    holePending := false
    last :=
      if pair.last.timestamp ≤ tick.timestamp then
        { price := toFixed pair.digits tick.price, timestamp := tick.timestamp, receivedAtMs }
      else pair.last }

/-- The first tick of a pair opens its series. -/
def opened (digits : ℕ) (tick : Tick) (receivedAtMs : ℚ) : SecondPair where
  digits := digits
  cells := CellRing.empty
  start := secondOf tick.timestamp
  closedUntil := secondOf tick.timestamp - 1000
  last := { price := toFixed digits tick.price, timestamp := tick.timestamp, receivedAtMs }
  holePending := false
  lastClosedBy := .tick
  lastClosedAtMs := none

/-- The clock's closing of a pair: how far it goes at `nowMs`, if a second is due. -/
def clockTarget (pair : SecondPair) (nowMs : ℚ) : Option ℤ :=
  let next := pair.closedUntil + 1000
  if nowMs < next + o.closeMarginMs then none
  else some (next + ⌊(nowMs - o.closeMarginMs - next) / 1000⌋ * 1000)

end SecondPair

namespace SecondSeries

variable (o : SecondSeriesOptions)

/-- A tick's closing: the seconds before its own. -/
def tickClosing (pair : SecondPair) (tick : Tick) : SecondPair.Closing :=
  let second := secondOf tick.timestamp
  if pair.closedUntil < second - 1000 then pair.closeThrough o (second - 1000)
  else { pair, closed := [], wasReset := false }

/-- A tick of a known pair, past its last closed second. -/
def applyTick (s : SecondSeries) (assetId : ℕ) (pair : SecondPair) (tick : Tick) (receivedAtMs : ℚ) :
    SecondSeries × List SeriesEvent :=
  let closing := tickClosing o pair tick
  let pair' := (closing.pair.apply tick receivedAtMs).announced closing.closed .tick receivedAtMs
  ({ pairs := s.pairs.set assetId pair', counts := closing.count .tick s.counts },
    closing.events assetId .tick receivedAtMs)

def push (s : SecondSeries) (assetId : ℕ) (digits : ℤ) (tick : Tick) (receivedAtMs : ℚ) :
    SecondSeries × List SeriesEvent :=
  if tickProblem tick receivedAtMs ≠ none then (s, [])
  else if receivedAtMs + o.closeMarginMs < tick.timestamp then
    ({ s with counts := { s.counts with ahead := s.counts.ahead + 1 } }, [])
  else match s.pairs.get? assetId with
    | none =>
      match assertDigits digits with
      | none => (s, [])
      | some digits =>
        ({ s with pairs := s.pairs.set assetId (SecondPair.opened digits tick receivedAtMs) }, [])
    | some pair =>
      if tick.timestamp ≤ pair.closedUntil then
        ({ s with counts := { s.counts with late := s.counts.late + 1 } }, [])
      else s.applyTick o assetId pair tick receivedAtMs

/-- The clock's closing of one pair. -/
def clockClosing (pair : SecondPair) (nowMs : ℚ) : SecondPair.Closing :=
  match pair.clockTarget o nowMs with
  | none => { pair, closed := [], wasReset := false }
  | some target => pair.closeThrough o target

/-- The clock rule for every pair. -/
def advance (s : SecondSeries) (nowMs : ℚ) : SecondSeries × List SeriesEvent :=
  ({ pairs := s.pairs.mapVal (fun _ pair =>
        (clockClosing o pair nowMs).pair.announced (clockClosing o pair nowMs).closed .clock nowMs)
     counts := s.pairs.entries.foldl (fun counts e => (clockClosing o e.2 nowMs).count .clock counts)
      s.counts },
    s.pairs.entries.flatMap (fun e => (clockClosing o e.2 nowMs).events e.1 .clock nowMs))

/-- The active socket left `ready`. -/
def onDrop (s : SecondSeries) : SecondSeries :=
  { s with pairs := s.pairs.mapVal (fun _ pair => { pair with holePending := true }) }

/-! ### Readers -/

/-- The close of a second, if it is a closed second the series still holds: `none` is NaN. -/
def close (s : SecondSeries) (assetId : ℕ) (f : ℤ) : Option ℚ :=
  match s.pairs.get? assetId with
  | none => none
  | some pair => if pair.held o f then (pair.readSecond o f).map LastTick.price else none

structure SecondWindow where
  closes : List (Option ℚ)
  complete : Bool
  deriving DecidableEq, Repr

/-- The second of place `i` in a window of `lengthSec` seconds that ends at `f`. -/
def windowSecond (f : ℤ) (lengthSec i : ℕ) : ℤ := f - ((lengthSec : ℤ) - 1 - i) * 1000

def window (s : SecondSeries) (assetId : ℕ) (f : ℤ) (lengthSec : ℕ) : SecondWindow :=
  match s.pairs.get? assetId with
  | none => { closes := List.replicate lengthSec none, complete := false }
  | some pair => {
      closes := (List.range lengthSec).map (fun i =>
        let second := windowSecond f lengthSec i
        if pair.held o second then (pair.readSecond o second).map LastTick.price else none)
      complete := (List.range lengthSec).all (fun i => pair.held o (windowSecond f lengthSec i)) }

def lastTickOf (s : SecondSeries) (assetId : ℕ) (f : ℤ) : Option LastTick :=
  match s.pairs.get? assetId with
  | none => none
  | some pair => if pair.held o f then pair.readSecond o f else none

def digitsOf (s : SecondSeries) (assetId : ℕ) : Option ℕ := (s.pairs.get? assetId).map SecondPair.digits

structure LastClosed where
  second : ℤ
  closedBy : H1SecondClosedBy
  closedAtMs : Option ℚ
  deriving DecidableEq, Repr

def lastClosed (s : SecondSeries) (assetId : ℕ) : Option LastClosed :=
  match s.pairs.get? assetId with
  | none => none
  | some pair =>
    if pair.held o pair.closedUntil then
      some { second := pair.closedUntil, closedBy := pair.lastClosedBy, closedAtMs := pair.lastClosedAtMs }
    else none

end SecondSeries

end Binarius
