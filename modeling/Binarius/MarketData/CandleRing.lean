import Mathlib.Tactic
import Binarius.Lib.OrderedMap
import Binarius.Signal.CandleBuilder

/-!
# MarketData.CandleRing — the candles of the data socket (apps/backend/src/market-data/ring.ts)

One builder per pair and interval.  A bucket is closed once the watermark of all pairs or the process
clock reaches its end; a hole of a pair is marked at the pair's first tick past its own watermark.

* `CandleRing.push`, `onDrop`, `fill`: the writers.
* `CandleRing.read`: the window of a pair; `closedBuilt` are its tick-built closed candles.
-/

namespace Binarius

open Lib

/-- An interval of candles. -/
structure ScanInterval where
  ms : ℕ
  pos : 0 < ms
  deriving DecidableEq

structure CandleRingOptions where
  capacity : ℕ
  skewMarginMs : ℚ
  intervals : List ScanInterval
  capacity_pos : 0 < capacity
  margin_nonneg : 0 ≤ skewMarginMs

structure RingPair where
  builders : OrderedMap ScanInterval CandleBuilder
  filled : OrderedMap ScanInterval (OrderedMap ℤ Candle)
  holePending : Bool
  /-- the pair's watermark when the socket dropped -/
  dropWatermark : Option ℚ

structure CandleRingCounters where
  invalid : ℕ := 0
  skewed : ℕ := 0
  ahead : ℕ := 0
  holes : ℕ := 0
  lateByWatermark : ℕ := 0
  lateByClock : ℕ := 0
  deriving DecidableEq, Repr

structure CandleRing where
  pairs : OrderedMap ℕ RingPair := OrderedMap.empty
  watermark : Option ℚ := none
  drops : ℕ := 0
  counts : CandleRingCounters := {}

namespace CandleRing

variable (o : CandleRingOptions)

def byWatermark (r : CandleRing) (interval : ScanInterval) : Option ℤ :=
  r.watermark.map (fun watermark => floorTo watermark interval.ms)

def byClock (interval : ScanInterval) (nowMs : ℚ) : ℤ := floorTo (nowMs - o.skewMarginMs) interval.ms

def closedUntil (r : CandleRing) (interval : ScanInterval) (nowMs : ℚ) : ℤ :=
  match r.byWatermark interval with
  | none => byClock o interval nowMs
  | some bound => max bound (byClock o interval nowMs)

/-- The pair, or a new one: a pair first heard after a drop may have lost the start of its bucket. -/
def pairOf (r : CandleRing) (assetId : ℕ) : RingPair :=
  (r.pairs.get? assetId).getD
    { builders := OrderedMap.empty, filled := OrderedMap.empty, holePending := decide (0 < r.drops)
      dropWatermark := none }

/-- The builders of a pair's first tick. -/
def withBuilders (pair : RingPair) (digits : ℕ) : RingPair :=
  if pair.builders.entries = [] then
    { pair with
      builders := o.intervals.foldl (fun builders interval =>
        builders.set interval { intervalMs := interval.ms, digits, capacity := o.capacity })
        OrderedMap.empty }
  else pair

/-- The pair's drop ends at a tick past its own watermark. -/
def endsHole (pair : RingPair) (timestamp : ℚ) : Bool :=
  pair.holePending && pair.dropWatermark.all (fun mark => decide (mark < timestamp))

/-- The hole of a drop, marked on every builder at the first tick past it. -/
def markHoles (pair : RingPair) (timestamp : ℚ) : RingPair :=
  if endsHole pair timestamp then
    { pair with
      builders := pair.builders.mapVal (fun _ builder =>
        builder.markHole (pair.dropWatermark.getD timestamp) timestamp)
      holePending := false
      dropWatermark := none }
  else pair

/-- A tick that changed a candle the ring already called closed, by the rule that closed it. -/
def countLate (r : CandleRing) (tick : Tick) (receivedAtMs : ℚ) (counts : CandleRingCounters)
    (e : ScanInterval × CandleBuilder) : CandleRingCounters :=
  let after := e.2.push tick receivedAtMs
  let limit := floorTo tick.timestamp e.1.ms + e.1.ms
  if after.late ≠ e.2.late ∨ after.holed ≠ e.2.holed then counts
  else if (r.byWatermark e.1).any (fun bound => decide (limit ≤ bound)) then
    { counts with lateByWatermark := counts.lateByWatermark + 1 }
  else if limit ≤ byClock o e.1 receivedAtMs then { counts with lateByClock := counts.lateByClock + 1 }
  else counts

/-- A tick that no check refuses: its pair's builders, its hole if it ends one, the watermark. -/
def acceptTick (r : CandleRing) (assetId : ℕ) (pair : RingPair) (tick : Tick) (receivedAtMs : ℚ) :
    CandleRing :=
  let marked := markHoles pair tick.timestamp
  { r with
    pairs := r.pairs.set assetId { marked with
      builders := marked.builders.mapVal (fun _ builder => builder.push tick receivedAtMs) }
    watermark :=
      if r.watermark.all (fun watermark => decide (watermark < tick.timestamp)) then some tick.timestamp
      else r.watermark
    counts := marked.builders.entries.foldl (r.countLate o tick receivedAtMs)
      (if endsHole pair tick.timestamp then { r.counts with holes := r.counts.holes + 1 } else r.counts) }

/-- `assertDigits` throws when the builders are created: the pair is there by then, with no builder. -/
def push (r : CandleRing) (assetId : ℕ) (digits : ℤ) (tick : Tick) (receivedAtMs : ℚ) : CandleRing :=
  match tickProblem tick receivedAtMs with
  | some .invalid => { r with counts := { r.counts with invalid := r.counts.invalid + 1 } }
  | some .skewed => { r with counts := { r.counts with skewed := r.counts.skewed + 1 } }
  | none =>
    if receivedAtMs + o.skewMarginMs < tick.timestamp then
      { r with counts := { r.counts with ahead := r.counts.ahead + 1 } }
    else
      let pair := r.pairOf assetId
      match assertDigits digits with
      | some digits => r.acceptTick o assetId (withBuilders o pair digits) tick receivedAtMs
      | none =>
        if pair.builders.entries = [] ∧ o.intervals ≠ [] then { r with pairs := r.pairs.set assetId pair }
        else r.acceptTick o assetId pair tick receivedAtMs

/-- The watermark of a pair: its first builder's. -/
def pairWatermark (pair : RingPair) : Option ℚ := pair.builders.entries.head?.bind (fun e => e.2.watermark)

/-- A second drop before the pair's next tick keeps the first one's mark. -/
def dropPair (pair : RingPair) : RingPair :=
  if pair.holePending then pair
  else { pair with holePending := true, dropWatermark := pairWatermark pair }

/-- The active socket left `ready`. -/
def onDrop (r : CandleRing) : CandleRing :=
  { r with drops := r.drops + 1, pairs := r.pairs.mapVal (fun _ pair => dropPair pair) }

/-! ### Readers -/

def startTime (interval : ScanInterval) (nowMs : ℚ) : ℤ :=
  floorTo nowMs interval.ms - (o.capacity - 1) * interval.ms

def inWindow (interval : ScanInterval) (nowMs : ℚ) (timestamp : ℤ) : Bool :=
  decide (startTime o interval nowMs ≤ timestamp) && decide (timestamp ≤ floorTo nowMs interval.ms)

def isClosed (r : CandleRing) (interval : ScanInterval) (nowMs : ℚ) (timestamp : ℤ) : Bool :=
  decide (timestamp + interval.ms ≤ r.closedUntil o interval nowMs)

/-- The candles a pair's builder holds. -/
def built (r : CandleRing) (assetId : ℕ) (interval : ScanInterval) : List Candle :=
  (((r.pairs.get? assetId).bind (fun pair => pair.builders.get? interval)).map CandleBuilder.stored).getD []

def filledRows (r : CandleRing) (assetId : ℕ) (interval : ScanInterval) : List Candle :=
  (((r.pairs.get? assetId).bind (fun pair => pair.filled.get? interval)).map
    (fun rows => rows.entries.map Prod.snd)).getD []

/-- The closed tick-built candles of the window. -/
def closedBuilt (r : CandleRing) (assetId : ℕ) (interval : ScanInterval) (nowMs : ℚ) : List Candle :=
  (r.built assetId interval).filter (fun candle =>
    inWindow o interval nowMs candle.timestamp && r.isClosed o interval nowMs candle.timestamp)

/-- The closed filled rows of the window that no tick-built candle replaces. -/
def closedFilled (r : CandleRing) (assetId : ℕ) (interval : ScanInterval) (nowMs : ℚ) : List Candle :=
  (r.filledRows assetId interval).filter (fun row =>
    inWindow o interval nowMs row.timestamp && r.isClosed o interval nowMs row.timestamp &&
      !(r.closedBuilt o assetId interval nowMs).any (fun candle => candle.timestamp = row.timestamp))

structure CandleWindow where
  candles : List Candle
  forming : Option Candle
  closedUntil : ℤ
  startTime : ℤ
  gaps : List ℤ
  deriving DecidableEq, Repr

/-- The closed buckets of the window that hold no candle. -/
def gaps (r : CandleRing) (candles : List Candle) (interval : ScanInterval) (nowMs : ℚ) : List ℤ :=
  ((List.range o.capacity).map (fun i => startTime o interval nowMs + i * (interval.ms : ℤ))).filter
    (fun bucket => r.isClosed o interval nowMs bucket &&
      !candles.any (fun candle => candle.timestamp = bucket))

def read (r : CandleRing) (assetId : ℕ) (interval : ScanInterval) (nowMs : ℚ) : CandleWindow :=
  let candles := r.closedFilled o assetId interval nowMs ++ r.closedBuilt o assetId interval nowMs
  { candles := candles.mergeSort (fun a b => decide (a.timestamp ≤ b.timestamp))
    forming := ((r.built assetId interval).filter (fun candle =>
      inWindow o interval nowMs candle.timestamp && !r.isClosed o interval nowMs candle.timestamp)).getLast?
    closedUntil := r.closedUntil o interval nowMs
    startTime := startTime o interval nowMs
    gaps := r.gaps o candles interval nowMs }

/-- **What a read serves**: its filled rows and its tick-built candles. -/
theorem mem_read {r : CandleRing} {assetId : ℕ} {interval : ScanInterval} {nowMs : ℚ} {candle : Candle} :
    candle ∈ (r.read o assetId interval nowMs).candles ↔
      candle ∈ r.closedFilled o assetId interval nowMs ∨ candle ∈ r.closedBuilt o assetId interval nowMs :=
  List.mem_mergeSort.trans List.mem_append

/-- A row of the backfill: taken into a closed bucket of the window that has no candle. -/
def fillRow (r : CandleRing) (assetId : ℕ) (interval : ScanInterval) (nowMs : ℚ)
    (rows : OrderedMap ℤ Candle) (row : Candle) : OrderedMap ℤ Candle :=
  if row.timestamp % interval.ms = 0 ∧ inWindow o interval nowMs row.timestamp ∧
      r.isClosed o interval nowMs row.timestamp ∧
      !(r.built assetId interval).any (fun candle => candle.timestamp = row.timestamp) ∧
      !rows.has row.timestamp then
    rows.set row.timestamp row
  else rows

def fill (r : CandleRing) (assetId : ℕ) (interval : ScanInterval) (rows : List Candle) (nowMs : ℚ) :
    CandleRing :=
  let pair := r.pairOf assetId
  let kept := (((pair.filled.get? interval).getD OrderedMap.empty).entries.map Prod.fst).filter
    (fun timestamp => decide (timestamp < startTime o interval nowMs))
  let filled := rows.foldl (r.fillRow o assetId interval nowMs)
    (kept.foldl OrderedMap.erase ((pair.filled.get? interval).getD OrderedMap.empty))
  { r with pairs := r.pairs.set assetId { pair with filled := pair.filled.set interval filled } }

end CandleRing

end Binarius
