import Mathlib.Tactic
import Binarius.Lib.OrderedMap
import Binarius.Lib.History
import Binarius.Lib.Runs
import Binarius.Backend.DriverRuns

/-!
# Backend.NoSignalStop — when the driver stops an H1 session that has no signal
(apps/backend/src/h1/driver.ts)

One session whose settings the driver accepts: its row, the route that starts it, the scan, the closed
seconds of its pair, the notices, and the runs the driver launches for it, a callback at a time.  What a
callback reads (the history, the catalog, the detector's decision, the clock) is given with the act.

* `H1DriverWorld.act`: one callback; a state of the session is an object, which its run keeps when the
  driver drops it.
* `countedAfter`: the seconds counted since the last entry of a kind.
* `H1DriverWorld.Inv`: the count of a session's state is the number of the seconds counted since then.
* `no_signal_stop`: **a stop for no signal has its evidence**.
* `unanswered_intent_stops`: an intent whose creation the driver was not told of resets nothing.
-/

namespace Binarius

open Lib

/-! ## The limit -/

/-- The candles a signal may be of, in ms, the longest first. -/
def signalIntervalsMs : List ℕ := [3600000, 1800000, 900000, 300000, 60000, 15000, 5000]

/-- The longest candle that fits in the trade's duration; below the shortest candle, the shortest. -/
def sessionSignalCandleMs (durationSec : ℕ) : ℕ :=
  (signalIntervalsMs.find? (fun ms => ms ≤ durationSec * 1000)).getD 5000

def sessionNoSignalCandles : ℕ := 20

def sessionNoSignalTimeoutMs (durationSec : ℕ) : ℕ :=
  sessionNoSignalCandles * sessionSignalCandleMs durationSec

def noSignalLimitSec (settings : H1SessionSettings) : ℕ :=
  sessionNoSignalTimeoutMs settings.durationSec / 1000

/-! ## The driver's state of one session -/

inductive H1NoSignalReason
  | noPrice
  | noVolatility
  | belowThreshold
  deriving DecidableEq, Repr

inductive SecondDecision
  | signal (action : TradeAction)
  | noSignal (reason : H1NoSignalReason)
  deriving DecidableEq, Repr

/-- The detector's decision on a second of the pair. -/
structure SecondReading where
  f : ℤ
  closedAtMs : ℤ
  takenAtMs : ℤ
  decision : SecondDecision
  payout : List Char
  deriving DecidableEq, Repr

/-- Where a run of the driver waits. -/
inductive DriverRun
  /-- `trade` reads the session -/
  | trade (plan : Option H1TradePlan)
  /-- `trade` creates the intent; whether the transaction has committed -/
  | creating (plan : Option H1TradePlan) (repeats : Bool) (takenAtMs : ℤ) (committed : Bool)
  /-- a refusal stops the session -/
  | refusing
  /-- `onNoSignal` reads the session -/
  | noSignal
  /-- `onNoSignal` records the waiting row -/
  | recording
  /-- `onNoSignal` stops the session, active or not when it asked -/
  | stopping (live : Bool)
  /-- the last row of a refusal or of a stop -/
  | ending
  deriving DecidableEq, Repr

structure DriverTracked where
  /-- the run in flight: the state is busy -/
  run : Option DriverRun := none
  nextAt : Option ℤ := none
  waitingRecorded : Bool := false
  waitingRetryAt : Option ℤ := none
  renotice : Bool := false
  repeatPending : Bool := false
  noSignalSeconds : ℕ := 0
  adoptedSeq : ℕ
  deriving DecidableEq, Repr

inductive H1SessionStatus
  | absent
  | active
  | ended
  deriving DecidableEq, Repr

inductive NoSignalEntry
  /-- a state is made for the session -/
  | tracked
  | notice
  /-- the intent's transaction has committed -/
  | committed
  /-- the creation of an intent is answered -/
  | answered
  /-- the second's no_signal is counted -/
  | counted (f : ℤ)
  | waitingRow
  /-- the stop is asked for, over this history -/
  | asked (live : Bool) (history : SessionHistory)
  /-- the session is stopped with no_signal_timeout -/
  | stopped
  deriving DecidableEq

structure NoSignalConfig where
  tracked : Tracked
  scanMs : ℤ

structure H1DriverWorld where
  status : H1SessionStatus := .absent
  /-- what the start has read -/
  reading : Option SecondReading := none
  /-- the route has created the session and not yet handed it over -/
  routePending : Bool := false
  /-- the seconds of the pair that have closed -/
  closed : List ℤ := []
  /-- those that had when the session was created -/
  closedBefore : List ℤ := []
  /-- every state made for the session -/
  states : OrderedMap ℕ DriverTracked := .empty
  made : ℕ := 0
  /-- the one the driver tracks -/
  tracked : Option ℕ := none
  gone : Bool := false
  scanSeq : ℕ := 0
  /-- the scan's `list`, and whether it has listed the session -/
  scanning : Option (Option Bool) := none
  stopped : Bool := false
  log : List NoSignalEntry := []

inductive DriverStart
  | plain
  | reading
  | shown (shown : ShownStart) (nowMs : ℤ)

def DriverTracked.held (st : DriverTracked) (second : ℤ) : Bool :=
  st.nextAt.any (fun nextAt => decide (second < nextAt))

/-- A run is over; a notice that came meanwhile starts the next one. -/
def DriverTracked.finished (st : DriverTracked) (renotices : Bool) : DriverTracked :=
  if st.renotice && renotices then { st with run := some (.trade none), renotice := false }
  else { st with run := none }

namespace H1DriverWorld

variable (cfg : NoSignalConfig) (w : H1DriverWorld)

/-- A change of one state, with what the log says of it. -/
def update (k : ℕ) (st : DriverTracked) (entries : List NoSignalEntry) : H1DriverWorld :=
  { w with states := w.states.set k st, log := w.log ++ entries }

def forget : H1DriverWorld := { w with tracked := none, gone := true }

def finish (k : ℕ) (st : DriverTracked) (entries : List NoSignalEntry) : H1DriverWorld :=
  w.update k (st.finished (!w.stopped && decide (w.tracked = some k))) entries

def add : H1DriverWorld :=
  { w.update w.made { adoptedSeq := w.scanSeq } [.tracked] with made := w.made + 1, tracked := some w.made }

/-- The session is over. -/
def sessionEnds : H1DriverWorld := { w with status := if w.status = .active then .ended else w.status }

/-! ### A second -/

/-- A decision of the session's detector: counted, then the no-signal run or the trade. -/
def actSecond (k : ℕ) (st : DriverTracked) (r : SecondReading) : H1DriverWorld :=
  match r.decision with
  | .signal action =>
    w.update k { st with run := some (.trade (some (.signal {
      f := r.f, closedAtMs := r.closedAtMs, takenAtMs := r.takenAtMs, action, payout := r.payout }))) } []
  -- a missing price is a hole in the data, not a reading of the market
  | .noSignal .noPrice => w
  | .noSignal _ =>
    let seconds := st.noSignalSeconds + 1
    let due := (!st.waitingRecorded && st.waitingRetryAt.all (fun retryAt => decide (retryAt ≤ r.takenAtMs))) ||
      decide (noSignalLimitSec cfg.tracked.settings ≤ seconds)
    w.update k { st with noSignalSeconds := seconds, run := if due then some .noSignal else none }
      [.counted r.f]

/-- What a closed second reads: the pair, its digits and its window. -/
structure SecondView where
  eligible : Bool
  digits : Bool
  complete : Bool
  closedAtMs : ℤ
  takenAtMs : ℤ
  decision : SecondDecision
  payout : List Char
  deriving DecidableEq, Repr

def decideSecond (f : ℤ) (view : SecondView) : H1DriverWorld :=
  match w.tracked with
  | none => w
  | some k =>
    match w.states.get? k with
    | none => w
    | some st =>
      if !view.eligible || st.run.isSome then w
      else if st.repeatPending then w.update k { st with run := some (.trade none) } []
      else if st.held f || !view.digits || !view.complete then w
      else w.actSecond cfg k st
        { f, closedAtMs := view.closedAtMs, takenAtMs := view.takenAtMs, decision := view.decision,
          payout := view.payout }

/-- The series tells of its seconds in order (`second_values`). -/
def closeSecond (f : ℤ) (view : SecondView) : H1DriverWorld :=
  if w.closed.all (fun g => decide (g < f)) then
    let w := { w with closed := f :: w.closed }
    if w.stopped then w else w.decideSecond cfg f view
  else w

def onNotice : H1DriverWorld :=
  if w.stopped then w
  else match w.tracked with
    | none => w
    | some k =>
      match w.states.get? k with
      | none => w
      | some st =>
        let st := { st with waitingRecorded := false, noSignalSeconds := 0 }
        if st.run.isSome then w.update k { st with renotice := true } [.notice]
        else w.update k { st with run := some (.trade none) } [.notice]

/-! ### The session's start and the scan -/

/-- `current`: the newest closed second, before the session is created. -/
def startReads (r : SecondReading) : H1DriverWorld :=
  if w.status = .absent ∧ w.closed.head? = some r.f then { w with reading := some r } else w

def creates : H1DriverWorld :=
  if w.status = .absent then
    { w with status := .active, routePending := true, closedBefore := w.closed }
  else w

def startTracked (k : ℕ) (start : DriverStart) : H1DriverWorld :=
  match w.states.get? k with
  | none => w
  | some st =>
    let st := { st with adoptedSeq := w.scanSeq }
    let w := w.update k st []
    if st.run.isSome then w
    else match start with
      | .plain => w
      | .shown shown nowMs =>
        if st.held nowMs then w else w.update k { st with run := some (.trade (some (.shown shown))) } []
      | .reading =>
        match w.reading with
        | none => w
        | some r => if st.held r.f then w else w.actSecond cfg k st r

def adopts (start : DriverStart) : H1DriverWorld :=
  if !w.routePending then w
  else
    let w := { w with routePending := false }
    if w.stopped || w.gone then w
    else match w.tracked with
      | some k => w.startTracked cfg k start
      | none => w.add.startTracked cfg w.made start

def scanStarts : H1DriverWorld :=
  if w.stopped || w.scanning.isSome then w else { w with scanSeq := w.scanSeq + 1, scanning := some none }

def scanReads : H1DriverWorld :=
  if w.scanning = some none then { w with scanning := some (some (decide (w.status = .active))) } else w

def scanEnds : H1DriverWorld :=
  match w.scanning with
  | some (some listed) =>
    let w := { w with scanning := none }
    if w.stopped then w
    else if listed then (if w.tracked.isSome || w.gone then w else w.add)
    else
      -- a state made after the list's read is no evidence that the session is gone
      let kept := w.tracked.bind (fun k => (w.states.get? k).bind (fun st =>
        if st.adoptedSeq < w.scanSeq then none else some k))
      { w with gone := false, tracked := kept }
  | _ => w

def scanFails : H1DriverWorld := { w with scanning := none }

/-! ### A run's answers -/

/-- `trade`, once it has read the session. -/
def tradeReads (k : ℕ) (st : DriverTracked) (plan : Option H1TradePlan) (reads : DriverReads)
    (read : Option SessionBatchRead) : H1DriverWorld :=
  let repeats := read.any (fun r => (repeatDue r.history.intents cfg.tracked.settings).isSome)
  match planTrade cfg.tracked plan reads read with
  | .error _ => w.finish k { st with repeatPending := st.repeatPending && repeats } []
  | .ok .gone => w.forget.finish k st []
  | .ok .pairIneligible => w.finish k { st with repeatPending := true } []
  | .ok .heldBalance => w.finish k { st with repeatPending := repeats } []
  | .ok (.create _) =>
    w.update k { st with
      repeatPending := st.repeatPending && repeats
      run := some (.creating plan repeats reads.stakeNowMs false) } []
  | .ok (.blocked _) => w.finish k { st with repeatPending := false } []
  | .ok .idle => w.finish k { st with repeatPending := false } []
  | .ok .balanceUnavailable => w.finish k { st with repeatPending := false } []
  | .ok .stakeStopped => w.finish k { st with repeatPending := false } []

/-- `onNoSignal`, once it has read the session. -/
def noSignalReads (k : ℕ) (st : DriverTracked) (nowMs : ℤ) (read : Option SessionBatchRead) :
    H1DriverWorld :=
  match read with
  | none => w.forget.finish k st []
  | some read =>
    if (sessionIntentBlock read.history cfg.tracked.settings).isSome then w.finish k st []
    else if (repeatDue read.history.intents cfg.tracked.settings).isSome then
      w.finish k { st with repeatPending := true } []
    else if !st.waitingRecorded then
      if st.waitingRetryAt.any (fun retryAt => decide (nowMs < retryAt)) then w.finish k st []
      else w.update k { st with run := some .recording } []
    else if st.noSignalSeconds < noSignalLimitSec cfg.tracked.settings ∨
        read.history.waitExpired = false then
      w.finish k st []
    else
      w.update k { st with run := some (.stopping (decide (w.status = .active))) }
        [.asked (decide (w.status = .active)) read.history]

/-- The answer of `read`; a session that is active has its row. -/
def readAnswers (k : ℕ) (reads : DriverReads) (read : Option SessionBatchRead) : H1DriverWorld :=
  match w.states.get? k with
  | none => w
  | some st =>
    if read.isNone ∧ w.status = .active then w
    else match st.run with
      | some (.trade plan) => if w.stopped then w.finish k st [] else w.tradeReads cfg k st plan reads read
      | some .noSignal =>
        if w.stopped then w.finish k st [] else w.noSignalReads cfg k st reads.stakeNowMs read
      | _ => w

/-- The transaction of `createIntent` commits. -/
def commits (k : ℕ) : H1DriverWorld :=
  match w.states.get? k with
  | none => w
  | some st =>
    match st.run with
    | some (.creating plan repeats takenAtMs false) =>
      if w.status = .active then
        w.update k { st with run := some (.creating plan repeats takenAtMs true) } [.committed]
      else w
    | _ => w

/-- One trade at a time: the signal's from its second, the others' from their creation. -/
def nextAt (plan : Option H1TradePlan) (repeats : Bool) (takenAtMs : ℤ) : ℤ :=
  let settings := cfg.tracked.settings
  match repeats, plan with
  | false, some (.signal signal) => signal.f + (settings.entryDelaySec + settings.expirySec + 1) * secondMs
  | _, _ => takenAtMs + (settings.expirySec + 1) * secondMs

/-- `createIntent` answers: the intent it made, or the one its step had. -/
def created (k : ℕ) : H1DriverWorld :=
  match w.states.get? k with
  | none => w
  | some st =>
    match st.run with
    | some (.creating plan repeats takenAtMs _) =>
      w.finish k { st with
        repeatPending := false
        waitingRecorded := false
        noSignalSeconds := 0
        nextAt := some (nextAt cfg plan repeats takenAtMs) } [.answered]
    | _ => w

/-- `createIntent` throws, its transaction committed or not. -/
def createThrows (k : ℕ) : H1DriverWorld :=
  match w.states.get? k with
  | none => w
  | some st =>
    match st.run with
    | some (.creating _ _ _ _) => w.finish k st []
    | _ => w

/-- `createIntent` finds the session no longer active. -/
def notActive (k : ℕ) : H1DriverWorld :=
  match w.states.get? k with
  | none => w
  | some st =>
    match st.run with
    | some (.creating _ _ _ false) => if w.status = .active then w else w.forget.finish k st []
    | _ => w

/-- `createIntent` refuses, and the refusal stops the session or not. -/
def refuses (k : ℕ) (stops : Bool) : H1DriverWorld :=
  match w.states.get? k with
  | none => w
  | some st =>
    match st.run with
    | some (.creating _ _ _ false) =>
      w.update k { st with run := some (if stops then .refusing else .ending) } []
    | _ => w

/-- What a stop for no signal writes. -/
def stopEntries : List NoSignalEntry := if w.status = .active then [.stopped] else []

/-- The stop answers: the session is stopped, by it or before it. -/
def stopAnswers (k : ℕ) : H1DriverWorld :=
  match w.states.get? k with
  | none => w
  | some st =>
    match st.run with
    | some .refusing => (w.update k { st with run := some .ending } []).sessionEnds.forget
    | some (.stopping _) => (w.update k { st with run := some .ending } w.stopEntries).sessionEnds.forget
    | _ => w

/-- The stop throws, executed or not. -/
def stopThrows (k : ℕ) (executed : Bool) : H1DriverWorld :=
  match w.states.get? k with
  | none => w
  | some st =>
    match st.run with
    | some .refusing =>
      if executed then (w.update k { st with run := some .ending } []).sessionEnds
      else w.update k { st with run := some .ending } []
    | some (.stopping _) => if executed then (w.finish k st w.stopEntries).sessionEnds else w.finish k st []
    | _ => w

/-- `record` answers, or fails. -/
def recorded (k : ℕ) (ok : Bool) (nowMs : ℤ) : H1DriverWorld :=
  match w.states.get? k with
  | none => w
  | some st =>
    match st.run with
    | some .recording =>
      if ok then w.finish k { st with waitingRecorded := true } [.waitingRow]
      else w.finish k { st with waitingRetryAt := some (nowMs + cfg.scanMs) } []
    | some .ending => w.finish k st []
    | _ => w

end H1DriverWorld

inductive H1DriverAct
  | closeSecond (f : ℤ) (view : H1DriverWorld.SecondView)
  | notice
  | startReads (r : SecondReading)
  | creates
  | adopts (start : DriverStart)
  /-- the session ends otherwise -/
  | ends
  | scanStarts
  | scanReads
  | scanEnds
  | scanFails
  | readAnswers (k : ℕ) (reads : DriverReads) (read : Option SessionBatchRead)
  | commits (k : ℕ)
  | created (k : ℕ)
  | createThrows (k : ℕ)
  | notActive (k : ℕ)
  | refuses (k : ℕ) (stops : Bool)
  | stopAnswers (k : ℕ)
  | stopThrows (k : ℕ) (executed : Bool)
  | recorded (k : ℕ) (ok : Bool) (nowMs : ℤ)
  | driverStops

def H1DriverWorld.act (cfg : NoSignalConfig) (w : H1DriverWorld) : H1DriverAct → H1DriverWorld
  | .closeSecond f view => w.closeSecond cfg f view
  | .notice => w.onNotice
  | .startReads r => w.startReads r
  | .creates => w.creates
  | .adopts start => w.adopts cfg start
  | .ends => w.sessionEnds
  | .scanStarts => w.scanStarts
  | .scanReads => w.scanReads
  | .scanEnds => w.scanEnds
  | .scanFails => w.scanFails
  | .readAnswers k reads read => w.readAnswers cfg k reads read
  | .commits k => w.commits k
  | .created k => w.created cfg k
  | .createThrows k => w.createThrows k
  | .notActive k => w.notActive k
  | .refuses k stops => w.refuses k stops
  | .stopAnswers k => w.stopAnswers k
  | .stopThrows k executed => w.stopThrows k executed
  | .recorded k ok nowMs => w.recorded cfg k ok nowMs
  | .driverStops => { w with stopped := true }

/-! ## The evidence -/

def NoSignalEntry.counted? : NoSignalEntry → Option ℤ
  | .counted f => some f
  | _ => none

/-- The driver sees the session change: a state is made for it, a notice came, or an intent's creation
is answered. -/
def NoSignalEntry.resets : NoSignalEntry → Bool
  | .tracked => true
  | .notice => true
  | .answered => true
  | _ => false

/-- The seconds counted since the last entry of a kind. -/
def countedAfter (resets : NoSignalEntry → Bool) (log : List NoSignalEntry) : List ℤ :=
  log.foldl (fun counted e => if resets e then [] else counted ++ e.counted?.toList) []

theorem countedAfter_append (resets : NoSignalEntry → Bool) (log : List NoSignalEntry) (e : NoSignalEntry) :
    countedAfter resets (log ++ [e]) = if resets e then [] else countedAfter resets log ++
      e.counted?.toList := by
  unfold countedAfter
  rw [List.foldl_append]
  rfl

/-- A waiting row was recorded since the last entry of a kind. -/
def recordedAfter (resets : NoSignalEntry → Bool) (log : List NoSignalEntry) : Bool :=
  log.foldl (fun recorded e => !resets e && (recorded || decide (e = .waitingRow))) false

theorem recordedAfter_append (resets : NoSignalEntry → Bool) (log : List NoSignalEntry) (e : NoSignalEntry) :
    recordedAfter resets (log ++ [e]) =
      (!resets e && (recordedAfter resets log || decide (e = .waitingRow))) := by
  unfold recordedAfter
  rw [List.foldl_append]
  rfl

/-- What resets nothing leaves it recorded. -/
theorem recordedAfter_kept {resets : NoSignalEntry → Bool} {log : List NoSignalEntry} {e : NoSignalEntry}
    (hreset : resets e = false) (h : recordedAfter resets log = true) :
    recordedAfter resets (log ++ [e]) = true := by
  rw [recordedAfter_append, hreset, h]
  rfl

/-- **What a stop rests on**: the seconds counted and the waiting row recorded since the last entry of a
kind, each second once, and a history that has waited long enough, with no block and no repeat due. -/
def EvidenceOk (resets : NoSignalEntry → Bool) (settings : H1SessionSettings)
    (before : List NoSignalEntry) :
    NoSignalEntry → Prop
  | .asked live history =>
    live = true → noSignalLimitSec settings ≤ (countedAfter resets before).length ∧
      (countedAfter resets before).Nodup ∧ recordedAfter resets before = true ∧ history.waitExpired = true ∧
      sessionIntentBlock history settings = none ∧ repeatDue history.intents settings = none
  | .stopped => ∃ history, .asked true history ∈ before
  | _ => True

/-- A state's count and its waiting row, by the log. -/
structure CountOk (log : List NoSignalEntry) (st : DriverTracked) : Prop where
  seconds : st.noSignalSeconds = (countedAfter NoSignalEntry.resets log).length
  waiting : st.waitingRecorded = true → recordedAfter NoSignalEntry.resets log = true
  asked : ∀ live, st.run = some (.stopping live) → live = true ∧ ∃ history, .asked true history ∈ log

/-- The seconds counted have closed, each counted once, and none before the session was created but the
start's. -/
structure CountedOk (closed closedBefore : List ℤ) (routePending : Bool) (log : List NoSignalEntry) : Prop where
  nodup : (countedAfter NoSignalEntry.resets log).Nodup
  closed : ∀ f ∈ countedAfter NoSignalEntry.resets log, f ∈ closed
  later : routePending = true → ∀ f ∈ countedAfter NoSignalEntry.resets log, f ∉ closedBefore

/-- What every callback keeps. -/
structure H1DriverWorld.Inv (cfg : NoSignalConfig) (w : H1DriverWorld) : Prop where
  log : LogOk (EvidenceOk NoSignalEntry.resets cfg.tracked.settings) w.log
  absent : w.status = .absent → (∀ k, w.states.get? k = none) ∧ countedAfter NoSignalEntry.resets w.log = []
  fresh : ∀ k st, w.states.get? k = some st → k < w.made
  /-- an active session has at most one state, and the driver tracks it -/
  one : w.status = .active → ∀ k st, w.states.get? k = some st → w.tracked = some k
  count : w.status = .active → ∀ k st, w.states.get? k = some st → CountOk w.log st
  counted : w.status = .active → CountedOk w.closed w.closedBefore w.routePending w.log
  before : ∀ f ∈ w.closedBefore, f ∈ w.closed
  reading : ∀ r, w.reading = some r → r.f ∈ w.closed ∧ (w.status ≠ .absent → r.f ∈ w.closedBefore)
  pending : w.routePending = true → w.status ≠ .absent
  listed : w.scanning = some (some true) → w.status ≠ .absent
  /-- an active session that a scan has not listed was created after it -/
  unlisted : w.scanning = some (some false) → w.status = .active →
    ∀ k st, w.states.get? k = some st → st.adoptedSeq = w.scanSeq

section Counted

variable {closed closedBefore : List ℤ} {routePending : Bool}

/-- The log entries that say nothing of the count. -/
theorem countedAfter_plain {e : NoSignalEntry} (hreset : e.resets = false) (hcounted : e.counted? = none)
    (log : List NoSignalEntry) :
    countedAfter NoSignalEntry.resets (log ++ [e]) = countedAfter NoSignalEntry.resets log := by
  rw [countedAfter_append, hreset, hcounted]
  exact List.append_nil _

theorem CountedOk.plain {log : List NoSignalEntry} {e : NoSignalEntry} (h : CountedOk closed closedBefore routePending log)
    (hreset : e.resets = false) (hcounted : e.counted? = none) : CountedOk closed closedBefore routePending (log ++ [e]) := by
  have hsame := countedAfter_plain hreset hcounted log
  exact ⟨by rw [hsame]; exact h.nodup, by rw [hsame]; exact h.closed, by rw [hsame]; exact h.later⟩

theorem CountedOk.reset {log : List NoSignalEntry} {e : NoSignalEntry} (hreset : e.resets = true) :
    CountedOk closed closedBefore routePending (log ++ [e]) := by
  have hempty : countedAfter NoSignalEntry.resets (log ++ [e]) = [] := by
    rw [countedAfter_append, hreset]
    rfl
  refine ⟨?_, ?_, fun _ => ?_⟩
  · rw [hempty]
    exact List.nodup_nil
  · rw [hempty]
    exact fun f hf => absurd hf List.not_mem_nil
  · rw [hempty]
    exact fun f hf => absurd hf List.not_mem_nil

end Counted

theorem except_map_eq_ok {ε α β : Type} {f : α → β} {x : Except ε α} {b : β} (h : x.map f = .ok b) :
    ∃ a, x = .ok a ∧ f a = b := by
  cases x with
  | error e => cases h
  | ok a => exact ⟨a, rfl, Except.ok.inj h⟩

/-- `trade` finds the row of a session that has one. -/
theorem planTrade_not_gone {state : Tracked} {plan : Option H1TradePlan} {reads : DriverReads}
    (read : SessionBatchRead) : planTrade state plan reads (some read) ≠ .ok .gone := by
  have hstake : ∀ {history awaitsBalance decision terms},
      plannedStake state history awaitsBalance decision terms ≠ .gone := by
    intro history awaitsBalance decision terms
    unfold plannedStake
    split
    · exact TradePlanned.noConfusion
    · split_ifs
      · exact TradePlanned.noConfusion
      · exact TradePlanned.noConfusion
    · exact TradePlanned.noConfusion
  intro hgone
  unfold planTrade at hgone
  simp only at hgone
  cases hblock : sessionIntentBlock read.history state.settings with
  | some reason =>
    rw [hblock] at hgone
    cases hgone
  | none =>
    rw [hblock] at hgone
    simp only at hgone
    split_ifs at hgone
    · cases hgone
    · cases hgone
    · cases hbalance : read.balance with
      | none =>
        rw [hbalance] at hgone
        cases hgone
      | some balance =>
        rw [hbalance] at hgone
        simp only at hgone
        obtain ⟨decision, -, hplanned⟩ := except_map_eq_ok hgone
        exact hstake hplanned

namespace H1DriverWorld

section Inv

variable {cfg : NoSignalConfig} {w : H1DriverWorld} {k : ℕ} {st st' : DriverTracked}
  {entries : List NoSignalEntry}

/-- **A change of one state**, right by the log it leaves. -/
theorem Inv.update (h : w.Inv cfg) (hst : w.states.get? k = some st)
    (hseq : st'.adoptedSeq = st.adoptedSeq ∨ st'.adoptedSeq = w.scanSeq)
    (hlog : LogOk (EvidenceOk NoSignalEntry.resets cfg.tracked.settings) (w.log ++ entries))
    (hcount : w.status = .active → CountOk (w.log ++ entries) st')
    (hcounted : w.status = .active → CountedOk w.closed w.closedBefore w.routePending (w.log ++ entries)) :
      (w.update k st' entries).Inv cfg := by
  have hget : ∀ k' st'', (w.states.set k st').get? k' = some st'' →
      (k' = k ∧ st'' = st') ∨ (k' ≠ k ∧ w.states.get? k' = some st'') := by
    intro k' st'' hset
    rw [OrderedMap.get?_set] at hset
    split_ifs at hset with hk
    · exact .inl ⟨hk.symm, (Option.some.inj hset).symm⟩
    · exact .inr ⟨fun heq => hk heq.symm, hset⟩
  refine ⟨hlog, fun habsent => ?_, ?_, ?_, ?_, hcounted, h.before, h.reading, h.pending, h.listed, ?_⟩
  · rw [(h.absent habsent).1 k] at hst
    cases hst
  · intro k' st'' h'
    rcases hget k' st'' h' with ⟨rfl, -⟩ | ⟨-, hold⟩
    · exact h.fresh k' st hst
    · exact h.fresh k' st'' hold
  · intro hactive k' st'' h'
    rcases hget k' st'' h' with ⟨rfl, -⟩ | ⟨-, hold⟩
    · exact h.one hactive k' st hst
    · exact h.one hactive k' st'' hold
  · intro hactive k' st'' h'
    rcases hget k' st'' h' with ⟨rfl, rfl⟩ | ⟨hne, hold⟩
    · exact hcount hactive
    · -- an active session has one state
      exact absurd (Option.some.inj ((h.one hactive k' st'' hold).symm.trans (h.one hactive k st hst))) hne
  · intro hscan hactive k' st'' h'
    rcases hget k' st'' h' with ⟨rfl, rfl⟩ | ⟨-, hold⟩
    · rcases hseq with hsame | hnow
      · exact hsame.trans (h.unlisted hscan hactive k' st hst)
      · exact hnow
    · exact h.unlisted hscan hactive k' st'' hold

/-- A change of one state that keeps its count. -/
theorem Inv.kept (h : w.Inv cfg) (hst : w.states.get? k = some st)
    (hseq : st'.adoptedSeq = st.adoptedSeq ∨ st'.adoptedSeq = w.scanSeq)
    (hseconds : st'.noSignalSeconds = st.noSignalSeconds)
    (hwaiting : st'.waitingRecorded = true → st.waitingRecorded = true)
    (hrun : ∀ live, st'.run = some (.stopping live) → st.run = some (.stopping live)) :
    (w.update k st' []).Inv cfg := by
  refine h.update hst hseq ?_ (fun hactive => ?_) (fun hactive => ?_)
  · rw [List.append_nil]
    exact h.log
  · rw [List.append_nil]
    have hold := h.count hactive k st hst
    exact ⟨hseconds.trans hold.seconds, fun hw => hold.waiting (hwaiting hw), fun live hlive =>
      hold.asked live (hrun live hlive)⟩
  · rw [List.append_nil]
    exact h.counted hactive

/-- The run of a finished state waits for no stop. -/
theorem finished_run (st : DriverTracked) (renotices : Bool) (live : Bool) :
    (st.finished renotices).run ≠ some (.stopping live) := by
  unfold DriverTracked.finished
  split_ifs
  · intro hrun
    cases hrun
  · intro hrun
    cases hrun

theorem finished_same (st : DriverTracked) (renotices : Bool) :
    (st.finished renotices).adoptedSeq = st.adoptedSeq ∧
      (st.finished renotices).noSignalSeconds = st.noSignalSeconds ∧
      (st.finished renotices).waitingRecorded = st.waitingRecorded := by
  unfold DriverTracked.finished
  split_ifs <;> exact ⟨rfl, rfl, rfl⟩

/-- A run that ends with its state's count kept. -/
theorem Inv.finish (h : w.Inv cfg) (hst : w.states.get? k = some st) (hseq : st'.adoptedSeq = st.adoptedSeq)
    (hseconds : st'.noSignalSeconds = st.noSignalSeconds)
    (hwaiting : st'.waitingRecorded = st.waitingRecorded) :
    (w.finish k st' []).Inv cfg := by
  obtain ⟨hseq', hseconds', hwaiting'⟩ := finished_same st' (!w.stopped && decide (w.tracked = some k))
  refine h.kept hst (.inl (hseq'.trans hseq)) (hseconds'.trans hseconds) (fun hw => ?_)
    (fun live hlive => ?_)
  · rw [← hwaiting, ← hwaiting']
    exact hw
  · exact absurd hlive (finished_run _ _ _)

/-- The driver forgets a session that is not active. -/
theorem Inv.forget (h : w.Inv cfg) (hended : w.status ≠ .active) : w.forget.Inv cfg :=
  ⟨h.log, h.absent, h.fresh, fun hactive => absurd hactive hended, fun hactive => absurd hactive hended,
    fun hactive => absurd hactive hended, h.before, h.reading, h.pending, h.listed, fun _ hactive =>
      absurd hactive hended⟩

theorem Inv.sessionEnds (h : w.Inv cfg) : w.sessionEnds.Inv cfg ∧ w.sessionEnds.status ≠ .active := by
  unfold H1DriverWorld.sessionEnds
  split_ifs with hactive
  · have hnot : H1SessionStatus.ended ≠ .active := by decide
    refine ⟨⟨h.log, fun habsent => ?_, h.fresh, fun ha => absurd ha hnot, fun ha => absurd ha hnot,
      fun ha => absurd ha hnot, h.before, fun r hr => ⟨(h.reading r hr).1, fun _ => (h.reading r hr).2 ?_⟩,
      fun _ habsent => ?_, fun _ habsent => ?_, fun _ ha => absurd ha hnot⟩, hnot⟩
    · cases habsent
    · rw [hactive]
      decide
    · cases habsent
    · cases habsent
  · exact ⟨h, hactive⟩

/-- A state made where the driver tracks none. -/
theorem Inv.add (h : w.Inv cfg) (hstatus : w.status ≠ .absent) (htracked : w.tracked = none) :
    w.add.Inv cfg := by
  -- an active session without a tracked state has none
  have hnone : w.status = .active → ∀ k st, w.states.get? k ≠ some st := by
    intro hactive k st hst
    have hone := h.one hactive k st hst
    rw [htracked] at hone
    cases hone
  have hget : ∀ k st, (w.states.set w.made { adoptedSeq := w.scanSeq }).get? k = some st →
      (k = w.made ∧ st = { adoptedSeq := w.scanSeq }) ∨ w.states.get? k = some st := by
    intro k st hset
    rw [OrderedMap.get?_set] at hset
    split_ifs at hset with hk
    · exact .inl ⟨hk.symm, (Option.some.inj hset).symm⟩
    · exact .inr hset
  have hempty : countedAfter NoSignalEntry.resets (w.log ++ [.tracked]) = [] := countedAfter_append _ _ _
  refine ⟨h.log.snoc trivial, fun habsent => absurd habsent hstatus, ?_, ?_, ?_, fun _ => CountedOk.reset rfl,
    h.before, h.reading, h.pending, h.listed, ?_⟩
  · intro k st hset
    rcases hget k st hset with ⟨rfl, -⟩ | hold
    · exact Nat.lt_succ_self _
    · exact Nat.lt_succ_of_lt (h.fresh k st hold)
  · intro hactive k st hset
    rcases hget k st hset with ⟨rfl, -⟩ | hold
    · rfl
    · exact absurd hold (hnone hactive k st)
  · intro hactive k st hset
    rcases hget k st hset with ⟨rfl, rfl⟩ | hold
    · refine ⟨?_, fun hw => absurd hw Bool.false_ne_true, fun live hlive => ?_⟩
      · show 0 = (countedAfter NoSignalEntry.resets (w.log ++ [.tracked])).length
        rw [hempty]
        rfl
      · cases hlive
    · exact absurd hold (hnone hactive k st)
  · intro hscan hactive k st hset
    rcases hget k st hset with ⟨rfl, rfl⟩ | hold
    · rfl
    · exact absurd hold (hnone hactive k st)

/-- **A second counted** is one that no count holds yet. -/
theorem Inv.actSecond (h : w.Inv cfg) (hst : w.states.get? k = some st) {r : SecondReading}
    (hclosed : r.f ∈ w.closed) (hlater : w.routePending = true → r.f ∉ w.closedBefore)
    (hnew : w.status = .active → r.f ∉ countedAfter NoSignalEntry.resets w.log) :
      (w.actSecond cfg k st r).Inv cfg := by
  have hcounted : countedAfter NoSignalEntry.resets (w.log ++ [.counted r.f]) =
      countedAfter NoSignalEntry.resets w.log ++ [r.f] := countedAfter_append _ _ _
  have hcount : ∀ due : Bool, (w.update k
      { st with noSignalSeconds := st.noSignalSeconds + 1, run := if due then some .noSignal else none }
      [.counted r.f]).Inv cfg := by
    intro due
    refine h.update hst (.inl rfl) (h.log.snoc trivial) (fun hactive =>
      ⟨?_, fun hw => ?_, fun live hlive => ?_⟩)
      (fun hactive => ?_)
    · rw [hcounted, List.length_append, ← (h.count hactive k st hst).seconds]
      rfl
    · exact recordedAfter_kept rfl ((h.count hactive k st hst).waiting hw)
    · have hrun : (if due then some DriverRun.noSignal else none) = some (.stopping live) := hlive
      split_ifs at hrun
      cases hrun
    · obtain ⟨hnodup, hall, hallLater⟩ := h.counted hactive
      rw [← List.nodup_reverse] at hnodup
      refine ⟨?_, ?_, fun hpending => ?_⟩
      · rw [hcounted, ← List.nodup_reverse, List.reverse_append]
        exact List.nodup_cons.mpr ⟨fun hmem => hnew hactive (List.mem_reverse.mp hmem), hnodup⟩
      · rw [hcounted]
        intro f hf
        rcases List.mem_append.mp hf with hold | hlast
        · exact hall f hold
        · rw [List.mem_singleton.mp hlast]
          exact hclosed
      · rw [hcounted]
        intro f hf
        rcases List.mem_append.mp hf with hold | hlast
        · exact hallLater hpending f hold
        · rw [List.mem_singleton.mp hlast]
          exact hlater hpending
  unfold H1DriverWorld.actSecond
  cases r.decision with
  | signal action =>
    refine h.kept hst (.inl rfl) rfl (fun hw => hw) (fun live hlive => ?_)
    cases hlive
  | noSignal reason =>
    cases reason with
    | noPrice => exact h
    | noVolatility => exact hcount _
    | belowThreshold => exact hcount _

/-- A further second has closed. -/
theorem Inv.closedMore (h : w.Inv cfg) (f : ℤ) :
    ({ w with closed := f :: w.closed } : H1DriverWorld).Inv cfg := by
  refine ⟨h.log, h.absent, h.fresh, h.one, h.count, fun hactive => ?_, ?_, ?_, h.pending, h.listed, h.unlisted⟩
  · obtain ⟨hnodup, hclosed, hlater⟩ := h.counted hactive
    exact ⟨hnodup, fun g hg => List.mem_cons_of_mem _ (hclosed g hg), hlater⟩
  · exact fun g hg => List.mem_cons_of_mem _ (h.before g hg)
  · exact fun r hr => ⟨List.mem_cons_of_mem _ (h.reading r hr).1, (h.reading r hr).2⟩

theorem Inv.decideSecond (h : w.Inv cfg) (f : ℤ) (view : SecondView) (hclosed : f ∈ w.closed)
    (hlater : f ∉ w.closedBefore)
    (hnew : w.status = .active → f ∉ countedAfter NoSignalEntry.resets w.log) :
      (w.decideSecond cfg f view).Inv cfg := by
  unfold H1DriverWorld.decideSecond
  cases w.tracked with
  | none => exact h
  | some k =>
    simp only
    cases hst : w.states.get? k with
    | none => exact h
    | some st =>
      simp only
      split_ifs
      · exact h
      · refine h.kept hst (.inl rfl) rfl (fun hw => hw) (fun live hlive => ?_)
        cases hlive
      · exact h
      · exact h.actSecond hst hclosed (fun _ => hlater) hnew

/-- **A closed second** is later than every one counted. -/
theorem Inv.closeSecond (h : w.Inv cfg) (f : ℤ) (view : SecondView) :
    (w.closeSecond cfg f view).Inv cfg := by
  unfold H1DriverWorld.closeSecond
  split_ifs with hlast
  · have hmore := h.closedMore f
    have hnew : f ∉ w.closed := fun hmem => lt_irrefl f (of_decide_eq_true (List.all_eq_true.mp hlast f hmem))
    simp only
    split_ifs
    · exact hmore
    · refine hmore.decideSecond f view (List.mem_cons_self ..) (fun hmem => hnew (h.before f hmem))
        (fun hactive hmem => ?_)
      exact hnew ((h.counted hactive).closed f hmem)
  · exact h

/-- A notice starts the count again. -/
theorem Inv.onNotice (h : w.Inv cfg) : w.onNotice.Inv cfg := by
  unfold H1DriverWorld.onNotice
  split_ifs
  · exact h
  · cases w.tracked with
    | none => exact h
    | some k =>
      simp only
      cases hst : w.states.get? k with
      | none => exact h
      | some st =>
        simp only
        have hempty : countedAfter NoSignalEntry.resets (w.log ++ [.notice]) = [] :=
          countedAfter_append _ _ _
        split_ifs with hbusy
        · refine h.update hst (.inl rfl) (h.log.snoc trivial) (fun hactive =>
            ⟨?_, fun hw => ?_, fun live hlive => ?_⟩)
            (fun _ => CountedOk.reset rfl)
          · rw [hempty]
            rfl
          · exact absurd hw Bool.false_ne_true
          · obtain ⟨hlive', history, hmem⟩ := (h.count hactive k st hst).asked live hlive
            exact ⟨hlive', history, List.mem_append_left _ hmem⟩
        · refine h.update hst (.inl rfl) (h.log.snoc trivial) (fun hactive =>
            ⟨?_, fun hw => ?_, fun live hlive => ?_⟩)
            (fun _ => CountedOk.reset rfl)
          · rw [hempty]
            rfl
          · exact absurd hw Bool.false_ne_true
          · cases hlive

theorem Inv.startReads (h : w.Inv cfg) (r : SecondReading) : (w.startReads r).Inv cfg := by
  unfold H1DriverWorld.startReads
  split_ifs with hread
  · refine ⟨h.log, h.absent, h.fresh, h.one, h.count, h.counted, h.before, fun r' hr => ?_, h.pending, h.listed,
      h.unlisted⟩
    cases hr
    exact ⟨List.mem_of_head? hread.2, fun hstatus => absurd hread.1 hstatus⟩
  · exact h

theorem Inv.creates (h : w.Inv cfg) : w.creates.Inv cfg := by
  unfold H1DriverWorld.creates
  split_ifs with habsent
  · obtain ⟨hnone, hempty⟩ := h.absent habsent
    have hstate : ∀ k st, w.states.get? k ≠ some st := by
      intro k st hst
      rw [hnone k] at hst
      cases hst
    refine ⟨h.log, fun hstatus => ?_, h.fresh, fun _ k st hst => absurd hst (hstate k st),
      fun _ k st hst => absurd hst (hstate k st), fun _ => ⟨?_, ?_, fun _ => ?_⟩, fun f hf => hf,
      fun r hr => ⟨(h.reading r hr).1, fun _ => (h.reading r hr).1⟩, fun _ hstatus => ?_,
        fun _ hstatus => ?_,
      fun _ _ k st hst => absurd hst (hstate k st)⟩
    · cases hstatus
    · show (countedAfter NoSignalEntry.resets w.log).Nodup
      rw [hempty]
      exact List.nodup_nil
    · show ∀ f ∈ countedAfter NoSignalEntry.resets w.log, _
      rw [hempty]
      exact fun f hf => absurd hf List.not_mem_nil
    · show ∀ f ∈ countedAfter NoSignalEntry.resets w.log, _
      rw [hempty]
      exact fun f hf => absurd hf List.not_mem_nil
    · cases hstatus
    · cases hstatus
  · exact h

/-- The start handed over to the state the driver tracks. -/
theorem Inv.startTracked (h : w.Inv cfg) (hpending : w.routePending = false)
    (hnew : w.status = .active → ∀ r, w.reading = some r → r.f ∉ countedAfter NoSignalEntry.resets w.log)
    (k : ℕ) (start : DriverStart) : (w.startTracked cfg k start).Inv cfg := by
  unfold H1DriverWorld.startTracked
  cases hst : w.states.get? k with
  | none => exact h
  | some st =>
    simp only
    have hadopted : (w.update k { st with adoptedSeq := w.scanSeq } []).Inv cfg :=
      h.kept hst (.inr rfl) rfl (fun hw => hw) (fun _ hlive => hlive)
    have hget : (w.update k { st with adoptedSeq := w.scanSeq } []).states.get? k =
        some { st with adoptedSeq := w.scanSeq } := by
      show (w.states.set k _).get? k = _
      rw [OrderedMap.get?_set, if_pos rfl]
    split_ifs
    · exact hadopted
    · cases start with
      | plain => exact hadopted
      | shown shown nowMs =>
        simp only
        split_ifs
        · exact hadopted
        · refine hadopted.kept hget (.inl rfl) rfl (fun hw => hw) (fun live hlive => ?_)
          cases hlive
      | reading =>
        simp only
        cases hread : (w.update k { st with adoptedSeq := w.scanSeq } []).reading with
        | none => exact hadopted
        | some r =>
          simp only
          split_ifs
          · exact hadopted
          · refine hadopted.actSecond hget (h.reading r hread).1 (fun hp => ?_) (fun hactive => ?_)
            · exact absurd (hpending.symm.trans hp) Bool.false_ne_true
            · show r.f ∉ countedAfter NoSignalEntry.resets (w.log ++ [])
              rw [List.append_nil]
              exact hnew hactive r hread

/-- **The start's second** had closed before the session was created: the session has not counted it. -/
theorem Inv.adopts (h : w.Inv cfg) (start : DriverStart) : (w.adopts cfg start).Inv cfg := by
  unfold H1DriverWorld.adopts
  split_ifs with hpending
  · exact h
  · have hroute : w.routePending = true := by simpa using hpending
    have hstatus := h.pending hroute
    have hgiven : ({ w with routePending := false } : H1DriverWorld).Inv cfg := by
      refine ⟨h.log, h.absent, h.fresh, h.one, h.count, fun hactive => ?_, h.before, h.reading,
        fun hp => absurd hp Bool.false_ne_true, h.listed, h.unlisted⟩
      obtain ⟨hnodup, hclosed, -⟩ := h.counted hactive
      exact ⟨hnodup, hclosed, fun hp => absurd hp Bool.false_ne_true⟩
    simp only
    split_ifs
    · exact hgiven
    · split
      · rename_i k htracked
        refine hgiven.startTracked rfl (fun hactive r hr hmem => ?_) k start
        exact (h.counted hactive).later hroute r.f hmem ((h.reading r hr).2 hstatus)
      · rename_i htracked
        refine (hgiven.add hstatus htracked).startTracked rfl (fun _ r _ hmem => ?_) w.made start
        have hempty : countedAfter NoSignalEntry.resets (w.log ++ [.tracked]) = [] :=
          countedAfter_append _ _ _
        have hcounted : r.f ∈ countedAfter NoSignalEntry.resets (w.log ++ [.tracked]) := hmem
        rw [hempty] at hcounted
        exact absurd hcounted List.not_mem_nil

/-! ### The scan -/

theorem Inv.scanned (h : w.Inv cfg) {scanning : Option (Option Bool)} {scanSeq : ℕ}
    (hlisted : scanning = some (some true) → w.status ≠ .absent)
    (hunlisted : scanning = some (some false) → w.status ≠ .active) :
    ({ w with scanning, scanSeq } : H1DriverWorld).Inv cfg :=
  ⟨h.log, h.absent, h.fresh, h.one, h.count, h.counted, h.before, h.reading, h.pending, hlisted,
    fun hscan hactive => absurd hactive (hunlisted hscan)⟩

theorem Inv.scanStarts (h : w.Inv cfg) : w.scanStarts.Inv cfg := by
  unfold H1DriverWorld.scanStarts
  split_ifs
  · exact h
  · refine h.scanned (fun hscan => ?_) (fun hscan => ?_)
    · cases hscan
    · cases hscan

theorem Inv.scanReads (h : w.Inv cfg) : w.scanReads.Inv cfg := by
  unfold H1DriverWorld.scanReads
  split_ifs
  · refine h.scanned (fun hscan habsent => ?_) (fun hscan hactive => ?_)
    · have hactive : w.status = .active := of_decide_eq_true (Option.some.inj (Option.some.inj hscan))
      rw [habsent] at hactive
      cases hactive
    · exact of_decide_eq_false (Option.some.inj (Option.some.inj hscan)) hactive
  · exact h

theorem Inv.scanFails (h : w.Inv cfg) : w.scanFails.Inv cfg := by
  refine h.scanned (fun hscan => ?_) (fun hscan => ?_)
  · cases hscan
  · cases hscan

/-- **A scan drops a state** only of a session that is not active. -/
theorem Inv.scanEnds (h : w.Inv cfg) : w.scanEnds.Inv cfg := by
  unfold H1DriverWorld.scanEnds
  cases hscan : w.scanning with
  | none => exact h
  | some read =>
    cases read with
    | none => exact h
    | some listed =>
      have hidle : ({ w with scanning := none } : H1DriverWorld).Inv cfg := by
        refine h.scanned (fun hs => ?_) (fun hs => ?_)
        · cases hs
        · cases hs
      simp only
      split_ifs with hstopped hlisted htracked
      · exact hidle
      · exact hidle
      · subst hlisted
        refine hidle.add (h.listed hscan) ?_
        rw [Bool.or_eq_true, not_or] at htracked
        exact Option.not_isSome_iff_eq_none.mp htracked.1
      · obtain rfl : listed = false := by simpa using hlisted
        refine ⟨h.log, h.absent, h.fresh, fun hactive k st hst => ?_, h.count, h.counted, h.before, h.reading,
          h.pending, fun hs => ?_, fun hs => ?_⟩
        · have hone := h.one hactive k st hst
          have hseq := h.unlisted hscan hactive k st hst
          show w.tracked.bind _ = some k
          rw [hone, Option.bind_some, show w.states.get? k = some st from hst, Option.bind_some,
            if_neg (fun hlt => absurd hseq (Nat.ne_of_lt hlt))]
        · cases hs
        · cases hs

/-! ### The runs -/

/-- A state whose run ends in a session the driver forgets. -/
theorem Inv.forgotten (h : w.Inv cfg) (hended : w.status ≠ .active) (hst : w.states.get? k = some st) :
    (w.forget.finish k st []).Inv cfg :=
  (h.forget hended).finish hst rfl rfl rfl

theorem Inv.tradeReads (h : w.Inv cfg) (hst : w.states.get? k = some st) (plan : Option H1TradePlan)
    (reads : DriverReads) {read : Option SessionBatchRead} (hread : read = none → w.status ≠ .active) :
    (w.tradeReads cfg k st plan reads read).Inv cfg := by
  unfold H1DriverWorld.tradeReads
  simp only
  cases hplan : planTrade cfg.tracked plan reads read with
  | error e => exact h.finish hst rfl rfl rfl
  | ok planned =>
    cases planned with
    | gone =>
      refine h.forgotten (hread ?_) hst
      cases read with
      | none => rfl
      | some batch => exact absurd hplan (planTrade_not_gone batch)
    | blocked reason => exact h.finish hst rfl rfl rfl
    | idle => exact h.finish hst rfl rfl rfl
    | pairIneligible => exact h.finish hst rfl rfl rfl
    | balanceUnavailable => exact h.finish hst rfl rfl rfl
    | heldBalance => exact h.finish hst rfl rfl rfl
    | stakeStopped => exact h.finish hst rfl rfl rfl
    | create input =>
      refine h.kept hst (.inl rfl) rfl (fun hw => hw) (fun live hlive => ?_)
      cases hlive

/-- **The stop is asked for** over the evidence. -/
theorem Inv.noSignalReads (h : w.Inv cfg) (hst : w.states.get? k = some st) (nowMs : ℤ)
    {read : Option SessionBatchRead} (hread : read = none → w.status ≠ .active) :
    (w.noSignalReads cfg k st nowMs read).Inv cfg := by
  unfold H1DriverWorld.noSignalReads
  cases read with
  | none => exact h.forgotten (hread rfl) hst
  | some read =>
    simp only
    split_ifs with hblock hrepeat hwaiting hretry hlimit
    · exact h.finish hst rfl rfl rfl
    · exact h.finish hst rfl rfl rfl
    · exact h.finish hst rfl rfl rfl
    · refine h.kept hst (.inl rfl) rfl (fun hw => hw) (fun live hlive => ?_)
      cases hlive
    · exact h.finish hst rfl rfl rfl
    · rw [not_or, Nat.not_lt, Bool.not_eq_false] at hlimit
      have hrecorded : st.waitingRecorded = true := by simpa using hwaiting
      have hevidence : EvidenceOk NoSignalEntry.resets cfg.tracked.settings w.log
        (.asked (decide (w.status = .active)) read.history) := by
        intro hlive
        have hactive := of_decide_eq_true hlive
        have hcount := h.count hactive k st hst
        refine ⟨hcount.seconds ▸ hlimit.1, (h.counted hactive).nodup, hcount.waiting hrecorded,
          hlimit.2, ?_, ?_⟩
        · exact Option.not_isSome_iff_eq_none.mp hblock
        · exact Option.not_isSome_iff_eq_none.mp hrepeat
      refine h.update hst (.inl rfl) (h.log.snoc hevidence) (fun hactive =>
        ⟨?_, fun hw => ?_, fun live hlive => ?_⟩)
        (fun hactive => (h.counted hactive).plain rfl rfl)
      · rw [countedAfter_plain rfl rfl]
        exact (h.count hactive k st hst).seconds
      · exact recordedAfter_kept rfl ((h.count hactive k st hst).waiting hw)
      · have hasked : decide (w.status = .active) = live := by
          cases hlive
          rfl
        refine ⟨hasked.symm.trans (decide_eq_true hactive), read.history, ?_⟩
        rw [decide_eq_true hactive]
        exact List.mem_append_right _ (List.mem_singleton_self _)

theorem Inv.readAnswers (h : w.Inv cfg) (k : ℕ) (reads : DriverReads) (read : Option SessionBatchRead) :
    (w.readAnswers cfg k reads read).Inv cfg := by
  unfold H1DriverWorld.readAnswers
  cases hst : w.states.get? k with
  | none => exact h
  | some st =>
    simp only
    by_cases hgone : read.isNone = true ∧ w.status = .active
    · rw [if_pos hgone]
      exact h
    · rw [if_neg hgone]
      have hread : read = none → w.status ≠ .active := by
        intro hnone hactive
        exact hgone ⟨by rw [hnone]; rfl, hactive⟩
      split
      · split_ifs
        · exact h.finish hst rfl rfl rfl
        · exact h.tradeReads hst _ reads hread
      · split_ifs
        · exact h.finish hst rfl rfl rfl
        · exact h.noSignalReads hst _ hread
      · exact h

theorem Inv.commits (h : w.Inv cfg) (k : ℕ) : (w.commits k).Inv cfg := by
  unfold H1DriverWorld.commits
  cases hst : w.states.get? k with
  | none => exact h
  | some st =>
    simp only
    split
    · split_ifs
      · refine h.update hst (.inl rfl) (h.log.snoc trivial) (fun hactive =>
          ⟨?_, fun hw => ?_, fun live hlive => ?_⟩)
          (fun hactive => (h.counted hactive).plain rfl rfl)
        · rw [countedAfter_plain rfl rfl]
          exact (h.count hactive k st hst).seconds
        · exact recordedAfter_kept rfl ((h.count hactive k st hst).waiting hw)
        · cases hlive
      · exact h
    · exact h

/-- **An answered creation** starts the count again. -/
theorem Inv.created (h : w.Inv cfg) (k : ℕ) : (w.created cfg k).Inv cfg := by
  unfold H1DriverWorld.created
  cases hst : w.states.get? k with
  | none => exact h
  | some st =>
    simp only
    split
    · rename_i plan repeats takenAtMs committed hrun
      obtain ⟨hseq, hseconds, hwaiting⟩ := finished_same { st with
        repeatPending := false
        waitingRecorded := false
        noSignalSeconds := 0
        nextAt := some (nextAt cfg plan repeats takenAtMs) } (!w.stopped && decide (w.tracked = some k))
      have hempty : countedAfter NoSignalEntry.resets (w.log ++ [.answered]) = [] :=
        countedAfter_append _ _ _
      refine h.update hst (.inl hseq) (h.log.snoc trivial) (fun _ =>
        ⟨?_, fun hw => ?_, fun live hlive => ?_⟩)
        (fun _ => CountedOk.reset rfl)
      · rw [hempty]
        exact hseconds
      · exact absurd (hwaiting.symm.trans hw) Bool.false_ne_true
      · exact absurd hlive (finished_run _ _ _)
    · exact h

theorem Inv.createThrows (h : w.Inv cfg) (k : ℕ) : (w.createThrows k).Inv cfg := by
  unfold H1DriverWorld.createThrows
  cases hst : w.states.get? k with
  | none => exact h
  | some st =>
    simp only
    split
    · exact h.finish hst rfl rfl rfl
    · exact h

theorem Inv.notActive (h : w.Inv cfg) (k : ℕ) : (w.notActive k).Inv cfg := by
  unfold H1DriverWorld.notActive
  cases hst : w.states.get? k with
  | none => exact h
  | some st =>
    simp only
    split
    · split_ifs with hactive
      · exact h
      · exact h.forgotten hactive hst
    · exact h

theorem Inv.refuses (h : w.Inv cfg) (k : ℕ) (stops : Bool) : (w.refuses k stops).Inv cfg := by
  unfold H1DriverWorld.refuses
  cases hst : w.states.get? k with
  | none => exact h
  | some st =>
    simp only
    split
    · refine h.kept hst (.inl rfl) rfl (fun hw => hw) (fun live hlive => ?_)
      have hrun : some (if stops then DriverRun.refusing else .ending) = some (.stopping live) := hlive
      split_ifs at hrun <;> cases hrun
    · exact h

/-- **The stop of an active session** was asked for while it was active. -/
theorem Inv.stopWritten (h : w.Inv cfg) (hst : w.states.get? k = some st) {live : Bool}
    (hrun : st.run = some (.stopping live)) (hseq : st'.adoptedSeq = st.adoptedSeq)
    (hseconds : st'.noSignalSeconds = st.noSignalSeconds)
    (hwaiting : st'.waitingRecorded = st.waitingRecorded)
    (hrun' : ∀ live, st'.run ≠ some (.stopping live)) : (w.update k st' w.stopEntries).Inv cfg := by
  unfold H1DriverWorld.stopEntries
  split_ifs with hactive
  · have hcount := h.count hactive k st hst
    obtain ⟨-, hasked⟩ := hcount.asked live hrun
    refine h.update hst (.inl hseq) (h.log.snoc hasked) (fun _ => ⟨?_, fun hw => ?_, fun live hlive => ?_⟩)
      (fun hactive => (h.counted hactive).plain rfl rfl)
    · rw [countedAfter_plain rfl rfl]
      exact hseconds.trans hcount.seconds
    · exact recordedAfter_kept rfl (hcount.waiting (hwaiting ▸ hw))
    · exact absurd hlive (hrun' live)
  · exact h.kept hst (.inl hseq) hseconds (fun hw => hwaiting ▸ hw) (fun live hlive =>
      absurd hlive (hrun' live))

theorem Inv.stopAnswers (h : w.Inv cfg) (k : ℕ) : (w.stopAnswers k).Inv cfg := by
  unfold H1DriverWorld.stopAnswers
  cases hst : w.states.get? k with
  | none => exact h
  | some st =>
    simp only
    split
    · have hended : (w.update k { st with run := some .ending } []).Inv cfg := by
        refine h.kept hst (.inl rfl) rfl (fun hw => hw) (fun live hlive => ?_)
        cases hlive
      exact hended.sessionEnds.1.forget hended.sessionEnds.2
    · rename_i live hrun
      have hwritten : (w.update k { st with run := some .ending } w.stopEntries).Inv cfg := by
        refine h.stopWritten hst hrun rfl rfl rfl (fun live hlive => ?_)
        cases hlive
      exact hwritten.sessionEnds.1.forget hwritten.sessionEnds.2
    · exact h

theorem Inv.stopThrows (h : w.Inv cfg) (k : ℕ) (executed : Bool) : (w.stopThrows k executed).Inv cfg := by
  unfold H1DriverWorld.stopThrows
  cases hst : w.states.get? k with
  | none => exact h
  | some st =>
    simp only
    split
    · have hended : (w.update k { st with run := some .ending } []).Inv cfg := by
        refine h.kept hst (.inl rfl) rfl (fun hw => hw) (fun live hlive => ?_)
        cases hlive
      split_ifs
      · exact hended.sessionEnds.1
      · exact hended
    · rename_i live hrun
      split_ifs
      · obtain ⟨hseq, hseconds, hwaiting⟩ := finished_same st (!w.stopped && decide (w.tracked = some k))
        exact (h.stopWritten hst hrun hseq hseconds hwaiting (finished_run _ _)).sessionEnds.1
      · exact h.finish hst rfl rfl rfl
    · exact h

theorem Inv.recorded (h : w.Inv cfg) (k : ℕ) (ok : Bool) (nowMs : ℤ) :
    (w.recorded cfg k ok nowMs).Inv cfg := by
  unfold H1DriverWorld.recorded
  cases hst : w.states.get? k with
  | none => exact h
  | some st =>
    simp only
    split
    · split_ifs
      · obtain ⟨hseq, hseconds, -⟩ :=
          finished_same { st with waitingRecorded := true } (!w.stopped && decide (w.tracked = some k))
        refine h.update hst (.inl hseq) (h.log.snoc trivial) (fun hactive =>
          ⟨?_, fun _ => ?_, fun live hlive => ?_⟩)
          (fun hactive => (h.counted hactive).plain rfl rfl)
        · rw [countedAfter_plain rfl rfl]
          exact hseconds.trans (h.count hactive k st hst).seconds
        · rw [recordedAfter_append, decide_eq_true rfl, Bool.or_true]
          rfl
        · exact absurd hlive (finished_run _ _ _)
      · exact h.finish hst rfl rfl rfl
    · exact h.finish hst rfl rfl rfl
    · exact h

theorem Inv.driverStops (h : w.Inv cfg) : ({ w with stopped := true } : H1DriverWorld).Inv cfg :=
  ⟨h.log, h.absent, h.fresh, h.one, h.count, h.counted, h.before, h.reading, h.pending, h.listed, h.unlisted⟩

theorem Inv.start : ({} : H1DriverWorld).Inv cfg := by
  refine ⟨LogOk.nil, fun _ => ⟨fun _ => rfl, rfl⟩, fun _ _ hst => ?_, fun hactive => ?_, fun hactive => ?_,
    fun hactive => ?_, fun f hf => hf, fun _ hr => ?_, fun hp => ?_, fun hs => ?_, fun hs => ?_⟩
  · cases hst
  · cases hactive
  · cases hactive
  · cases hactive
  · cases hr
  · exact absurd hp Bool.false_ne_true
  · cases hs
  · cases hs

theorem Inv.act (h : w.Inv cfg) (a : H1DriverAct) : (w.act cfg a).Inv cfg := by
  cases a with
  | closeSecond f view => exact h.closeSecond f view
  | notice => exact h.onNotice
  | startReads r => exact h.startReads r
  | creates => exact h.creates
  | adopts start => exact h.adopts start
  | ends => exact h.sessionEnds.1
  | scanStarts => exact h.scanStarts
  | scanReads => exact h.scanReads
  | scanEnds => exact h.scanEnds
  | scanFails => exact h.scanFails
  | readAnswers k reads read => exact h.readAnswers k reads read
  | commits k => exact h.commits k
  | created k => exact h.created k
  | createThrows k => exact h.createThrows k
  | notActive k => exact h.notActive k
  | refuses k stops => exact h.refuses k stops
  | stopAnswers k => exact h.stopAnswers k
  | stopThrows k executed => exact h.stopThrows k executed
  | recorded k ok nowMs => exact h.recorded k ok nowMs
  | driverStops => exact h.driverStops

end Inv

end H1DriverWorld

/-- **A stop for no signal has its evidence**: it is asked for, while the session is active, over at
least the limit of distinct seconds counted since the last state, notice or answered intent, a waiting
row, and a history that has waited long enough, with no block and no repeat due. -/
theorem no_signal_stop (cfg : NoSignalConfig) (acts : List H1DriverAct) :
    LogOk (EvidenceOk NoSignalEntry.resets cfg.tracked.settings)
      (run (H1DriverWorld.act cfg) {} acts).log :=
  (run_induction (P := H1DriverWorld.Inv cfg) H1DriverWorld.Inv.start (fun _ a h => h.act a) acts).log

/-! ### An intent the driver was not told of -/

/-- The session changes: the driver sees it, or an intent of the session is committed. -/
def NoSignalEntry.changes : NoSignalEntry → Bool
  | .committed => true
  | e => e.resets

def unansweredSession : NoSignalConfig where
  tracked := {
    session := { id := 1, brokerAccountId := 1, mode := .demo, startedAt := 0 }
    settings := {
      assetId := 1, durationSec := 5, length := .cycles 3
      stake := { baseStake := "1.00".toList, stakeScale := 2, strategy := .fixed }
      entryDelaySec := 1, expirySec := 5 }
    sizer := {
      version := stakeAlgorithmVersion
      params := { baseStake := "1.00".toList, stakeScale := 2, strategy := .fixed }
      base := 100000000, martingale := none } }
  scanMs := 5000

/-- What the driver reads of the session, by its intents. -/
def unansweredRead (intents : List SessionHistoryIntent) (waitExpired : Bool) : SessionBatchRead where
  history := { telegramUserId := 1, expired := false, waitExpired, intents }
  balance := some { available := "100.00".toList, minTradeAmount := "1.00".toList, awaitsBalance := false }

def unansweredSecond (f : ℤ) (decision : SecondDecision) (complete : Bool) : H1DriverAct :=
  .closeSecond f {
    eligible := true, digits := true, complete
    closedAtMs := f + 300, takenAtMs := f + 300, decision
    payout := "80".toList }

/-- Ninety-nine seconds without a signal, a signal whose intent commits unanswered and is won unheard, the
seconds of a hole in the pair's prices, and one second more. -/
def unansweredRun : List H1DriverAct :=
  let reads : DriverReads := { eligiblePair := none, stakeNowMs := 100300, submitBudgetMs := 2000 }
  [.creates, .adopts .plain, unansweredSecond 1000 (.noSignal .belowThreshold) true,
    .readAnswers 0 reads (some (unansweredRead [] false)), .recorded 0 true 1500] ++
  (List.range 98).map (fun n => unansweredSecond (2000 + 1000 * n) (.noSignal .belowThreshold) true) ++
  [unansweredSecond 100000 (.signal .up) true, .readAnswers 0 reads (some (unansweredRead [] true)),
    .commits 0, .createThrows 0] ++
  (List.range 110).map (fun n => unansweredSecond (101000 + 1000 * n) (.noSignal .belowThreshold) false) ++
  [unansweredSecond 211000 (.noSignal .belowThreshold) true,
    .readAnswers 0 reads
      (some (unansweredRead [⟨1, .up, .settled, "1.00".toList, some "0.80".toList, none⟩] true)),
    .stopAnswers 0]

/-- **The stop may rest on seconds before the session's last intent**: its creation was not answered. -/
theorem unanswered_intent_stops :
    ¬ LogOk (EvidenceOk NoSignalEntry.changes unansweredSession.tracked.settings)
      (run (H1DriverWorld.act unansweredSession) {} unansweredRun).log := by
  intro h
  obtain ⟨hlog, hfew⟩ : (run (H1DriverWorld.act unansweredSession) {} unansweredRun).log =
      (run (H1DriverWorld.act unansweredSession) {} unansweredRun).log.dropLast.dropLast ++
        .asked true (unansweredRead [⟨1, .up, .settled, "1.00".toList, some "0.80".toList, none⟩]
          true).history ::
          [.stopped] ∧
      ¬ noSignalLimitSec unansweredSession.tracked.settings ≤ (countedAfter NoSignalEntry.changes
        (run (H1DriverWorld.act unansweredSession) {} unansweredRun).log.dropLast.dropLast).length := by
    decide +kernel
  obtain ⟨hlimit, -⟩ := h _ _ _ hlog rfl
  exact hfew hlimit

end Binarius
