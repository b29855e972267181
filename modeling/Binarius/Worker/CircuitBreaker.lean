import Mathlib.Tactic
import Binarius.Lib.Reactions
import Binarius.Shared.TradingSwitch
import Binarius.Worker.FailureWindow

/-!
# Worker.CircuitBreaker — closing the global switch when the broker stops answering (trading-worker:
circuit-breaker/breaker.ts)

The calls come one at a time; `stopTrading` answers some time after it is called, and the `finally` of the
trip runs in a later turn than what follows the answer, so other calls come before and between them.

* `CircuitBreaker.react`: a call, its new state, and what it does outside.
* `BreakerRecord.react`: the plain breaker, that keeps every event since its signal's last trip.
* `breaker_trips_as_its_record`: **the two windows trip exactly as the plain one does**, in every run.
* `trips_on_fresh_failures`: **a trip after an answered one counts nothing of the storm before it.**
-/

namespace Binarius

open Lib

/-! ## The breaker -/

inductive BreakerSignal
  | rest
  | socket
  deriving DecidableEq, Repr

structure CircuitBreakerConfig where
  windowMs : ℚ
  minFailures : ℕ
  failurePercent : ℕ

/-- At least minFailures, and at least failurePercent of the keys in the window. -/
def tripsAt (stats : WindowStats) (config : CircuitBreakerConfig) : Bool :=
  config.minFailures ≤ stats.failures && config.failurePercent * stats.total ≤ stats.failures * 100

def digitsOf (n : ℕ) : Text := Nat.toDigits 10 n

/-- `Math.round(windowMs / 1000)`, of a length that is not negative. -/
def reasonSeconds (windowMs : ℚ) : ℕ := ⌊windowMs / 1000 + 1 / 2⌋₊

def reasonOf (signal : BreakerSignal) (failures total : ℕ) (windowMs : ℚ) : Text :=
  match signal with
  | .rest => "Автостоп: брокер не отвечает (REST: ".toList ++ digitsOf failures ++ " из ".toList ++
      digitsOf total ++ " отправок без ответа за ".toList ++ digitsOf (reasonSeconds windowMs) ++
        " с)".toList
  | .socket => "Автостоп: потеряна связь с брокером (сокеты: ".toList ++ digitsOf failures ++
      " из ".toList ++ digitsOf total ++ " сессий за ".toList ++ digitsOf (reasonSeconds windowMs) ++
        " с)".toList

/-- A trip awaits the switch, or is over and its `finally` has not run. -/
inductive TripPhase
  | calling
  | settling
  deriving DecidableEq, Repr

structure Trip where
  signal : BreakerSignal
  stats : WindowStats
  phase : TripPhase
  deriving DecidableEq

/-- What `tripping` and `stopped` hold. -/
structure BreakerControl where
  tripping : Option Trip
  stopped : Bool

structure CircuitBreaker where
  windows : BreakerSignal → FailureWindow.Latest
  control : BreakerControl

inductive BreakerEffect
  | stopTrading (source : TradingSwitchSource) (reason : Text)
  | tripped (signal : BreakerSignal) (stats : WindowStats) (windowMs : ℚ) (changed : Bool)
  | tripFailed (signal : BreakerSignal)
  deriving DecidableEq

/-- The calls of a breaker, the answers of `stopTrading`, and the end of a trip.  A call carries the moments
at which it reads the clock. -/
inductive BreakerCall
  | rest (intentId : String) (failed : Bool) (atMs statsMs : ℚ)
  | socketLost (accountId : String) (atMs statsMs : ℚ)
  | socketReady (accountId : String) (atMs : ℚ)
  | stop
  | answered (changed : Bool)
  | refused
  | settled

namespace CircuitBreaker

variable (config : CircuitBreakerConfig)

/-- `trip` up to its first await: a reason that the switch refuses is logged, and no call is made. -/
def trip (signal : BreakerSignal) (stats : WindowStats) (control : BreakerControl) :
    BreakerControl × List BreakerEffect :=
  match tradingSwitchReasonSchema (reasonOf signal stats.failures stats.total config.windowMs) with
  | some reason => ({ control with tripping := some ⟨signal, stats, .calling⟩ },
      [.stopTrading .circuitBreaker reason])
  | none => ({ control with tripping := some ⟨signal, stats, .settling⟩ }, [.tripFailed signal])

/-- What a read of the window decides. -/
def decideTrip (signal : BreakerSignal) (stats : WindowStats) (control : BreakerControl) :
    BreakerControl × List BreakerEffect :=
  if tripsAt stats config then trip config signal stats control else (control, [])

def evaluate (signal : BreakerSignal) (statsMs : ℚ) (b : CircuitBreaker) :
    CircuitBreaker × List BreakerEffect :=
  if b.control.stopped || b.control.tripping.isSome then (b, [])
  else
    let read := FailureWindow.stats config.windowMs statsMs (b.windows signal)
    let decided := decideTrip config signal read.2 b.control
    (⟨Function.update b.windows signal read.1, decided.1⟩, decided.2)

def record (signal : BreakerSignal) (key : String) (failed : Bool) (atMs : ℚ) (b : CircuitBreaker) :
    CircuitBreaker :=
  let window := FailureWindow.record config.windowMs key failed atMs (b.windows signal)
  { b with windows := Function.update b.windows signal window }

def settle (trip : Trip) (control : BreakerControl) : BreakerControl :=
  { control with tripping := some { trip with phase := .settling } }

def react (b : CircuitBreaker) : BreakerCall → CircuitBreaker × List BreakerEffect
  | .rest intentId failed atMs statsMs =>
    let b := record config .rest intentId failed atMs b
    if failed then evaluate config .rest statsMs b else (b, [])
  | .socketLost accountId atMs statsMs =>
    evaluate config .socket statsMs (record config .socket accountId true atMs b)
  | .socketReady accountId atMs => (record config .socket accountId false atMs b, [])
  | .stop => ({ b with control := { b.control with stopped := true } }, [])
  | .answered changed =>
    match b.control.tripping with
    | some ⟨signal, stats, .calling⟩ =>
      -- a storm that goes on does not call stopTrading on every event; the switch is closed
      (⟨Function.update b.windows signal (FailureWindow.clear (b.windows signal)),
        settle ⟨signal, stats, .calling⟩ b.control⟩, [.tripped signal stats config.windowMs changed])
    | _ => (b, [])
  | .refused =>
    match b.control.tripping with
    | some ⟨signal, stats, .calling⟩ =>
      -- the window stays; the next failure record tries again
      ({ b with control := settle ⟨signal, stats, .calling⟩ b.control }, [.tripFailed signal])
    | _ => (b, [])
  | .settled =>
    match b.control.tripping with
    | some ⟨_, _, .settling⟩ => ({ b with control := { b.control with tripping := none } }, [])
    | _ => (b, [])

def created : CircuitBreaker := ⟨fun _ => OrderedMap.empty, ⟨none, false⟩⟩

end CircuitBreaker

/-! ## The plain breaker -/

/-- Every event of each signal since the answer of its last trip. -/
structure BreakerRecord where
  recorded : BreakerSignal → List (String × FailureEvent)
  control : BreakerControl

namespace BreakerRecord

variable (config : CircuitBreakerConfig)

def evaluate (signal : BreakerSignal) (statsMs : ℚ) (r : BreakerRecord) :
    BreakerRecord × List BreakerEffect :=
  if r.control.stopped || r.control.tripping.isSome then (r, [])
  else
    let decided := CircuitBreaker.decideTrip config signal
      (FailureWindow.reference config.windowMs statsMs (r.recorded signal)) r.control
    ({ r with control := decided.1 }, decided.2)

def record (signal : BreakerSignal) (key : String) (failed : Bool) (atMs : ℚ) (r : BreakerRecord) :
    BreakerRecord :=
  { r with recorded := Function.update r.recorded signal (r.recorded signal ++ [(key, ⟨failed, atMs⟩)]) }

def react (r : BreakerRecord) : BreakerCall → BreakerRecord × List BreakerEffect
  | .rest intentId failed atMs statsMs =>
    let r := record .rest intentId failed atMs r
    if failed then evaluate config .rest statsMs r else (r, [])
  | .socketLost accountId atMs statsMs =>
    evaluate config .socket statsMs (record .socket accountId true atMs r)
  | .socketReady accountId atMs => (record .socket accountId false atMs r, [])
  | .stop => ({ r with control := { r.control with stopped := true } }, [])
  | .answered changed =>
    match r.control.tripping with
    | some ⟨signal, stats, .calling⟩ =>
      (⟨Function.update r.recorded signal [], CircuitBreaker.settle ⟨signal, stats, .calling⟩ r.control⟩,
        [.tripped signal stats config.windowMs changed])
    | _ => (r, [])
  | .refused =>
    match r.control.tripping with
    | some ⟨signal, stats, .calling⟩ =>
      ({ r with control := CircuitBreaker.settle ⟨signal, stats, .calling⟩ r.control },
        [.tripFailed signal])
    | _ => (r, [])
  | .settled =>
    match r.control.tripping with
    | some ⟨_, _, .settling⟩ => ({ r with control := { r.control with tripping := none } }, [])
    | _ => (r, [])

def created : BreakerRecord := ⟨fun _ => [], ⟨none, false⟩⟩

end BreakerRecord

/-! ## The windows hold what the record counts -/

/-- The moments at which a call reads the clock. -/
def BreakerCall.moments : BreakerCall → List ℚ
  | .rest _ _ atMs statsMs => [atMs, statsMs]
  | .socketLost _ atMs statsMs => [atMs, statsMs]
  | .socketReady _ atMs => [atMs]
  | _ => []

/-- The clock does not go back. -/
def ClockForward (calls : List BreakerCall) : Prop := (calls.flatMap BreakerCall.moments).Pairwise (· ≤ ·)

instance (calls : List BreakerCall) : Decidable (ClockForward calls) :=
  inferInstanceAs (Decidable (List.Pairwise _ _))

variable {config : CircuitBreakerConfig} {clock t : ℚ} {b : CircuitBreaker} {r : BreakerRecord}

/-- A window that is not read later still holds what it may count. -/
theorem FailureWindow.Holds.later {windowMs : ℚ} {history : List (String × FailureEvent)}
    {latest : FailureWindow.Latest} (h : FailureWindow.Holds windowMs clock history latest)
      (ht : clock ≤ t) :
    FailureWindow.Holds windowMs t history latest where
  ordered := h.ordered
  past key event hlatest := (h.past key event hlatest).trans ht
  kept := h.kept
  dropped key event hlatest hnone := (h.dropped key event hlatest hnone).trans (by linarith)

theorem FailureWindow.Holds.stats {windowMs : ℚ} {history : List (String × FailureEvent)}
    {latest : FailureWindow.Latest} (h : FailureWindow.Holds windowMs clock history latest)
      (ht : clock ≤ t) :
    (FailureWindow.stats windowMs t latest).2 = FailureWindow.reference windowMs t history := by
  have hperm := h.perm_counted ht
  unfold FailureWindow.stats FailureWindow.reference
  simp only [FailureWindow.foldl_failures, Nat.zero_add, hperm.countP_eq, hperm.length_eq]

/-- The breaker and the plain one after the same calls. -/
structure Agrees (config : CircuitBreakerConfig) (clock : ℚ) (b : CircuitBreaker) (r : BreakerRecord) :
    Prop where
  holds : ∀ signal, FailureWindow.Holds config.windowMs clock (r.recorded signal) (b.windows signal)
  control : b.control = r.control

namespace Agrees

theorem later (h : Agrees config clock b r) (ht : clock ≤ t) : Agrees config t b r :=
  ⟨fun signal => (h.holds signal).later ht, h.control⟩

/-- One signal's window moves, the other's waits. -/
theorem update (h : Agrees config clock b r) (signal : BreakerSignal) (control : BreakerControl)
    {history : List (String × FailureEvent)} {latest : FailureWindow.Latest}
    (hholds : FailureWindow.Holds config.windowMs clock history latest) :
    Agrees config clock ⟨Function.update b.windows signal latest, control⟩
      ⟨Function.update r.recorded signal history, control⟩ := by
  refine ⟨fun signal' => ?_, rfl⟩
  dsimp only
  by_cases hsignal : signal' = signal
  · rw [hsignal, Function.update_self, Function.update_self]
    exact hholds
  · rw [Function.update_of_ne hsignal, Function.update_of_ne hsignal]
    exact h.holds signal'

theorem record (h : Agrees config clock b r) (ht : clock ≤ t) (signal : BreakerSignal) (key : String)
    (failed : Bool) :
    Agrees config t (CircuitBreaker.record config signal key failed t b)
      (BreakerRecord.record signal key failed t r) := by
  have hnext := (h.later ht).update signal r.control
    ((h.holds signal).record ht key failed)
  unfold CircuitBreaker.record BreakerRecord.record
  rw [h.control]
  exact hnext

theorem evaluate (h : Agrees config clock b r) (ht : clock ≤ t) (signal : BreakerSignal) :
    (CircuitBreaker.evaluate config signal t b).2 = (BreakerRecord.evaluate config signal t r).2 ∧
      Agrees config t (CircuitBreaker.evaluate config signal t b).1 (BreakerRecord.evaluate config
        signal t r).1 := by
  unfold CircuitBreaker.evaluate BreakerRecord.evaluate
  rw [h.control]
  by_cases hbusy : (r.control.stopped || r.control.tripping.isSome) = true
  · rw [if_pos hbusy, if_pos hbusy]
    exact ⟨rfl, h.later ht⟩
  · rw [if_neg hbusy, if_neg hbusy]
    have hread := (h.holds signal).stats ht
    dsimp only
    rw [hread]
    refine ⟨rfl, ?_⟩
    have hnext := (h.later ht).update signal (CircuitBreaker.decideTrip config signal
      (FailureWindow.reference config.windowMs t (r.recorded signal)) r.control).1
        ((h.holds signal).prune ht)
    rw [Function.update_eq_self] at hnext
    exact hnext

/-- A call that reads no clock and moves no window. -/
theorem controls (h : Agrees config clock b r) (control : BreakerControl) :
    Agrees config clock { b with control } { r with control } := ⟨h.holds, rfl⟩

theorem clear (h : Agrees config clock b r) (signal : BreakerSignal) (control : BreakerControl) :
    Agrees config clock ⟨Function.update b.windows signal OrderedMap.empty, control⟩
      ⟨Function.update r.recorded signal [], control⟩ :=
  h.update signal control (FailureWindow.holds_nil _ _)

end Agrees

/-- **A call keeps the two together, and they do the same outside.** -/
theorem Agrees.react (h : Agrees config clock b r) (call : BreakerCall)
    (hclock : (clock :: call.moments).Pairwise (· ≤ ·)) :
    (CircuitBreaker.react config b call).2 = (BreakerRecord.react config r call).2 ∧
      ∃ clock' ∈ clock :: call.moments,
        Agrees config clock' (CircuitBreaker.react config b call).1 (BreakerRecord.react config r
          call).1 := by
  cases call with
  | rest intentId failed atMs statsMs =>
    obtain ⟨hfirst, hlast⟩ := List.pairwise_cons.mp hclock
    have hat : clock ≤ atMs := hfirst atMs (List.mem_cons_self)
    have hstats : atMs ≤ statsMs := List.rel_of_pairwise_cons hlast List.mem_cons_self
    have hrecord := h.record hat .rest intentId failed
    cases failed with
    | false => exact ⟨rfl, atMs, by simp [BreakerCall.moments], hrecord⟩
    | true =>
      obtain ⟨heffects, hnext⟩ := hrecord.evaluate hstats .rest
      exact ⟨heffects, statsMs, by simp [BreakerCall.moments], hnext⟩
  | socketLost accountId atMs statsMs =>
    obtain ⟨hfirst, hlast⟩ := List.pairwise_cons.mp hclock
    have hat : clock ≤ atMs := hfirst atMs (List.mem_cons_self)
    have hstats : atMs ≤ statsMs := List.rel_of_pairwise_cons hlast List.mem_cons_self
    obtain ⟨heffects, hnext⟩ := (h.record hat .socket accountId true).evaluate hstats .socket
    exact ⟨heffects, statsMs, by simp [BreakerCall.moments], hnext⟩
  | socketReady accountId atMs =>
    have hat : clock ≤ atMs := List.rel_of_pairwise_cons hclock List.mem_cons_self
    exact ⟨rfl, atMs, by simp [BreakerCall.moments], h.record hat .socket accountId false⟩
  | stop =>
    refine ⟨rfl, clock, List.mem_cons_self, ?_⟩
    show Agrees config clock ⟨b.windows, _⟩ ⟨r.recorded, _⟩
    rw [h.control]
    exact h.controls _
  | answered changed =>
    unfold CircuitBreaker.react BreakerRecord.react
    rw [h.control]
    dsimp only
    split
    · exact ⟨rfl, clock, List.mem_cons_self, h.clear _ _⟩
    · exact ⟨rfl, clock, List.mem_cons_self, h⟩
  | refused =>
    unfold CircuitBreaker.react BreakerRecord.react
    rw [h.control]
    dsimp only
    split
    · exact ⟨rfl, clock, List.mem_cons_self, h.controls _⟩
    · exact ⟨rfl, clock, List.mem_cons_self, h⟩
  | settled =>
    unfold CircuitBreaker.react BreakerRecord.react
    rw [h.control]
    dsimp only
    split
    · exact ⟨rfl, clock, List.mem_cons_self, h.controls _⟩
    · exact ⟨rfl, clock, List.mem_cons_self, h⟩

/-- The two, and the clock no later than any moment to come. -/
def AgreesBefore (config : CircuitBreakerConfig) (calls : List BreakerCall) (b : CircuitBreaker)
    (r : BreakerRecord) : Prop :=
  ∃ clock, (clock :: calls.flatMap BreakerCall.moments).Pairwise (· ≤ ·) ∧ Agrees config clock b r

theorem agreesBefore_created {calls : List BreakerCall} (h : ClockForward calls) :
    AgreesBefore config calls .created .created := by
  have hagrees : ∀ clock, Agrees config clock .created .created :=
    fun clock => ⟨fun _ => FailureWindow.holds_nil _ _, rfl⟩
  unfold ClockForward at h
  cases hmoments : calls.flatMap BreakerCall.moments with
  | nil => exact ⟨0, by rw [hmoments]; exact List.pairwise_singleton _ _, hagrees 0⟩
  | cons first moments =>
    refine ⟨first, ?_, hagrees first⟩
    rw [hmoments] at h ⊢
    refine List.pairwise_cons.mpr ⟨fun t ht => ?_, h⟩
    rcases List.mem_cons.mp ht with rfl | ht
    · exact le_refl _
    · exact List.rel_of_pairwise_cons h ht

theorem AgreesBefore.react {call : BreakerCall} {calls : List BreakerCall}
    (h : AgreesBefore config (call :: calls) b r) :
    (CircuitBreaker.react config b call).2 = (BreakerRecord.react config r call).2 ∧
      AgreesBefore config calls (CircuitBreaker.react config b call).1 (BreakerRecord.react config r
        call).1 := by
  obtain ⟨clock, hclock, hagrees⟩ := h
  rw [List.flatMap_cons, ← List.cons_append] at hclock
  obtain ⟨hcall, hcalls, hbetween⟩ := List.pairwise_append.mp hclock
  obtain ⟨heffects, clock', hmem, hnext⟩ := hagrees.react call hcall
  exact ⟨heffects, clock', List.pairwise_cons.mpr ⟨hbetween clock' hmem, hcalls⟩, hnext⟩

theorem agrees_run {calls : List BreakerCall} (h : ClockForward calls) :
    effects (CircuitBreaker.react config) .created calls = effects (BreakerRecord.react config) .created
      calls ∧
      AgreesBefore config [] (stateAfter (CircuitBreaker.react config) .created calls)
        (stateAfter (BreakerRecord.react config) .created calls) :=
  effects_eq_of_simulates (fun _ _ _ _ h => h.react) (agreesBefore_created h)

theorem ClockForward.init {calls calls' : List BreakerCall} (h : ClockForward (calls ++ calls')) :
    ClockForward calls := by
  unfold ClockForward at h ⊢
  rw [List.flatMap_append] at h
  exact (List.pairwise_append.mp h).1

/-- The last call of a run does the same outside. -/
theorem react_agrees {calls : List BreakerCall} {call : BreakerCall} (h : ClockForward (calls ++ [call])) :
    (CircuitBreaker.react config (stateAfter (CircuitBreaker.react config) .created calls) call).2 =
      (BreakerRecord.react config (stateAfter (BreakerRecord.react config) .created calls) call).2 := by
  have hrun : effects (CircuitBreaker.react config) .created (calls ++ [call]) = _ := (agrees_run h).1
  rw [effects_append, effects_append, (agrees_run h.init).1, effects_singleton, effects_singleton] at hrun
  exact List.append_cancel_left hrun

/-! ## What a trip is on -/

/-- The event that a call records. -/
def BreakerCall.event : BreakerCall → Option (BreakerSignal × String × FailureEvent)
  | .rest intentId failed atMs _ => some (.rest, intentId, ⟨failed, atMs⟩)
  | .socketLost accountId atMs _ => some (.socket, accountId, ⟨true, atMs⟩)
  | .socketReady accountId atMs => some (.socket, accountId, ⟨false, atMs⟩)
  | _ => none

/-- The window that a call evaluates, and when. -/
def BreakerCall.evaluates : BreakerCall → Option (BreakerSignal × ℚ)
  | .rest _ true _ statsMs => some (.rest, statsMs)
  | .socketLost _ _ statsMs => some (.socket, statsMs)
  | _ => none

/-- The events of one signal, with the call's. -/
def BreakerRecord.withEvent (r : BreakerRecord) (call : BreakerCall) (signal : BreakerSignal) :
    List (String × FailureEvent) :=
  match call.event with
  | some (signal', event) => if signal' = signal then r.recorded signal ++ [event] else r.recorded signal
  | none => r.recorded signal

/-- What is so when a call closes trading. -/
structure Trips (config : CircuitBreakerConfig) (r : BreakerRecord) (call : BreakerCall)
    (signal : BreakerSignal) (t : ℚ) (source : TradingSwitchSource) (reason : Text) : Prop where
  evaluates : call.evaluates = some (signal, t)
  running : r.control.stopped = false
  idle : r.control.tripping = none
  source : source = .circuitBreaker
  failures : config.minFailures ≤
    (FailureWindow.reference config.windowMs t (r.withEvent call signal)).failures
  share : config.failurePercent * (FailureWindow.reference config.windowMs t
    (r.withEvent call signal)).total ≤
    (FailureWindow.reference config.windowMs t (r.withEvent call signal)).failures * 100
  reason : tradingSwitchReasonSchema (reasonOf signal
    (FailureWindow.reference config.windowMs t (r.withEvent call signal)).failures
    (FailureWindow.reference config.windowMs t (r.withEvent call signal)).total config.windowMs) =
      some reason

theorem stopTrading_of_decideTrip {signal : BreakerSignal} {stats : WindowStats} {control : BreakerControl}
    {source : TradingSwitchSource} {reason : Text}
    (h : .stopTrading source reason ∈ (CircuitBreaker.decideTrip config signal stats control).2) :
    source = .circuitBreaker ∧ config.minFailures ≤ stats.failures ∧
      config.failurePercent * stats.total ≤ stats.failures * 100 ∧
      tradingSwitchReasonSchema (reasonOf signal stats.failures stats.total config.windowMs) =
        some reason := by
  unfold CircuitBreaker.decideTrip at h
  by_cases htrips : tripsAt stats config = true
  · rw [if_pos htrips] at h
    unfold tripsAt at htrips
    simp only [Bool.and_eq_true, decide_eq_true_eq] at htrips
    unfold CircuitBreaker.trip at h
    cases hschema : tradingSwitchReasonSchema (reasonOf signal stats.failures stats.total
      config.windowMs) with
    | none =>
      rw [hschema] at h
      simp at h
    | some sent =>
      rw [hschema] at h
      simp only [List.mem_singleton, BreakerEffect.stopTrading.injEq] at h
      exact ⟨h.1, htrips.1, htrips.2, congrArg some h.2.symm⟩
  · rw [if_neg htrips] at h
    cases h

theorem stopTrading_of_evaluate {signal : BreakerSignal} {source : TradingSwitchSource} {reason : Text}
    {history : List (String × FailureEvent)}
    (h : .stopTrading source reason ∈ (BreakerRecord.evaluate config signal t r).2)
    (hhistory : r.recorded signal = history) :
    r.control.stopped = false ∧ r.control.tripping = none ∧ .stopTrading source reason ∈
      (CircuitBreaker.decideTrip config signal (FailureWindow.reference config.windowMs t history)
        r.control).2 := by
  unfold BreakerRecord.evaluate at h
  by_cases hbusy : (r.control.stopped || r.control.tripping.isSome) = true
  · rw [if_pos hbusy] at h
    cases h
  · rw [if_neg hbusy, hhistory] at h
    rw [Bool.or_eq_true, not_or] at hbusy
    exact ⟨by simpa using hbusy.1, by simpa using hbusy.2, h⟩

/-- **A call closes trading only so.** -/
theorem trips_of_stopTrading {call : BreakerCall} {source : TradingSwitchSource} {reason : Text}
    (h : .stopTrading source reason ∈ (BreakerRecord.react config r call).2) :
    ∃ signal t, Trips config r call signal t source reason := by
  have hmake : ∀ (signal : BreakerSignal) (t : ℚ) (key : String) (event : FailureEvent),
      call.evaluates = some (signal, t) → call.event = some (signal, key, event) →
      .stopTrading source reason ∈
        (BreakerRecord.evaluate config signal t (BreakerRecord.record signal key event.failed event.atMs
          r)).2 →
      ∃ signal t, Trips config r call signal t source reason := by
    intro signal t key event hevaluates hevent hmem
    have hhistory : (BreakerRecord.record signal key event.failed event.atMs r).recorded signal =
        r.withEvent call signal := by
      unfold BreakerRecord.record BreakerRecord.withEvent
      rw [hevent]
      simp
    obtain ⟨hrunning, hidle, hdecided⟩ := stopTrading_of_evaluate hmem hhistory
    obtain ⟨hsource, hfailures, hshare, hreason⟩ := stopTrading_of_decideTrip hdecided
    exact ⟨signal, t, hevaluates, hrunning, hidle, hsource, hfailures, hshare, hreason⟩
  cases call with
  | rest intentId failed atMs statsMs =>
    cases failed with
    | false => cases h
    | true => exact hmake .rest statsMs intentId ⟨true, atMs⟩ rfl rfl h
  | socketLost accountId atMs statsMs => exact hmake .socket statsMs accountId ⟨true, atMs⟩ rfl rfl h
  | socketReady accountId atMs => cases h
  | stop => cases h
  | answered changed =>
    simp only [BreakerRecord.react] at h
    split at h <;> simp at h
  | refused =>
    simp only [BreakerRecord.react] at h
    split at h <;> simp at h
  | settled =>
    simp only [BreakerRecord.react] at h
    split at h <;> simp at h

/-- **In every run the breaker closes trading exactly when the plain one does**, that keeps every event and
counts the distinct keys whose latest event is in the window; what it sends is its own closing, with a
reason that the switch takes. -/
theorem breaker_trips_as_its_record (config : CircuitBreakerConfig) (calls : List BreakerCall)
    (h : ClockForward calls) :
    effects (CircuitBreaker.react config) .created calls = effects (BreakerRecord.react config) .created
      calls ∧
      ∀ before call after source reason, calls = before ++ call :: after →
        .stopTrading source reason ∈
          (CircuitBreaker.react config (stateAfter (CircuitBreaker.react config) .created before) call).2 →
        ∃ signal t, Trips config (stateAfter (BreakerRecord.react config) .created before) call signal t
          source
          reason := by
  refine ⟨(agrees_run h).1, fun before call after source reason hcalls hmem => ?_⟩
  rw [hcalls, List.append_cons] at h
  rw [react_agrees h.init] at hmem
  exact trips_of_stopTrading hmem

/-- A storm of lost sockets, the switch's answer, and a storm that goes on. -/
def storm : List BreakerCall :=
  [.socketLost "a" 0 0, .socketReady "b" 1, .socketLost "c" 2 2, .answered true, .settled,
    .socketLost "a" 3 3, .socketLost "d" 4 4]

theorem breaker_trips_as_its_record_storm :
    effects (CircuitBreaker.react ⟨120, 2, 50⟩) .created storm =
        effects (BreakerRecord.react ⟨120, 2, 50⟩) .created storm ∧
      ∀ before call after source reason, storm = before ++ call :: after →
        .stopTrading source reason ∈
          (CircuitBreaker.react ⟨120, 2, 50⟩
            (stateAfter (CircuitBreaker.react ⟨120, 2, 50⟩) .created before) call).2 →
        ∃ signal t, Trips ⟨120, 2, 50⟩ (stateAfter (BreakerRecord.react ⟨120, 2, 50⟩) .created before) call
          signal t source reason :=
  breaker_trips_as_its_record _ storm (by unfold ClockForward storm; norm_num [BreakerCall.moments])

/-! ## Two storms -/

/-- A signal's events are those it had and those of the calls. -/
theorem mem_recorded_react {signal : BreakerSignal} {e : String × FailureEvent} (call : BreakerCall)
    (h : e ∈ (BreakerRecord.react config r call).1.recorded signal) :
    e ∈ r.recorded signal ∨ call.event = some (signal, e) := by
  have hrecord : ∀ (signal' : BreakerSignal) (key : String) (failed : Bool) (atMs : ℚ),
      call.event = some (signal', key, ⟨failed, atMs⟩) →
      e ∈ (BreakerRecord.record signal' key failed atMs r).recorded signal →
      e ∈ r.recorded signal ∨ call.event = some (signal, e) := by
    intro signal' key failed atMs hevent hmem
    unfold BreakerRecord.record at hmem
    dsimp only at hmem
    by_cases hsignal : signal = signal'
    · rw [hsignal, Function.update_self, List.mem_append, List.mem_singleton] at hmem
      rcases hmem with hmem | hmem
      · exact .inl (hsignal ▸ hmem)
      · exact .inr (by rw [hevent, hmem, hsignal])
    · rw [Function.update_of_ne hsignal] at hmem
      exact .inl hmem
  have hevaluate : ∀ (signal' : BreakerSignal) (t : ℚ) (r' : BreakerRecord),
      (BreakerRecord.evaluate config signal' t r').1.recorded = r'.recorded := by
    intro signal' t r'
    unfold BreakerRecord.evaluate
    split <;> rfl
  cases call with
  | rest intentId failed atMs statsMs =>
    cases failed with
    | false => exact hrecord _ _ _ _ rfl h
    | true =>
      simp only [BreakerRecord.react, if_true, hevaluate] at h
      exact hrecord _ _ _ _ rfl h
  | socketLost accountId atMs statsMs =>
    simp only [BreakerRecord.react, hevaluate] at h
    exact hrecord _ _ _ _ rfl h
  | socketReady accountId atMs => exact hrecord _ _ _ _ rfl h
  | stop => exact .inl h
  | answered changed =>
    simp only [BreakerRecord.react] at h
    split at h
    · rename_i signal' stats heq
      dsimp only at h
      by_cases hsignal : signal = signal'
      · rw [hsignal, Function.update_self] at h
        cases h
      · rw [Function.update_of_ne hsignal] at h
        exact .inl h
    · exact .inl h
  | refused =>
    simp only [BreakerRecord.react] at h
    split at h <;> exact .inl h
  | settled =>
    simp only [BreakerRecord.react] at h
    split at h <;> exact .inl h

theorem mem_recorded {signal : BreakerSignal} {e : String × FailureEvent} (calls : List BreakerCall)
    (h : e ∈ (stateAfter (BreakerRecord.react config) r calls).recorded signal) :
    e ∈ r.recorded signal ∨ ∃ call ∈ calls, call.event = some (signal, e) := by
  induction calls generalizing r with
  | nil => exact .inl h
  | cons call calls ih =>
    rcases ih h with hmem | ⟨call', hcall', hevent⟩
    · rcases mem_recorded_react call hmem with hmem | hevent
      · exact .inl hmem
      · exact .inr ⟨call, List.mem_cons_self, hevent⟩
    · exact .inr ⟨call', List.mem_cons_of_mem _ hcall', hevent⟩

/-- What is counted as failed is that many distinct keys, each with a failure in the window. -/
theorem keys_of_reference (windowMs t : ℚ) (history : List (String × FailureEvent)) :
    ∃ keys : List String, keys.Nodup ∧
      keys.length = (FailureWindow.reference windowMs t history).failures ∧
      ∀ key ∈ keys, ∃ event, (key, event) ∈ history ∧ event.failed = true ∧
        FailureWindow.InWindow windowMs t event := by
  let failing := (FailureWindow.counted windowMs t history).filter (fun e => e.2.failed)
  have hmem : ∀ {e}, e ∈ failing → FailureWindow.latestOf history e.1 = some e.2 ∧
      FailureWindow.InWindow windowMs t e.2 ∧ e.2.failed = true := by
    intro e he
    obtain ⟨hcounted, hfailed⟩ := List.mem_filter.mp he
    obtain ⟨hlatest, hin⟩ := FailureWindow.mem_counted.mp hcounted
    exact ⟨hlatest, hin, hfailed⟩
  refine ⟨failing.map Prod.fst, ?_, ?_, fun key hkey => ?_⟩
  · -- a key has one latest event
    refine List.Nodup.map_on (fun e he e' he' heq => ?_)
      ((FailureWindow.counted_nodup windowMs t history).filter _)
    have hlatest := (hmem he).1
    rw [heq, (hmem he').1] at hlatest
    exact Prod.ext heq (Option.some.inj hlatest).symm
  · rw [List.length_map]
    exact List.countP_eq_length_filter.symm
  · obtain ⟨e, he, rfl⟩ := List.mem_map.mp hkey
    obtain ⟨hlatest, hin, hfailed⟩ := hmem he
    unfold FailureWindow.latestOf at hlatest
    obtain ⟨e', hfind, hevent⟩ := Option.map_eq_some_iff.mp hlatest
    have hkey' : e'.1 = e.1 := by simpa using List.find?_some hfind
    have hhistory : e' ∈ history := List.mem_reverse.mp (List.mem_of_find?_eq_some hfind)
    have he' : e' = (e.1, e.2) := Prod.ext hkey' hevent
    exact ⟨e.2, he' ▸ hhistory, hfailed, hin⟩

/-- **A trip after an answered one is on a storm of its own**: enough distinct keys failed after the answer,
inside the window. -/
theorem trips_on_fresh_failures {before after : List BreakerCall} {call : BreakerCall} {changed : Bool}
    {signal : BreakerSignal} {stats : WindowStats} {source : TradingSwitchSource} {reason : Text} {t : ℚ}
    (hclock : ClockForward (before ++ .answered changed :: after ++ [call]))
    (hcalling : (stateAfter (CircuitBreaker.react config) .created before).control.tripping =
      some ⟨signal, stats, .calling⟩)
    (hevaluates : call.evaluates = some (signal, t))
    (htrip : .stopTrading source reason ∈ (CircuitBreaker.react config
      (stateAfter (CircuitBreaker.react config) .created (before ++ .answered changed :: after)) call).2) :
    ∃ keys : List String, keys.Nodup ∧ config.minFailures ≤ keys.length ∧
      ∀ key ∈ keys, ∃ event, event.failed = true ∧ FailureWindow.InWindow config.windowMs t event ∧
        ∃ call' ∈ after ++ [call], call'.event = some (signal, key, event) := by
  -- the plain breaker closes trading at the same call
  rw [react_agrees hclock] at htrip
  obtain ⟨signal', t', htrips⟩ := trips_of_stopTrading htrip
  obtain ⟨rfl, rfl⟩ := Prod.mk.inj (Option.some.inj (htrips.evaluates.symm.trans hevaluates))
  -- at the answer it forgot the signal's events
  have hagrees : AgreesBefore config [] _ _ := (agrees_run hclock.init.init).2
  obtain ⟨-, -, -, hcontrol⟩ := hagrees
  rw [hcontrol] at hcalling
  have hanswered : (BreakerRecord.react config (stateAfter (BreakerRecord.react config) .created before)
      (.answered changed)).1.recorded signal' = [] := by
    simp only [BreakerRecord.react, hcalling, Function.update_self]
  obtain ⟨keys, hnodup, hlength, hkeys⟩ := keys_of_reference config.windowMs t'
    ((stateAfter (BreakerRecord.react config) .created (before ++ .answered changed :: after)).withEvent
      call
      signal')
  refine ⟨keys, hnodup, hlength ▸ htrips.failures, fun key hkey => ?_⟩
  obtain ⟨event, hmem, hfailed, hin⟩ := hkeys key hkey
  refine ⟨event, hfailed, hin, ?_⟩
  have hlast : (key, event) ∈
      (stateAfter (BreakerRecord.react config) .created (before ++ .answered changed :: after)).recorded
        signal' →
      ∃ call' ∈ after ++ [call], call'.event = some (signal', key, event) := by
    intro hmem
    rw [stateAfter_append, stateAfter_cons] at hmem
    rcases mem_recorded after hmem with hmem | ⟨call', hcall', hevent⟩
    · rw [hanswered] at hmem
      cases hmem
    · exact ⟨call', List.mem_append_left _ hcall', hevent⟩
  unfold BreakerRecord.withEvent at hmem
  cases hevent : call.event with
  | none =>
    rw [hevent] at hmem
    exact hlast hmem
  | some e =>
    obtain ⟨signal, e⟩ := e
    rw [hevent] at hmem
    dsimp only at hmem
    split at hmem
    · rename_i hsignal
      rcases List.mem_append.mp hmem with hmem | hmem
      · exact hlast hmem
      · refine ⟨call, List.mem_append_right _ List.mem_cons_self, ?_⟩
        rw [hevent, hsignal, List.mem_singleton.mp hmem]
    · exact hlast hmem

theorem trips_on_fresh_failures_storm :
    ∃ keys : List String, keys.Nodup ∧ 2 ≤ keys.length ∧
      ∀ key ∈ keys, ∃ event, event.failed = true ∧ FailureWindow.InWindow 120 4 event ∧
        ∃ call' ∈ [.settled, .socketLost "a" 3 3] ++ [.socketLost "d" 4 4],
          BreakerCall.event call' = some (.socket, key, event) := by
  have hruns : (stateAfter (CircuitBreaker.react ⟨120, 2, 50⟩) .created
        [.socketLost "a" 0 0, .socketReady "b" 1, .socketLost "c" 2 2]).control.tripping =
          some ⟨.socket, ⟨2, 3⟩, .calling⟩ ∧
      .stopTrading .circuitBreaker (reasonOf .socket 2 2 120) ∈
        (CircuitBreaker.react ⟨120, 2, 50⟩ (stateAfter (CircuitBreaker.react ⟨120, 2, 50⟩) .created
          ([.socketLost "a" 0 0, .socketReady "b" 1, .socketLost "c" 2 2] ++
            .answered true :: [.settled, .socketLost "a" 3 3])) (.socketLost "d" 4 4)).2 := by
    decide +kernel
  exact trips_on_fresh_failures (by unfold ClockForward; norm_num [BreakerCall.moments]) hruns.1 rfl hruns.2

end Binarius
