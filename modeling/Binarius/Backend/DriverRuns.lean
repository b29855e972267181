import Mathlib.Tactic
import Binarius.Backend.Driver
import Binarius.Worker.Orchestrator

/-!
# Backend.DriverRuns — what launches a step of a session
(apps/backend/src/h1/driver.ts, apps/backend/src/trading/session-routes.ts)

A run of `trade` starts from a closed second of the session's pair, from a notice about the session, or
from its start; a plan carries the pair its second or its start has read.

* `addSession`: what the driver tracks a session with.
* `driverStep`: one event of a tracked session, up to the intent it asks for.
* `driverStep_create`: **an intent is asked for only over a pair that is open and takes the session's
  trades.**
-/

namespace Binarius

/-- The driver's `add`: the settings parse and are H1's, the window fits, the sizer takes the stake. -/
def addSession (schemaAccepts : TradingSessionSettings → Bool) (windowFits : H1SessionSettings → Bool)
    (session : ActiveH1Session) (settings : TradingSessionSettings) : Option Tracked :=
  match safeParseTradingSessionSettings schemaAccepts settings with
  | some (.h1 settings) =>
    if windowFits settings then
      match createStakeSizer (sessionStakeParams settings) with
      | .ok sizer => some { session, settings, sizer }
      | .error _ => none
    else none
  | _ => none

/-- What an event reads of the process: the catalog, the data socket, the clock. -/
structure DriverProcess where
  view : Option PairsCatalogView
  streaming : Bool
  nowMs : ℤ
  submitBudgetMs : ℤ
  deriving DecidableEq, Repr

/-- The pair the session trades, open and taking 5 s on a fresh catalog, with the source up. -/
def eligiblePair (process : DriverProcess) (assetId : ℕ) : Option BinaryPair :=
  if !process.streaming then none
  else match process.view with
    | none => none
    | some view =>
      if !view.fresh then none
      else match view.pairOf assetId with
        | none => none
        | some pair =>
          if !isPairOpen pair process.nowMs || !pairAcceptsDuration pair h1ExpirySec then none
          else some pair

/-- The pair of a start: the route refuses one that is closed or does not take the duration, and a
duration that is not H1's. -/
def startPair (process : DriverProcess) (assetId durationSec : ℕ) : Option BinaryPair :=
  match process.view with
  | none => none
  | some view =>
    if !view.fresh then none
    else match view.pairOf assetId with
      | none => none
      | some pair =>
        if !isPairOpen pair process.nowMs || !pairAcceptsDuration pair durationSec then none
        else if durationSec ≠ h1ExpirySec then none
        else some pair

inductive H1Decision
  | signal (action : TradeAction)
  | noSignal
  deriving DecidableEq, Repr

/-- A second and the detector's decision on it; none while its window is warming or its pair has no
digits. -/
structure H1SecondFacts where
  f : UnixMs
  closedAtMs : UnixMs
  takenAtMs : UnixMs
  decision : Option H1Decision
  deriving DecidableEq, Repr

inductive H1Start
  | reading (facts : H1SecondFacts)
  | shown (decidedAt : UnixMs) (action : TradeAction)
  deriving DecidableEq, Repr

inductive DriverEvent
  | closed (facts : H1SecondFacts)
  | notice
  | start (start : H1Start)
  deriving DecidableEq, Repr

/-- The tracked session's flags that hold an event back. -/
structure TrackedFlags where
  busy : Bool
  repeatPending : Bool
  /-- the first second the session may decide again -/
  nextAt : Option UnixMs
  deriving DecidableEq, Repr

def TrackedFlags.held (flags : TrackedFlags) (second : ℤ) : Bool :=
  flags.nextAt.any (fun nextAt => decide (second < nextAt))

/-- A decision on a second: only a signal trades. -/
def actOn (facts : H1SecondFacts) (pair : BinaryPair) : Option (Option H1TradePlan) :=
  match facts.decision with
  | some (.signal action) => some (some (.signal {
      f := facts.f, closedAtMs := facts.closedAtMs, takenAtMs := facts.takenAtMs, action
      payout := pair.payout }))
  | _ => none

/-- The plan of the `trade` that an event launches, if it launches one. -/
def launchedPlan (process : DriverProcess) (state : Tracked) (flags : TrackedFlags) :
    DriverEvent → Option (Option H1TradePlan)
  | .closed facts =>
    match eligiblePair process state.settings.assetId with
    | none => none
    | some pair =>
      if flags.busy then none
      else if flags.repeatPending then some none
      else if flags.held facts.f then none
      else actOn facts pair
  | .notice => if flags.busy then none else some none
  | .start start =>
    match startPair process state.settings.assetId state.settings.durationSec with
    | none => none
    | some pair =>
      if flags.busy then none
      else match start with
        | .shown decidedAt action =>
          if flags.held process.nowMs then none
          else some (some (.shown { decidedAt, action, payout := pair.payout }))
        | .reading facts => if flags.held facts.f then none else actOn facts pair

def DriverProcess.reads (process : DriverProcess) (assetId : ℕ) : DriverReads where
  eligiblePair := (eligiblePair process assetId).map BinaryPair.payout
  stakeNowMs := process.nowMs
  submitBudgetMs := process.submitBudgetMs

/-- One event of a tracked session: what the `trade` it launches asks for. -/
def driverStep (process : DriverProcess) (state : Tracked) (flags : TrackedFlags) (event : DriverEvent)
    (read : Option SessionBatchRead) : Option (Except StakeError TradePlanned) :=
  (launchedPlan process state flags event).map (fun plan =>
    planTrade state plan (process.reads state.settings.assetId) read)

/-! ## What an intent is asked for over -/

section Create

variable {process : DriverProcess} {state : Tracked} {flags : TrackedFlags} {event : DriverEvent}

/-- A pair of the catalog that is open now and takes the session's trades. -/
structure Tradable (process : DriverProcess) (assetId : ℕ) (pair : BinaryPair) : Prop where
  listed : ∃ view, process.view = some view ∧ view.pairOf assetId = some pair
  isOpen : isPairOpen pair process.nowMs = true
  accepts : pairAcceptsDuration pair h1ExpirySec = true

theorem eligiblePair_tradable {assetId : ℕ} {pair : BinaryPair}
    (h : eligiblePair process assetId = some pair) : Tradable process assetId pair := by
  unfold eligiblePair at h
  split at h
  · exact nomatch h
  · split at h
    · exact nomatch h
    · rename_i view hview
      split at h
      · exact nomatch h
      · split at h
        · exact nomatch h
        · rename_i found hfound
          split at h
          · exact nomatch h
          · rename_i hok
            obtain rfl := Option.some.inj h
            rw [Bool.or_eq_true, not_or, Bool.not_eq_true', Bool.not_eq_true', Bool.not_eq_false,
              Bool.not_eq_false] at hok
            exact ⟨⟨view, hview, hfound⟩, hok.1, hok.2⟩

theorem startPair_tradable {assetId durationSec : ℕ} {pair : BinaryPair}
    (h : startPair process assetId durationSec = some pair) : Tradable process assetId pair := by
  unfold startPair at h
  split at h
  · exact nomatch h
  · rename_i view hview
    split at h
    · exact nomatch h
    · split at h
      · exact nomatch h
      · rename_i found hfound
        split at h
        · exact nomatch h
        · rename_i hok
          split at h
          · exact nomatch h
          · rename_i hduration
            obtain rfl := Option.some.inj h
            rw [Bool.or_eq_true, not_or, Bool.not_eq_true', Bool.not_eq_true', Bool.not_eq_false,
              Bool.not_eq_false] at hok
            rw [not_not] at hduration
            exact ⟨⟨view, hview, hfound⟩, hok.1, hduration ▸ hok.2⟩

/-- A plan carries the payout of a tradable pair. -/
theorem launchedPlan_payout {plan : H1TradePlan}
    (h : launchedPlan process state flags event = some (some plan)) :
    ∃ pair, Tradable process state.settings.assetId pair ∧ stepPayout (some plan) none = pair.payout := by
  have hact : ∀ {facts : H1SecondFacts} {pair : BinaryPair}, actOn facts pair = some (some plan) →
      stepPayout (some plan) none = pair.payout := by
    intro facts pair hplan
    unfold actOn at hplan
    split at hplan
    · obtain rfl := Option.some.inj (Option.some.inj hplan)
      rfl
    · exact nomatch hplan
  cases event with
  | closed facts =>
    unfold launchedPlan at h
    simp only at h
    split at h
    · exact nomatch h
    · rename_i pair hpair
      refine ⟨pair, eligiblePair_tradable hpair, ?_⟩
      split at h
      · exact nomatch h
      · split at h
        · exact nomatch Option.some.inj h
        · split at h
          · exact nomatch h
          · exact hact h
  | notice =>
    unfold launchedPlan at h
    simp only at h
    split at h
    · exact nomatch h
    · exact nomatch Option.some.inj h
  | start start =>
    unfold launchedPlan at h
    simp only at h
    split at h
    · exact nomatch h
    · rename_i pair hpair
      refine ⟨pair, startPair_tradable hpair, ?_⟩
      split at h
      · exact nomatch h
      · split at h
        · split at h
          · exact nomatch h
          · obtain rfl := Option.some.inj (Option.some.inj h)
            rfl
        · split at h
          · exact nomatch h
          · exact hact h

/-- **What `trade` has read when it asks for an intent**: no block, a balance, and the sizer's stake on
the step's payout. -/
theorem planTrade_create {plan : Option H1TradePlan} {reads : DriverReads}
    {read : Option SessionBatchRead} {input : CreateSessionIntentInput}
    (h : planTrade state plan reads read = .ok (.create input)) :
    ∃ batch balance version amount features, read = some batch ∧
      sessionIntentBlock batch.history state.settings = none ∧ batch.balance = some balance ∧
      (repeatDue batch.history.intents state.settings = none → plan ≠ none) ∧
      (repeatDue batch.history.intents state.settings ≠ none → reads.eligiblePair ≠ none) ∧
      state.sizer.next (sessionStakeInput
        (batch.history.intents.map (fun i => { status := i.status, amount := i.amount, profit := i.profit }))
        (stepPayout plan (repeatPair (repeatDue batch.history.intents state.settings) reads))
        balance.minTradeAmount balance.available state.session.startedAt reads.stakeNowMs) =
          .ok (.stake version amount features) := by
  unfold planTrade at h
  split at h
  · exact nomatch h
  rename_i batch
  split at h
  · exact nomatch h
  rename_i hblock
  simp only at h
  split at h
  · exact nomatch h
  rename_i hplan
  split at h
  · exact nomatch h
  rename_i hdue
  split at h
  · exact nomatch h
  rename_i balance hbalance
  cases hnext : state.sizer.next (sessionStakeInput
      (batch.history.intents.map (fun i => { status := i.status, amount := i.amount, profit := i.profit }))
      (stepPayout plan (repeatPair (repeatDue batch.history.intents state.settings) reads))
      balance.minTradeAmount balance.available state.session.startedAt reads.stakeNowMs) with
  | error e =>
    rw [hnext] at h
    exact nomatch h
  | ok decision =>
    rw [hnext] at h
    have hcreate : plannedStake state batch.history balance.awaitsBalance decision
        (stepTerms state.settings reads.submitBudgetMs (repeatDue batch.history.intents state.settings)
          plan) = .create input := Except.ok.inj h
    unfold plannedStake at hcreate
    split at hcreate
    · rename_i version amount features _ _ _ _
      refine ⟨batch, balance, version, amount, features, rfl, hblock, hbalance, ?_, ?_, hnext⟩
      · rintro hnone rfl
        exact hplan ⟨by rw [hnone]; rfl, rfl⟩
      · intro hsome hpair
        refine hdue ⟨Option.isSome_iff_ne_none.mpr hsome, ?_⟩
        rw [repeatPair, hpair, ite_self]
        rfl
    · split at hcreate <;> exact nomatch hcreate
    · exact nomatch hcreate

/-- **An intent is asked for only over a tradable pair**, sized on that pair's payout. -/
theorem driverStep_create {read : Option SessionBatchRead} {input : CreateSessionIntentInput}
    (h : driverStep process state flags event read = some (.ok (.create input))) :
    ∃ batch balance pair version amount features, read = some batch ∧
      sessionIntentBlock batch.history state.settings = none ∧ batch.balance = some balance ∧
      Tradable process state.settings.assetId pair ∧
      state.sizer.next (sessionStakeInput
        (batch.history.intents.map (fun i => { status := i.status, amount := i.amount, profit := i.profit }))
        pair.payout balance.minTradeAmount balance.available state.session.startedAt process.nowMs) =
          .ok (.stake version amount features) := by
  unfold driverStep at h
  obtain ⟨plan, hplan, hcreate⟩ := Option.map_eq_some_iff.mp h
  obtain ⟨batch, balance, version, amount, features, hread, hblock, hbalance, hnone, hsome, hnext⟩ :=
    planTrade_create hcreate
  cases hdue : repeatDue batch.history.intents state.settings with
  | none =>
    rw [hdue] at hnext
    cases plan with
    | none => exact absurd rfl (hnone hdue)
    | some plan =>
      obtain ⟨pair, hpair, hpayout⟩ := launchedPlan_payout hplan
      have hpayout' : stepPayout (some plan) (repeatPair none (process.reads state.settings.assetId)) =
          pair.payout := hpayout
      rw [hpayout'] at hnext
      exact ⟨batch, balance, pair, version, amount, features, hread, hblock, hbalance, hpair, hnext⟩
  | some due =>
    rw [hdue] at hnext
    have hne : (process.reads state.settings.assetId).eligiblePair ≠ none := hsome (by simp [hdue])
    cases hpair : eligiblePair process state.settings.assetId with
    | none => exact absurd (by simp [DriverProcess.reads, hpair]) hne
    | some pair =>
      have hpayout : stepPayout plan (repeatPair (some due) (process.reads state.settings.assetId)) =
          pair.payout := by
        simp [repeatPair, DriverProcess.reads, hpair, stepPayout]
      rw [hpayout] at hnext
      exact ⟨batch, balance, pair, version, amount, features, hread, hblock, hbalance,
        eligiblePair_tradable hpair, hnext⟩

end Create

end Binarius
