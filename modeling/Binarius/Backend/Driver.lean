import Mathlib.Tactic
import Binarius.Db.TradingSessionOps

/-!
# Backend.Driver — a step of an H1 session (apps/backend/src/h1/driver.ts)

`trade` reads the session, decides in the process and asks for an intent.  What it reads of the process
(the clock, the catalog's pair) and of the H1 signal is an argument of its pure part `planTrade`.

* `planTrade_step`: **the step a plan asks for is one past the intents it read**, none of them live.
-/

namespace Binarius

/-- The step to repeat: the settled trade it follows. -/
structure H1RepeatStep where
  intentId : IntentId
  action : TradeAction
  profit : DecimalString
  deriving DecidableEq, Repr

def resultOf (profit : DecimalString) : SessionTradeResult :=
  if isWin (some profit) then .won
  else if profit.any (fun c => '1' ≤ c && c ≤ '9') && profit.head? = some '-' then .lost
  else .tied

/-- The repeat step is due: under martingale the last intent is a settled first step that did not
win. -/
def repeatDue (intents : List SessionHistoryIntent) (settings : H1SessionSettings) :
    Option H1RepeatStep := do
  let strategy := (sessionStakeParams settings).strategy
  if !strategy.isMartingale then none
  let last ← intents.getLast?
  if last.status ≠ .settled then none
  let profit ← last.profit
  if isWin (some profit) then none
  let results := intents.filterMap (fun intent =>
    if intent.status = .settled then intent.profit.map resultOf else none)
  let position ← (sessionTradeSteps results strategy).getLast?
  if position.step ≠ 1 then none
  return { intentId := last.id, action := last.action, profit }

structure ActiveH1Session where
  id : SessionId
  brokerAccountId : AccountId
  mode : TradeMode
  startedAt : UnixMs
  deriving DecidableEq, Repr

/-- What the driver keeps of a tracked session for a trade. -/
structure Tracked where
  session : ActiveH1Session
  settings : H1SessionSettings
  sizer : StakeSizer

structure H1Signal where
  f : UnixMs
  closedAtMs : UnixMs
  takenAtMs : UnixMs
  action : TradeAction
  payout : List Char
  deriving DecidableEq, Repr

structure ShownStart where
  decidedAt : UnixMs
  action : TradeAction
  payout : List Char
  deriving DecidableEq, Repr

/-- What a step is created from, besides the repeat rule. -/
inductive H1TradePlan
  | signal (signal : H1Signal)
  | shown (shown : ShownStart)
  deriving DecidableEq, Repr

def secondMs : ℤ := 1000

/-- What `trade` reads of the process: the catalog's pair, if it is eligible now, and the clock. -/
structure DriverReads where
  eligiblePair : Option (List Char)
  stakeNowMs : ℤ
  submitBudgetMs : ℤ
  deriving DecidableEq, Repr

inductive TradePlanned
  /-- the session's row is gone -/
  | gone
  | blocked (reason : SessionIntentBlockReason)
  | idle
  | pairIneligible
  | balanceUnavailable
  | heldBalance
  | stakeStopped
  | create (input : CreateSessionIntentInput)
  deriving DecidableEq, Repr

/-- The payout of the step: the repeat's pair is read now, a plan carries its own. -/
def stepPayout (plan : Option H1TradePlan) (pair : Option (List Char)) : List Char :=
  match pair, plan with
  | some payout, _ => payout
  | none, some (.signal signal) => signal.payout
  | none, some (.shown shown) => shown.payout
  | none, none => []

/-- The terms of the step: its direction, the entry's hold and the submit deadline.  The repeat has
neither; the shown direction has no deadline. -/
def stepTerms (settings : H1SessionSettings) (submitBudgetMs : ℤ) (due : Option H1RepeatStep)
    (plan : Option H1TradePlan) : Option (TradeAction × Option UnixMs × Option UnixMs) :=
  let entryMs : ℤ := settings.entryDelaySec * secondMs
  match due, plan with
  | some step, _ => some (step.action, none, none)
  | none, some (.signal signal) =>
    let notBeforeMs := signal.closedAtMs + entryMs
    some (signal.action, some notBeforeMs, some (max notBeforeMs signal.takenAtMs + submitBudgetMs))
  | none, some (.shown shown) => some (shown.action, some (shown.decidedAt + entryMs), none)
  | none, none => none

/-- The repeat's pair is read now; a plan's second has seen its own. -/
def repeatPair (due : Option H1RepeatStep) (reads : DriverReads) : Option (List Char) :=
  if due.isSome then reads.eligiblePair else none

/-- The sizer's decision, turned into the intent to ask for. -/
def plannedStake (state : Tracked) (history : SessionHistory) (awaitsBalance : Bool)
    (decision : StakeDecision) (terms : Option (TradeAction × Option UnixMs × Option UnixMs)) :
    TradePlanned :=
  match decision, terms with
  | .stake _ amount _, some (action, notBeforeAt, deadlineAt) => .create {
      sessionId := state.session.id
      step := history.intents.length + 1
      telegramUserId := history.telegramUserId
      brokerAccountId := state.session.brokerAccountId
      mode := state.session.mode
      assetId := state.settings.assetId
      amount
      action
      durationSec := state.settings.durationSec
      submitDeadlineAt := deadlineAt
      submitNotBeforeAt := notBeforeAt }
  | .limitStop _ _ (.insufficientBalance _ _), _ => if awaitsBalance then .heldBalance else .stakeStopped
  | _, _ => .stakeStopped

/-- The pure part of `trade`, after its reads: what it asks for. -/
def planTrade (state : Tracked) (plan : Option H1TradePlan) (reads : DriverReads)
    (read : Option SessionBatchRead) : Except StakeError TradePlanned :=
  match read with
  | none => .ok .gone
  | some read =>
    match sessionIntentBlock read.history state.settings with
    | some reason => .ok (.blocked reason)
    | none =>
      let due := repeatDue read.history.intents state.settings
      let pair := repeatPair due reads
      if due.isNone ∧ plan.isNone then .ok .idle
      else if due.isSome ∧ pair.isNone then .ok .pairIneligible
      else match read.balance with
        | none => .ok .balanceUnavailable
        | some balance =>
          (state.sizer.next (sessionStakeInput
            (read.history.intents.map (fun i => { status := i.status, amount := i.amount, profit := i.profit }))
            (stepPayout plan pair) balance.minTradeAmount balance.available state.session.startedAt
            reads.stakeNowMs)).map (fun decision =>
              plannedStake state read.history balance.awaitsBalance decision
                (stepTerms state.settings reads.submitBudgetMs due plan))

theorem plannedStake_create {state : Tracked} {history : SessionHistory} {awaitsBalance : Bool}
    {decision : StakeDecision} {terms : Option (TradeAction × Option UnixMs × Option UnixMs)}
    {input : CreateSessionIntentInput}
    (h : plannedStake state history awaitsBalance decision terms = .create input) :
    input.sessionId = state.session.id ∧ input.step = history.intents.length + 1 ∧
      input.telegramUserId = history.telegramUserId := by
  unfold plannedStake at h
  split at h
  · obtain rfl := TradePlanned.create.inj h
    exact ⟨rfl, rfl, rfl⟩
  · split at h <;> exact nomatch h
  · exact nomatch h

theorem sessionIntentBlock_live {history : SessionHistory} {settings : H1SessionSettings}
    (h : sessionIntentBlock history settings = none) :
    ∀ intent ∈ history.intents, intent.status.terminal = true := by
  unfold sessionIntentBlock at h
  simp only at h
  split at h
  · exact nomatch h
  split at h
  · exact nomatch h
  rename_i hlive
  simpa using hlive

/-- **The step a plan asks for**: one past the intents it read, none of them live. -/
theorem planTrade_step {state : Tracked} {plan : Option H1TradePlan} {reads : DriverReads}
    {read : Option SessionBatchRead} {input : CreateSessionIntentInput}
    (h : planTrade state plan reads read = .ok (.create input)) :
    ∃ batch, read = some batch ∧ input.sessionId = state.session.id ∧
      input.step = batch.history.intents.length + 1 ∧
      input.telegramUserId = batch.history.telegramUserId ∧
      ∀ intent ∈ batch.history.intents, intent.status.terminal = true := by
  unfold planTrade at h
  split at h
  · exact nomatch h
  rename_i batch
  split at h
  · exact nomatch h
  rename_i hblock
  simp only at h
  split at h
  · exact nomatch h
  split at h
  · exact nomatch h
  split at h
  · exact nomatch h
  rename_i balance hbalance
  cases hnext : state.sizer.next (sessionStakeInput
      (batch.history.intents.map (fun i => { status := i.status, amount := i.amount, profit := i.profit }))
      (stepPayout plan (repeatPair (repeatDue batch.history.intents state.settings) reads))
      balance.minTradeAmount balance.available state.session.startedAt reads.stakeNowMs) with
  | error e =>
    rw [hnext] at h
    exact nomatch h
  | ok decision =>
    rw [hnext] at h
    obtain ⟨hsession, hstep, huser⟩ := plannedStake_create (Except.ok.inj h)
    exact ⟨batch, rfl, hsession, hstep, huser, sessionIntentBlock_live hblock⟩

end Binarius
