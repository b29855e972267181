import Mathlib.Tactic
import Binarius.Db.TradingSessionOps

/-!
# Db.SessionNoticeOps — the notices' columns of a session and the statements that write them
(packages/db: session-notice-ops.ts, the session messages of trading-session-ops.ts)

Each operation is one `UPDATE` of the session's row: its predicate is read and its columns written in one
step, or nothing is written (`none`).  What a statement reads of the session's trades comes as
`SessionFacts`.

* `summaryFallbackClaimable`, `waitingClaimable`, `firstNoticeHeld`: the shared predicates.
* `SessionNotices.claimSessionTradeNotice_some` and the others: what an operation that writes found and wrote.
-/

namespace Binarius

/-- A `timestamptz`, in microseconds. -/
abbrev DbTime := ℤ

abbrev MessageId := ℕ

/-- The columns of a trading_sessions row the notices keep their state in. -/
structure SessionNotices where
  startedAt : DbTime
  stopReason : Option TradingSessionStopReason
  statusMessageId : Option MessageId
  notifiedTrades : ℕ
  openNoticeIntentId : Option IntentId
  cycleMessageId : Option MessageId
  cycleMessageFrom : Option ℕ
  waitingMessageId : Option MessageId
  waitingAfterMessage : Option MessageId
  finalNoticeSentAt : Option DbTime
  summarySentAt : Option DbTime
  deriving DecidableEq, Repr

/-- What the statements read of the session and its trades. -/
structure SessionFacts where
  status : TradingSessionStatus
  /-- the settled trades in the cursor's order: `settledCountSql` counts them -/
  settled : List IntentId
  openTrade : Option IntentId
  finished : Bool
  /-- the latest decision of the trading loop is `no_signal` -/
  waitingForSignal : Bool
  deriving DecidableEq, Repr

/-- The row `createTradingSession` inserts. -/
def SessionNotices.created (startedAt : DbTime) : SessionNotices where
  startedAt := startedAt
  stopReason := none
  statusMessageId := none
  notifiedTrades := 0
  openNoticeIntentId := none
  cycleMessageId := none
  cycleMessageFrom := none
  waitingMessageId := none
  waitingAfterMessage := none
  finalNoticeSentAt := none
  summarySentAt := none

namespace SessionNotices

variable (facts : SessionFacts) (now : DbTime) (row : SessionNotices)

/-! ## The first message's hold -/

/-- The session has a message in the chat to stand under. -/
def anchored : Bool := row.statusMessageId.isSome || 0 < row.notifiedTrades || row.cycleMessageId.isSome

/-- The session's first message is held: no anchor yet, and the grace has not passed. -/
def firstNoticeHeld (graceMs : ℕ) : Bool := !row.anchored && decide (now - graceMs * 1000 < row.startedAt)

/-! ## The cursor -/

def claimSessionTradeNotice (claimed graceMs : ℕ) : Option SessionNotices :=
  if row.notifiedTrades = claimed ∧ row.finalNoticeSentAt = none ∧ claimed < facts.settled.length ∧
      row.firstNoticeHeld now graceMs = false
  then some { row with notifiedTrades := claimed + 1 } else none

def claimSessionOpenNotice (intentId : IntentId) (settled graceMs : ℕ) : Option SessionNotices :=
  if row.openNoticeIntentId ≠ some intentId ∧ row.finalNoticeSentAt = none ∧ row.notifiedTrades = settled ∧
      facts.settled.length = settled ∧ facts.openTrade = some intentId ∧
      row.firstNoticeHeld now graceMs = false
  then some { row with openNoticeIntentId := some intentId } else none

def releaseSessionOpenNotice (intentId : IntentId) : Option SessionNotices :=
  if row.openNoticeIntentId = some intentId then some { row with openNoticeIntentId := none } else none

def releaseSessionTradeNotice (claimed : ℕ) : Option SessionNotices :=
  if row.notifiedTrades = claimed + 1 ∧ row.finalNoticeSentAt = none
  then some { row with notifiedTrades := claimed } else none

/-- The cursor still stands where the claim left it, and an open block's intent is still marked. -/
def recordSessionCycleMessage (cursor : ℕ) (openIntentId : Option IntentId) (messageId : MessageId)
    (fromTrade : ℕ) : Option SessionNotices :=
  if row.notifiedTrades = cursor ∧ row.finalNoticeSentAt = none ∧
      openIntentId.all (fun id => row.openNoticeIntentId = some id)
  then some { row with cycleMessageId := some messageId, cycleMessageFrom := some fromTrade } else none

/-! ## The marks -/

/-- The notices close: finished, every settled trade claimed, the waiting message gone.  With
`closeSummary` the summary step closes in the same `UPDATE`. -/
def claimSessionFinalNotice (closeSummary : Bool) : Option SessionNotices :=
  if row.finalNoticeSentAt = none ∧ facts.finished = true ∧ row.notifiedTrades = facts.settled.length ∧
      row.waitingMessageId = none
  then some { row with
    finalNoticeSentAt := some now
    summarySentAt := if closeSummary then some now else row.summarySentAt } else none

/-- A settled trade, or the no-signal stop. -/
def hasSummary : Bool := decide (facts.settled ≠ []) || decide (row.stopReason = some .noSignalTimeout)

def summaryFallbackClaimable : Bool :=
  row.finalNoticeSentAt.isSome && row.summarySentAt.isNone && row.hasSummary facts

def claimSummaryFallback : Option SessionNotices :=
  if row.summaryFallbackClaimable facts then some { row with summarySentAt := some now } else none

def releaseSummaryFallback (claimedAt : DbTime) : Option SessionNotices :=
  if row.summarySentAt = some claimedAt then some { row with summarySentAt := none } else none

/-- The bot's claim: `owned` says the session is the caller's. -/
def claimSessionSummary (owned : Bool) : Option SessionNotices :=
  if facts.finished = true ∧ row.summarySentAt = none ∧ row.finalNoticeSentAt ≠ none ∧ owned = true ∧
      row.hasSummary facts = true
  then some { row with summarySentAt := some now } else none

/-! ## The waiting message -/

/-- The latest message of the session a waiting message stands under; 0 before any. -/
def slot : MessageId := max (row.cycleMessageId.getD 0) (row.statusMessageId.getD 0)

def waitingClaimable : Bool :=
  facts.status = .active && row.waitingMessageId = none && row.waitingAfterMessage ≠ some row.slot &&
    row.anchored && facts.waitingForSignal

def claimSessionWaiting : Option SessionNotices :=
  if row.waitingClaimable facts = true ∧ row.finalNoticeSentAt = none
  then some { row with waitingAfterMessage := some row.slot } else none

def recordSessionWaitingMessage (slot messageId : MessageId) : Option SessionNotices :=
  if row.waitingAfterMessage = some slot ∧ row.waitingMessageId = none ∧ facts.status = .active
  then some { row with waitingMessageId := some messageId } else none

def releaseSessionWaiting (slot : MessageId) : Option SessionNotices :=
  if row.waitingAfterMessage = some slot ∧ row.waitingMessageId = none
  then some { row with waitingAfterMessage := none } else none

def clearSessionWaitingMessage (messageId : MessageId) : Option SessionNotices :=
  if row.waitingMessageId = some messageId
  then some { row with waitingMessageId := none, waitingAfterMessage := none } else none

/-- The columns the stop writes beside the status: its reason, and with the pressed waiting message's id
that message handed over. -/
def stopped (reason : TradingSessionStopReason) (waitingMessageId : Option MessageId) : SessionNotices :=
  if waitingMessageId.isSome ∧ row.waitingMessageId = waitingMessageId
  then { row with stopReason := some reason, waitingMessageId := none, waitingAfterMessage := none }
  else { row with stopReason := some reason }

/-! ## The bot's status message -/

def recordSessionStatusMessage (owned : Bool) (messageId : MessageId) : Option SessionNotices :=
  if owned = true ∧ row.statusMessageId.all (· < messageId)
  then some { row with statusMessageId := some messageId } else none

def forgetSessionStatusMessage (owned : Bool) (messageId : MessageId) : Option SessionNotices :=
  if owned = true ∧ row.statusMessageId = some messageId
  then some { row with statusMessageId := none } else none

/-! ## What an operation that writes found -/

section Specs

variable {facts : SessionFacts} {now : DbTime} {row row' : SessionNotices}

/-- A statement that wrote: its predicate held. -/
theorem of_ite_some {c : Prop} [Decidable c] {a b : SessionNotices} (h : (if c then some a else none) = some b) :
    c ∧ b = a := by
  obtain ⟨hc, hab⟩ := Option.ite_none_right_eq_some.mp h
  exact ⟨hc, (Option.some.inj hab).symm⟩

theorem claimSessionTradeNotice_some {claimed graceMs : ℕ}
    (h : row.claimSessionTradeNotice facts now claimed graceMs = some row') :
    row.notifiedTrades = claimed ∧ row.finalNoticeSentAt = none ∧ claimed < facts.settled.length ∧
      row.firstNoticeHeld now graceMs = false ∧ row' = { row with notifiedTrades := claimed + 1 } := by
  unfold claimSessionTradeNotice at h
  obtain ⟨⟨h1, h2, h3, h4⟩, rfl⟩ := of_ite_some h
  exact ⟨h1, h2, h3, h4, rfl⟩

theorem claimSessionOpenNotice_some {intentId : IntentId} {settled graceMs : ℕ}
    (h : row.claimSessionOpenNotice facts now intentId settled graceMs = some row') :
    row.openNoticeIntentId ≠ some intentId ∧ row.finalNoticeSentAt = none ∧ row.notifiedTrades = settled ∧
      facts.settled.length = settled ∧ facts.openTrade = some intentId ∧
      row.firstNoticeHeld now graceMs = false ∧ row' = { row with openNoticeIntentId := some intentId } := by
  unfold claimSessionOpenNotice at h
  obtain ⟨⟨h1, h2, h3, h4, h5, h6⟩, rfl⟩ := of_ite_some h
  exact ⟨h1, h2, h3, h4, h5, h6, rfl⟩

theorem releaseSessionOpenNotice_some {intentId : IntentId}
    (h : row.releaseSessionOpenNotice intentId = some row') :
    row.openNoticeIntentId = some intentId ∧ row' = { row with openNoticeIntentId := none } := by
  unfold releaseSessionOpenNotice at h
  obtain ⟨h1, rfl⟩ := of_ite_some h
  exact ⟨h1, rfl⟩

theorem releaseSessionTradeNotice_some {claimed : ℕ} (h : row.releaseSessionTradeNotice claimed = some row') :
    row.notifiedTrades = claimed + 1 ∧ row.finalNoticeSentAt = none ∧
      row' = { row with notifiedTrades := claimed } := by
  unfold releaseSessionTradeNotice at h
  obtain ⟨⟨h1, h2⟩, rfl⟩ := of_ite_some h
  exact ⟨h1, h2, rfl⟩

theorem recordSessionCycleMessage_some {cursor : ℕ} {openIntentId : Option IntentId} {messageId : MessageId}
    {fromTrade : ℕ}
    (h : row.recordSessionCycleMessage cursor openIntentId messageId fromTrade = some row') :
    row.notifiedTrades = cursor ∧ row.finalNoticeSentAt = none ∧
      (∀ id, openIntentId = some id → row.openNoticeIntentId = some id) ∧
      row' = { row with cycleMessageId := some messageId, cycleMessageFrom := some fromTrade } := by
  unfold recordSessionCycleMessage at h
  obtain ⟨⟨h1, h2, h3⟩, rfl⟩ := of_ite_some h
  refine ⟨h1, h2, ?_, rfl⟩
  rintro id rfl
  exact of_decide_eq_true h3

theorem claimSessionFinalNotice_some {closeSummary : Bool}
    (h : row.claimSessionFinalNotice facts now closeSummary = some row') :
    row.finalNoticeSentAt = none ∧ facts.finished = true ∧ row.notifiedTrades = facts.settled.length ∧
      row.waitingMessageId = none ∧
      row' = { row with
        finalNoticeSentAt := some now
        summarySentAt := if closeSummary then some now else row.summarySentAt } := by
  unfold claimSessionFinalNotice at h
  obtain ⟨⟨h1, h2, h3, h4⟩, rfl⟩ := of_ite_some h
  exact ⟨h1, h2, h3, h4, rfl⟩

theorem claimSummaryFallback_some (h : row.claimSummaryFallback facts now = some row') :
    row.finalNoticeSentAt ≠ none ∧ row.summarySentAt = none ∧ row' = { row with summarySentAt := some now } := by
  unfold claimSummaryFallback at h
  obtain ⟨hclaimable, rfl⟩ := of_ite_some h
  simp only [summaryFallbackClaimable, Bool.and_eq_true, Option.isNone_iff_eq_none] at hclaimable
  exact ⟨Option.isSome_iff_ne_none.mp hclaimable.1.1, hclaimable.1.2, rfl⟩

theorem releaseSummaryFallback_some {claimedAt : DbTime} (h : row.releaseSummaryFallback claimedAt = some row') :
    row.summarySentAt = some claimedAt ∧ row' = { row with summarySentAt := none } := by
  unfold releaseSummaryFallback at h
  obtain ⟨h1, rfl⟩ := of_ite_some h
  exact ⟨h1, rfl⟩

theorem claimSessionSummary_some {owned : Bool} (h : row.claimSessionSummary facts now owned = some row') :
    facts.finished = true ∧ row.finalNoticeSentAt ≠ none ∧ row.summarySentAt = none ∧
      row' = { row with summarySentAt := some now } := by
  unfold claimSessionSummary at h
  obtain ⟨⟨h1, h2, h3, _⟩, rfl⟩ := of_ite_some h
  exact ⟨h1, h3, h2, rfl⟩

theorem claimSessionWaiting_some (h : row.claimSessionWaiting facts = some row') :
    row.waitingClaimable facts = true ∧ row.finalNoticeSentAt = none ∧
      row' = { row with waitingAfterMessage := some row.slot } := by
  unfold claimSessionWaiting at h
  obtain ⟨⟨h1, h2⟩, rfl⟩ := of_ite_some h
  exact ⟨h1, h2, rfl⟩

theorem recordSessionWaitingMessage_some {slot messageId : MessageId}
    (h : row.recordSessionWaitingMessage facts slot messageId = some row') :
    row.waitingAfterMessage = some slot ∧ row.waitingMessageId = none ∧ facts.status = .active ∧
      row' = { row with waitingMessageId := some messageId } := by
  unfold recordSessionWaitingMessage at h
  obtain ⟨⟨h1, h2, h3⟩, rfl⟩ := of_ite_some h
  exact ⟨h1, h2, h3, rfl⟩

theorem releaseSessionWaiting_some {slot : MessageId} (h : row.releaseSessionWaiting slot = some row') :
    row.waitingAfterMessage = some slot ∧ row.waitingMessageId = none ∧
      row' = { row with waitingAfterMessage := none } := by
  unfold releaseSessionWaiting at h
  obtain ⟨⟨h1, h2⟩, rfl⟩ := of_ite_some h
  exact ⟨h1, h2, rfl⟩

theorem clearSessionWaitingMessage_some {messageId : MessageId}
    (h : row.clearSessionWaitingMessage messageId = some row') :
    row.waitingMessageId = some messageId ∧
      row' = { row with waitingMessageId := none, waitingAfterMessage := none } := by
  unfold clearSessionWaitingMessage at h
  obtain ⟨h1, rfl⟩ := of_ite_some h
  exact ⟨h1, rfl⟩

theorem recordSessionStatusMessage_some {owned : Bool} {messageId : MessageId}
    (h : row.recordSessionStatusMessage owned messageId = some row') :
    row' = { row with statusMessageId := some messageId } := by
  unfold recordSessionStatusMessage at h
  exact (of_ite_some h).2

theorem forgetSessionStatusMessage_some {owned : Bool} {messageId : MessageId}
    (h : row.forgetSessionStatusMessage owned messageId = some row') :
    row' = { row with statusMessageId := none } := by
  unfold forgetSessionStatusMessage at h
  exact (of_ite_some h).2

end Specs

end SessionNotices

end Binarius
