import Mathlib.Tactic
import Binarius.Db.SessionNoticeOps
import Binarius.Backend.SessionNotices

/-!
# Backend.WaitingMessage — one notice sender's turns over a session and its waiting message
(apps/backend/src/trading/session-notices.ts: `serve` and what it calls; session-routes.ts: the stop)

The sender is a machine of phases: each step is one statement, or the answer to one Telegram call, so
everything else comes in between.  A turn may end anywhere (a hold-back, a statement that threw, the
sender's stop, a crash).  `fate` is a ghost: how each recorded waiting message left the row.

* `WaitingWorld.senderStep`: the next step of the turn.
* `WaitingWorld.act`: the sender's step, the lists, the stop route, the bot's status message, the trades.
-/

namespace Binarius

def sessionNoticeMaxAttempts : ℕ := 3

/-- How a recorded waiting message left the row; `live` while the row names it. -/
inductive WaitingFate
  | live
  | deleted
  | gone
  /-- past 48 hours, or refused -/
  | undeletable
  /-- to the stop route, which draws its reply in place of it -/
  | handedOver
  /-- of a stopped session whose user is unreachable: no call -/
  | dropped
  /-- the outcome of every attempt unknown -/
  | givenUp
  deriving DecidableEq, Repr

/-- What Telegram answered, as the sender tells the answers apart. -/
inductive TelegramAnswer
  | ok (messageId : MessageId)
  /-- an edit to the same text -/
  | shown
  | gone
  /-- a delete past 48 hours -/
  | undeletable
  /-- 403: the user is unreachable -/
  | forbidden
  /-- 429 -/
  | wait
  | refused
  | unknown
  deriving DecidableEq, Repr

/-- The sends whose attempts are counted. -/
inductive AttemptKey
  | notice (target : NoticeTarget)
  | waiting (slot : MessageId)
  | delete (messageId : MessageId)
  deriving DecidableEq, Repr

/-- The statements of `serve`, in its order. -/
inductive TurnStage
  | trades
  | stale
  | openBlock
  | last
  deriving DecidableEq, Repr

/-- A session as the tick's list read it, and as the turn has written it since (`PendingSessionNotice`). -/
structure NoticeTurn where
  status : TradingSessionStatus
  stopReason : Option TradingSessionStopReason
  telegramBlocked : Bool
  /-- the loop's trade, from `notifiedTrades` on -/
  claimed : ℕ
  settled : ℕ
  finished : Bool
  openIntentId : Option IntentId
  openNoticeIntentId : Option IntentId
  waitingMessageId : Option MessageId
  waitingDue : Bool
  waitingStale : Bool
  waitingForSignal : Bool
  stage : TurnStage
  deriving DecidableEq, Repr

def NoticeTurn.waitingMayGo (t : NoticeTurn) : Bool := t.status = .active && !t.telegramBlocked

/-- The turn after a claim's step ended with `next`. -/
def NoticeTurn.next (t : NoticeTurn) : NoticeTarget → NoticeTurn
  | .trade claimed _ => { t with claimed := claimed + 1 }
  | .openBlock id _ => { t with openNoticeIntentId := some id, stage := .last }

/-- Who waits for a delete of the waiting message. -/
inductive RemovalFor
  | newMessage (target : NoticeTarget)
  | stale
  | caption
  deriving DecidableEq, Repr

inductive Removal
  | cleared
  | kept
  | blocked
  | wait
  deriving DecidableEq, Repr

inductive SenderPhase
  | idle
  | serving (t : NoticeTurn)
  /-- claimed: the message is to be built -/
  | deliver (t : NoticeTurn) (target : NoticeTarget)
  /-- `editSessionTrade` is in flight -/
  | edit (t : NoticeTurn) (target : NoticeTarget)
  | remove (t : NoticeTurn) (messageId : MessageId) (why : RemovalFor)
  /-- the re-read found the row naming the message; the delete has not begun -/
  | named (t : NoticeTurn) (messageId : MessageId) (why : RemovalFor)
  /-- `deleteSessionWaiting` is in flight -/
  | deleting (t : NoticeTurn) (messageId : MessageId) (why : RemovalFor)
  | clear (t : NoticeTurn) (messageId : MessageId) (why : RemovalFor) (fate : WaitingFate)
  /-- `sendSessionTrade` is in flight -/
  | send (t : NoticeTurn) (target : NoticeTarget)
  | record (t : NoticeTurn) (target : NoticeTarget) (messageId : MessageId)
  | release (target : NoticeTarget)
  /-- `sendSessionWaiting` is in flight -/
  | sendWaiting (slot : MessageId)
  | recordWaiting (slot messageId : MessageId)
  | releaseWaiting (slot : MessageId)
  /-- the delete of a message the record refused -/
  | unrecorded (messageId : MessageId)
  | captionListed (messageId : MessageId)
  /-- `editSessionWaitingCaption` is in flight -/
  | captionEdit (messageId : MessageId)
  deriving DecidableEq, Repr

/-- What a step reads beside the row: the clock, the built message, Telegram's answer. -/
structure SenderInput where
  now : DbTime
  graceMs : ℕ
  /-- the notice is an edit of the cycle message -/
  edits : Bool
  fromTrade : ℕ
  answer : TelegramAnswer
  deriving DecidableEq, Repr

structure WaitingWorld where
  row : SessionNotices
  facts : SessionFacts
  /-- `users.telegram_blocked_at` is set -/
  telegramBlocked : Bool
  phase : SenderPhase
  attempts : AttemptKey → ℕ
  fate : MessageId → Option WaitingFate

inductive WaitingAct
  | sender (i : SenderInput)
  /-- the tick's list, and the caption pass's -/
  | list
  | listCaptions
  /-- the turn ends here; a restart forgets the attempts -/
  | leave (restart : Bool)
  /-- a stop of the session; with the pressed waiting message's id, the hand-over -/
  | stop (reason : TradingSessionStopReason) (waitingMessageId : Option MessageId)
  /-- the stop route's clear, after its stop found the session stopped -/
  | clearStopped (waitingMessageId : MessageId)
  | recordStatus (owned : Bool) (messageId : MessageId)
  | forgetStatus (owned : Bool) (messageId : MessageId)
  /-- the session's trades and decisions moved -/
  | trades (settled : List IntentId) (openTrade : Option IntentId) (finished waitingForSignal : Bool)
  /-- the user blocked the bot, or came back -/
  | blocked (value : Bool)
  deriving DecidableEq, Repr

namespace WaitingWorld

def start (startedAt : DbTime) : WaitingWorld where
  row := .created startedAt
  facts := { status := .active, settled := [], openTrade := none, finished := false, waitingForSignal := false }
  telegramBlocked := false
  phase := .idle
  attempts := fun _ => 0
  fate := fun _ => none

variable (w : WaitingWorld)

def goto (phase : SenderPhase) : WaitingWorld := { w with phase := phase }

/-- A statement that writes nothing leaves the row. -/
def write (row : Option SessionNotices) : WaitingWorld := { w with row := row.getD w.row }

def forget (key : AttemptKey) : WaitingWorld := { w with attempts := Function.update w.attempts key 0 }

/-- A refusal counted: below the limit it may be tried again. -/
def mayRetry (key : AttemptKey) (again dropped : SenderPhase) : WaitingWorld :=
  if w.attempts key + 1 ≥ sessionNoticeMaxAttempts then (w.forget key).goto dropped
  else { w with attempts := Function.update w.attempts key (w.attempts key + 1), phase := again }

/-- How a failed send ends. -/
def sendFailed (key : AttemptKey) (release afterForbidden next : SenderPhase) :
    TelegramAnswer → WaitingWorld
  | .forbidden => { w with telegramBlocked := true, phase := afterForbidden }
  | .wait => w.goto release
  | .refused => w.mayRetry key release next
  | _ => w.goto next

/-! ## The waiting message's delete -/

/-- What the caller does with a removal. -/
def removed (t : NoticeTurn) (removal : Removal) : RemovalFor → WaitingWorld
  | .newMessage target =>
    match removal with
    | .blocked => w.goto (.serving (t.next target))
    | .cleared => w.goto (if t.telegramBlocked then .serving (t.next target) else .send t target)
    | .kept | .wait => w.goto (.release target)
  | .stale =>
    match removal with
    | .blocked | .cleared => w.goto (.serving { t with stage := .openBlock })
    | .kept | .wait => w.goto .idle
  | .caption => w.goto .idle

def unreachable (t : NoticeTurn) (messageId : MessageId) (why : RemovalFor) : WaitingWorld :=
  if t.status = .stopped then w.goto (.clear t messageId why .dropped) else w.removed t .blocked why

/-- `removeWaiting` up to its re-read of the row. -/
def removeWaiting (t : NoticeTurn) (messageId : MessageId) (why : RemovalFor) : WaitingWorld :=
  if t.telegramBlocked then w.unreachable t messageId why
  else if w.row.waitingMessageId = some messageId then w.goto (.named t messageId why)
  else (w.forget (.delete messageId)).removed { t with waitingMessageId := none, status := w.facts.status }
    .cleared why

def deleteAnswered (t : NoticeTurn) (messageId : MessageId) (why : RemovalFor) : TelegramAnswer → WaitingWorld
  | .ok _ => w.goto (.clear t messageId why .deleted)
  | .gone => w.goto (.clear t messageId why .gone)
  | .undeletable | .refused => w.goto (.clear t messageId why .undeletable)
  | .forbidden =>
    ({ w with telegramBlocked := true } : WaitingWorld).unreachable { t with telegramBlocked := true } messageId why
  | .wait => w.removed t .wait why
  | .shown | .unknown =>
    if w.attempts (.delete messageId) + 1 ≥ sessionNoticeMaxAttempts then
      (w.forget (.delete messageId)).goto (.clear t messageId why .givenUp)
    else
      ({ w with attempts := Function.update w.attempts (.delete messageId) (w.attempts (.delete messageId) + 1) }
        : WaitingWorld).removed t .kept why

/-- The clear's statement: what left the row has its fate. -/
def clearRow (messageId : MessageId) (fate : WaitingFate) : WaitingWorld :=
  match w.row.clearSessionWaitingMessage messageId with
  | some row => { w with row := row, fate := Function.update w.fate messageId (some fate) }
  | none => w

def clear (t : NoticeTurn) (messageId : MessageId) (why : RemovalFor) (fate : WaitingFate) : WaitingWorld :=
  ((w.clearRow messageId fate).forget (.delete messageId)).removed
    { t with waitingMessageId := none, waitingDue := t.waitingForSignal } .cleared why

/-! ## The steps of `serve` -/

/-- After a claim: nothing can be delivered to a blocked user, and the claim counts as sent. -/
def claimed (t : NoticeTurn) (target : NoticeTarget) : WaitingWorld :=
  w.goto (if t.telegramBlocked then .serving (t.next target) else .deliver t target)

def sendTrade (t : NoticeTurn) (i : SenderInput) : WaitingWorld :=
  match w.row.claimSessionTradeNotice w.facts i.now t.claimed i.graceMs, w.facts.settled[t.claimed]? with
  | some row, some id => (w.write (some row)).claimed t (.trade t.claimed id)
  | _, _ => w.goto .idle

def sendOpen (t : NoticeTurn) (id : IntentId) (i : SenderInput) : WaitingWorld :=
  match w.row.claimSessionOpenNotice w.facts i.now id t.settled i.graceMs with
  | some row => (w.write (some row)).claimed t (.openBlock id t.settled)
  | none => w.goto .idle

/-- A new message: the waiting message is deleted first. -/
def sendNew (t : NoticeTurn) (target : NoticeTarget) : WaitingWorld :=
  match t.waitingMessageId with
  | some id => w.goto (.remove t id (.newMessage target))
  | none => w.goto (.send t target)

def deliver (t : NoticeTurn) (target : NoticeTarget) (edits : Bool) : WaitingWorld :=
  if edits = true ∧ w.row.cycleMessageId.isSome = true then w.goto (.edit t target) else w.sendNew t target

/-- A failed notice: put back, or counting as sent. -/
def noticeFailed (t : NoticeTurn) (target : NoticeTarget) (answer : TelegramAnswer) : WaitingWorld :=
  w.sendFailed (.notice target) (.release target) (.serving (({ t with telegramBlocked := true } : NoticeTurn).next target))
    (.serving (t.next target)) answer

def edited (t : NoticeTurn) (target : NoticeTarget) : TelegramAnswer → WaitingWorld
  | .ok _ | .shown => (w.forget (.notice target)).goto (.serving (t.next target))
  | .gone => w.sendNew t target
  | answer => w.noticeFailed t target answer

def sent (t : NoticeTurn) (target : NoticeTarget) : TelegramAnswer → WaitingWorld
  | .ok messageId =>
    (w.forget (.notice target)).goto
      (if messageId = 0 then .serving (t.next target) else .record t target messageId)
  | answer => w.noticeFailed t target answer

/-- The new cycle message recorded: the waiting message is due under it. -/
def recordCycle (t : NoticeTurn) (target : NoticeTarget) (messageId : MessageId) (fromTrade : ℕ) : WaitingWorld :=
  match NoticeWorld.recordRow w.row messageId fromTrade target with
  | some row =>
    (w.write (some row)).goto (.serving
      (({ t with waitingDue := if t.waitingMessageId = none then t.waitingForSignal else t.waitingDue }
        : NoticeTurn).next target))
  | none => w.goto (.serving (t.next target))

def closeNotices (t : NoticeTurn) (i : SenderInput) : WaitingWorld :=
  let closeSummary := t.telegramBlocked || (t.settled = 0 && t.stopReason ≠ some .noSignalTimeout)
  (w.write (w.row.claimSessionFinalNotice w.facts i.now closeSummary)).goto .idle

def sendWaiting : WaitingWorld :=
  match w.row.claimSessionWaiting w.facts with
  | some row => (w.write (some row)).goto (.sendWaiting w.row.slot)
  | none => w.goto .idle

def waitingSent (slot : MessageId) : TelegramAnswer → WaitingWorld
  | .ok messageId =>
    (w.forget (.waiting slot)).goto (if messageId = 0 then .idle else .recordWaiting slot messageId)
  | answer => w.sendFailed (.waiting slot) (.releaseWaiting slot) (.releaseWaiting slot) .idle answer

def recordWaiting (slot messageId : MessageId) : WaitingWorld :=
  match w.row.recordSessionWaitingMessage w.facts slot messageId with
  | some row =>
    { w with row := row, phase := .idle, fate := Function.update w.fate messageId (some .live) }
  | none => w.goto (.unrecorded messageId)

def serve (t : NoticeTurn) (i : SenderInput) : WaitingWorld :=
  match t.stage with
  | .trades =>
    if t.claimed < t.settled then w.sendTrade t i else w.goto (.serving { t with stage := .stale })
  | .stale =>
    match t.waitingStale, t.waitingMessageId with
    | true, some id => w.goto (.remove t id .stale)
    | _, _ => w.goto (.serving { t with stage := .openBlock })
  | .openBlock =>
    match t.openIntentId with
    | some id =>
      if t.openNoticeIntentId = some id then w.goto (.serving { t with stage := .last }) else w.sendOpen t id i
    | none => w.goto (.serving { t with stage := .last })
  | .last =>
    if t.finished then w.closeNotices t i
    else if t.waitingDue ∧ t.waitingMayGo then w.sendWaiting else w.goto .idle

/-! ## The caption pass -/

/-- The session of a caption's removal. -/
def captionTurn (messageId : MessageId) : NoticeTurn where
  status := .active
  stopReason := none
  telegramBlocked := false
  claimed := 0
  settled := 0
  finished := false
  openIntentId := none
  openNoticeIntentId := none
  waitingMessageId := some messageId
  waitingDue := false
  waitingStale := false
  waitingForSignal := true
  stage := .last

def captionEdited (messageId : MessageId) : TelegramAnswer → WaitingWorld
  | .gone => w.goto (.remove (captionTurn messageId) messageId .caption)
  | .forbidden => { w with telegramBlocked := true, phase := .idle }
  | _ => w.goto .idle

/-! ## The sender and the others -/

def senderStep (i : SenderInput) : WaitingWorld :=
  match w.phase with
  | .idle => w
  | .serving t => w.serve t i
  | .deliver t target => w.deliver t target i.edits
  | .edit t target => w.edited t target i.answer
  | .remove t messageId why => w.removeWaiting t messageId why
  | .named t messageId why => w.goto (.deleting t messageId why)
  | .deleting t messageId why => w.deleteAnswered t messageId why i.answer
  | .clear t messageId why fate => w.clear t messageId why fate
  | .send t target => w.sent t target i.answer
  | .record t target messageId => w.recordCycle t target messageId i.fromTrade
  | .release target => (w.write (NoticeWorld.releaseRow w.row target)).goto .idle
  | .sendWaiting slot => w.waitingSent slot i.answer
  | .recordWaiting slot messageId => w.recordWaiting slot messageId
  | .releaseWaiting slot => (w.write (w.row.releaseSessionWaiting slot)).goto .idle
  | .unrecorded _ => w.goto .idle
  | .captionListed messageId =>
    w.goto (if w.row.waitingMessageId = some messageId then .captionEdit messageId else .idle)
  | .captionEdit messageId => w.captionEdited messageId i.answer

/-- The live waiting message is to be deleted (`waitingStaleSql`). -/
def waitingStale : Bool :=
  w.row.waitingMessageId.isSome && (w.facts.status = .stopped ||
    ((w.row.waitingAfterMessage ≠ some w.row.slot || !w.facts.waitingForSignal) && !w.telegramBlocked))

/-- The session as `listPendingSessionNotices` reads it. -/
def listed : NoticeTurn where
  status := w.facts.status
  stopReason := w.row.stopReason
  telegramBlocked := w.telegramBlocked
  claimed := w.row.notifiedTrades
  settled := w.facts.settled.length
  finished := w.facts.finished
  openIntentId := w.facts.openTrade
  openNoticeIntentId := w.row.openNoticeIntentId
  waitingMessageId := w.row.waitingMessageId
  waitingDue := w.row.waitingClaimable w.facts && !w.telegramBlocked
  waitingStale := w.waitingStale
  waitingForSignal := w.facts.waitingForSignal
  stage := .trades

/-- The waiting message `listSessionWaitingCaptions` lists. -/
def captionListed : Option MessageId :=
  if w.row.finalNoticeSentAt = none ∧ w.facts.status = .active ∧ w.telegramBlocked = false ∧
      w.row.waitingAfterMessage = some w.row.slot ∧ w.facts.waitingForSignal = true
  then w.row.waitingMessageId else none

/-- The stop's hand-over of the message its body names. -/
def handOver : Option MessageId → MessageId → Option WaitingFate
  | some m => if w.row.waitingMessageId = some m then Function.update w.fate m (some .handedOver) else w.fate
  | none => w.fate

def act : WaitingAct → WaitingWorld
  | .sender i => w.senderStep i
  | .list => if w.phase = .idle ∧ w.row.finalNoticeSentAt = none then w.goto (.serving w.listed) else w
  | .listCaptions =>
    match w.captionListed with
    | some messageId => if w.phase = .idle then w.goto (.captionListed messageId) else w
    | none => w
  | .leave restart => { w with phase := .idle, attempts := if restart then fun _ => 0 else w.attempts }
  | .stop reason waitingMessageId =>
    if w.facts.status = .active then
      { w with
        row := w.row.stopped reason waitingMessageId
        facts := { w.facts with status := .stopped }
        fate := w.handOver waitingMessageId }
    else w
  | .clearStopped messageId =>
    if w.facts.status = .stopped then w.clearRow messageId .handedOver else w
  | .recordStatus owned messageId => w.write (w.row.recordSessionStatusMessage owned messageId)
  | .forgetStatus owned messageId => w.write (w.row.forgetSessionStatusMessage owned messageId)
  | .trades settled openTrade finished waitingForSignal =>
    { w with facts := { w.facts with
      settled := settled
      openTrade := openTrade
      finished := finished
      waitingForSignal := waitingForSignal } }
  | .blocked value => { w with telegramBlocked := value }

end WaitingWorld

end Binarius
