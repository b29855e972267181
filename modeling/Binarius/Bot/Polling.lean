import Mathlib.Tactic
import Binarius.Lib.OrderedMap

/-!
# Bot.Polling — the client bot's long polling (apps/bot/src/polling.ts)

* `Work`: the updates in work: `inflight`, the tail of every key's chain, the count of the keyless ones.
  `dispatch` takes an update in, `finish` ends a handler and starts the update behind it.
* `Telegram`: what it holds of the updates, and what a `getUpdates` drops.
* `Polling.act`: **one event**: an update arriving, a request served, answered or failing, a handler
  ending, the start's steps and the stop.

A resolved call and the loop's code up to its next await are one event, as the runtime runs them.  The
wake-up is an event of its own: other handlers may end between the wake and the loop going on.
-/

namespace Binarius

open Lib

/-- What a user's updates are ordered by. -/
inductive UpdateKey
  | sender (id : ℤ)
  | chat (id : ℤ)
  deriving DecidableEq, Repr

/-- An update: its id, and of every object among its fields the ids of its `from` and `chat`. -/
structure Update where
  id : ℕ
  payload : List (Option ℤ × Option ℤ)
  deriving DecidableEq, Repr

/-- The first object field decides. -/
def updateKey (update : Update) : Option UpdateKey :=
  match update.payload with
  | [] => none
  | (some sender, _) :: _ => some (.sender sender)
  | (none, some chat) :: _ => some (.chat chat)
  | (none, none) :: _ => none

/-- A dispatched update: the task it waits for, if any, and whether its handler was called. -/
structure Task where
  update : Update
  after : Option ℕ
  started : Bool
  deriving DecidableEq, Repr

def Task.id (task : Task) : ℕ := task.update.id

structure Work where
  inflight : List Task
  /-- the tail of every key's chain -/
  chains : OrderedMap UpdateKey ℕ
  unkeyed : ℕ
  /-- the updates `handleUpdate` was called with, and those whose handler ended, in order -/
  handed : List Update
  ended : List Update

namespace Work

def start : Work := ⟨[], OrderedMap.empty, 0, [], []⟩

/-- One per key with a chain plus every keyless update in work. -/
def heads (w : Work) : ℕ := w.chains.entries.length + w.unkeyed

def waiting (w : Work) : ℤ := (w.inflight.length : ℤ) - w.heads

def dispatch (w : Work) (update : Update) : Work :=
  match updateKey update with
  | none =>
    { w with inflight := w.inflight ++ [⟨update, none, true⟩], unkeyed := w.unkeyed + 1,
             handed := w.handed ++ [update] }
  | some key =>
    match w.chains.get? key with
    | none =>
      { w with inflight := w.inflight ++ [⟨update, none, true⟩], chains := w.chains.set key update.id,
               handed := w.handed ++ [update] }
    | some tail =>
      { w with inflight := w.inflight ++ [⟨update, some tail, false⟩],
               chains := w.chains.set key update.id }

/-- The tasks that wait for `id`. -/
def behind (w : Work) (id : ℕ) : List Task :=
  w.inflight.filter (fun x => x.after = some id ∧ x.started = false)

/-- A task starts once the one it waits for has ended. -/
def startAfter (id : ℕ) (task : Task) : Task :=
  if task.after = some id then { task with started := true } else task

/-- A handler ends or throws: its task leaves, its key's chain ends with it, the next one starts. -/
def finish (w : Work) (task : Task) : Work :=
  { inflight := (w.inflight.filter (fun x => x.id ≠ task.id)).map (startAfter task.id)
    chains :=
      match updateKey task.update with
      | none => w.chains
      | some key => if w.chains.get? key = some task.id then w.chains.erase key else w.chains
    unkeyed := if updateKey task.update = none then w.unkeyed - 1 else w.unkeyed
    handed := w.handed ++ (w.behind task.id).map (·.update)
    ended := w.ended ++ [task.update] }

end Work

/-- Telegram's side: the updates it still holds and those it has dropped, each as they arrived. -/
structure Telegram where
  pending : List Update
  dropped : List Update

namespace Telegram

/-- Every update that has arrived. -/
def arrived (t : Telegram) : List Update := t.dropped ++ t.pending

/-- A `getUpdates` drops what is below its offset. -/
def drop (t : Telegram) (offset : ℕ) : Telegram where
  pending := t.pending.filter (fun u => offset ≤ u.id)
  dropped := t.dropped ++ t.pending.filter (fun u => u.id < offset)

/-- The updates pending at that moment from `offset` on, at most `limit`. -/
def answer (t : Telegram) (offset limit : ℕ) : List Update :=
  (t.pending.filter (fun u => offset ≤ u.id)).take limit

end Telegram

inductive Phase
  | idle
  /-- `init`, `deleteWebhook` and `onStart` -/
  | starting
  /-- a `getUpdates` in work, and what Telegram answered it -/
  | polling (limit : ℕ) (answer : Option (List Update))
  /-- the sleep before the call is made again -/
  | retrying (limit : ℕ)
  | paused
  | woken
  | draining (failed : Bool)
  | settled (failed : Bool)
  deriving DecidableEq, Repr

/-- The `getUpdates` of `stop`, at the offset it was sent with. -/
inductive StopCall
  | none
  | sent (offset : ℕ)
  | succeeded
  | failed
  deriving DecidableEq, Repr

structure Polling where
  running : Bool
  offset : ℕ
  work : Work
  phase : Phase
  /-- the updates of the answers the loop received, in order -/
  received : List Update
  /-- the offsets of every request sent, which Telegram may serve at any time -/
  requests : List ℕ
  stopCall : StopCall
  telegram : Telegram

namespace Polling

def start : Polling := ⟨false, 0, Work.start, .idle, [], [], .none, ⟨[], []⟩⟩

section Loop

variable (concurrency waitingMax : ℕ)

def free (s : Polling) : ℤ :=
  min ((concurrency : ℤ) - s.work.heads) ((waitingMax : ℤ) - s.work.waiting)

/-- A request for at most `limit` updates. -/
def request (s : Polling) (limit : ℕ) : Polling :=
  { s with phase := .polling limit none, requests := s.offset :: s.requests }

/-- The top of the loop: poll for the free room, or pause until a handler ends. -/
def loopTop (s : Polling) : Polling :=
  if s.running then
    if s.free concurrency waitingMax ≤ 0 then { s with phase := .paused }
    else s.request (s.free concurrency waitingMax).toNat
  else { s with phase := .draining false }

/-- The updates of an answer, dispatched one after another. -/
def receive (s : Polling) (updates : List Update) : Polling :=
  updates.foldl
    (fun s update => { s with offset := update.id + 1, work := s.work.dispatch update,
                              received := s.received ++ [update] }) s

inductive Act
  | arrive (update : Update)
  | start
  /-- the start's calls are done, or one of them failed for good -/
  | ready
  | startFailed
  /-- Telegram serves the request in work; serves an earlier one late -/
  | serve
  | serveLate (offset : ℕ)
  /-- the answer; a failure of transport or a 429; a 401 or a 409 -/
  | answered
  | callFailed
  | refused
  | slept
  | goOn
  | handlerEnded (task : Task)
  | stop
  | stopAnswered (ok : Bool)
  | settle
  deriving DecidableEq, Repr

/-- One event; what is not enabled changes nothing. -/
def act (s : Polling) : Act → Polling
  | .arrive update =>
    -- Telegram's ids grow
    if ∀ u ∈ s.telegram.arrived, u.id < update.id then
      { s with telegram := { s.telegram with pending := s.telegram.pending ++ [update] } }
    else s
  | .start =>
    if s.phase = .idle then { s with running := true, phase := .starting } else s
  | .ready => if s.phase = .starting then loopTop concurrency waitingMax s else s
  | .startFailed =>
    if s.phase = .starting then { s with running := false, phase := .settled s.running } else s
  | .serve =>
    match s.phase with
    | .polling limit none =>
      { s with phase := .polling limit (some (s.telegram.answer s.offset limit)),
               telegram := s.telegram.drop s.offset }
    | _ => s
  | .serveLate offset =>
    if offset ∈ s.requests then { s with telegram := s.telegram.drop offset } else s
  | .answered =>
    match s.phase with
    | .polling _ (some updates) => loopTop concurrency waitingMax (s.receive updates)
    | _ => s
  | .callFailed =>
    match s.phase with
    | .polling limit _ => { s with phase := .retrying limit }
    | _ => s
  | .refused =>
    match s.phase with
    | .polling _ _ => { s with running := false, phase := .draining true }
    | _ => s
  | .slept =>
    match s.phase with
    | .retrying limit => s.request limit
    | _ => s
  | .goOn => if s.phase = .woken then loopTop concurrency waitingMax s else s
  | .handlerEnded task =>
    if task ∈ s.work.inflight ∧ task.started = true then
      { s with work := s.work.finish task,
               phase := if s.phase = .paused then .woken else s.phase }
    else s
  | .stop =>
    if s.running then
      -- the abort ends the call and the sleep, the wake-up the pause
      { s with running := false, stopCall := .sent s.offset, requests := s.offset :: s.requests,
               phase :=
                 match s.phase with
                 | .polling _ _ | .retrying _ => .draining false
                 | .paused => .woken
                 | phase => phase }
    else s
  | .stopAnswered ok =>
    match s.stopCall with
    | .sent offset =>
      if ok then { s with stopCall := .succeeded, telegram := s.telegram.drop offset }
      else { s with stopCall := .failed }
    | _ => s
  | .settle =>
    match s.phase with
    | .draining failed =>
      if s.work.inflight = [] then { s with phase := .settled failed } else s
    | _ => s

end Loop

end Polling

end Binarius
