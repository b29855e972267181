import Mathlib.Tactic
import Binarius.Lib.OrderedMap

/-!
# Bot.EditPacer — the pace of the wait's edits (apps/bot/src/edit-pacer.ts)

Moments and tokens are rationals.  A `take` is told by its number; its `wanted` predicate is asked anew in
every round of the pump, so a pump is given its answers by round and waiter.

* `EditPacer.pump`: the pump: dropped waiters, the tokens, the first waiter whose chat is free, the timer.
* `PacerEntry`: the takes, the pauses and the answers, in order; an answer keeps what `wanted` said in its
  round.
* `PacerRun.act`: **one call or one firing of the timer**.
-/

namespace Binarius

open Lib

inductive EditPriority
  | signal
  | housekeeping
  deriving DecidableEq, Repr

structure EditPacerOptions where
  editsPerSecond : ℚ
  burst : ℚ
  chatGapMs : ℚ
  editsPerSecond_pos : 0 < editsPerSecond
  burst_nonneg : 0 ≤ burst

/-- A waiter: the number of its `take`, and its chat. -/
structure EditWaiter where
  id : ℕ
  chatId : ℤ
  deriving DecidableEq, Repr

/-- What happens to the pacer. -/
inductive PacerEntry
  | take (waiter : EditWaiter) (priority : EditPriority)
  | pause (untilMs : ℚ)
  | slot (waiter : EditWaiter) (moment : ℚ) (wanted : ℕ → Bool)
  | dropped (waiter : EditWaiter) (wanted : ℕ → Bool)
  | closed (waiter : EditWaiter)

structure EditPacer where
  signal : List EditWaiter
  housekeeping : List EditWaiter
  lastEditAt : OrderedMap ℤ ℚ
  tokens : ℚ
  refilledAt : ℚ
  paused : ℚ
  closed : Bool
  /-- the moment an armed timer is due -/
  timer : Option ℚ
  /-- the number of takes, and what happened so far -/
  taken : ℕ
  log : List PacerEntry

def createEditPacer (o : EditPacerOptions) (now : ℚ) : EditPacer where
  signal := []
  housekeeping := []
  lastEditAt := .empty
  tokens := o.burst
  refilledAt := now
  paused := 0
  closed := false
  timer := none
  taken := 0
  log := []

namespace EditPacer

variable (o : EditPacerOptions) (p : EditPacer)

/-- `[...queues.signal, ...queues.housekeeping]`. -/
def waiting : List EditWaiter := p.signal ++ p.housekeeping

def refill (now : ℚ) : EditPacer :=
  { p with
    tokens := min o.burst (p.tokens + (now - p.refilledAt) * o.editsPerSecond / 1000)
    refilledAt := now }

/-- A timer is due after a whole number of milliseconds. -/
def arm (now ms : ℚ) : EditPacer := { p with timer := some (now + (max 0 ⌈ms⌉ : ℤ)) }

/-- A chat without an edit is free from the beginning of time. -/
def chatFreeAt (chatId : ℤ) : WithBot ℚ :=
  match p.lastEditAt.get? chatId with
  | none => ⊥
  | some editedAt => (editedAt + o.chatGapMs : ℚ)

/-- The edits whose gap is over are forgotten. -/
def prune (now : ℚ) : EditPacer :=
  { p with lastEditAt := p.lastEditAt.filter (fun e => !decide (o.chatGapMs ≤ now - e.2)) }

/-- The first moment one of the waiters' chats is free. -/
def earliestFree : List EditWaiter → WithBot ℚ
  | [] => ⊥
  | [waiter] => p.chatFreeAt o waiter.chatId
  | waiter :: waiters => min (p.chatFreeAt o waiter.chatId) (earliestFree waiters)

/-- Waiters no longer wanted are answered and leave the queues. -/
def dropUnwanted (wanted : ℕ → Bool) : EditPacer :=
  { p with
    signal := p.signal.filter (fun waiter => wanted waiter.id)
    housekeeping := p.housekeeping.filter (fun waiter => wanted waiter.id)
    log := p.log ++ (p.waiting.filter (fun waiter => !wanted waiter.id)).map (fun waiter =>
      .dropped waiter wanted) }

/-- A waiter gets its slot. -/
def serve (now : ℚ) (wanted : ℕ → Bool) (next : EditWaiter) : EditPacer :=
  { p with
    signal := if next ∈ p.signal then p.signal.erase next else p.signal
    housekeeping := if next ∈ p.signal then p.housekeeping else p.housekeeping.erase next
    tokens := p.tokens - 1
    lastEditAt := p.lastEditAt.set next.chatId now
    log := p.log ++ [.slot next now wanted] }

/-- The loop of the pump: a round answers a waiter or ends it. -/
def rounds (now : ℚ) (wanted : ℕ → ℕ → Bool) : ℕ → EditPacer → EditPacer
  | 0, p => p
  | n + 1, p =>
    let p := p.dropUnwanted (wanted n)
    if p.waiting = [] then p
    else if p.tokens < 1 then p.arm now ((1 - p.tokens) * 1000 / o.editsPerSecond)
    else match p.waiting.find? (fun waiter => decide (p.chatFreeAt o waiter.chatId ≤ (now : WithBot ℚ))) with
      | none => p.arm now ((p.earliestFree o p.waiting).unbotD now - now)
      | some next => rounds now wanted n (p.serve now (wanted n) next)

def pump (now : ℚ) (wanted : ℕ → ℕ → Bool) : EditPacer :=
  if p.closed then p
  else
    let p := { p with timer := none }
    if now < p.paused then
      ({ p with refilledAt := max p.refilledAt now }).arm now (p.paused - now)
    else rounds o now wanted (p.waiting.length + 1) ((p.refill o now).prune o now)

def take (chatId : ℤ) (priority : EditPriority) (now : ℚ) (wanted : ℕ → ℕ → Bool) : EditPacer :=
  let waiter : EditWaiter := ⟨p.taken, chatId⟩
  let p := { p with taken := p.taken + 1, log := p.log ++ [PacerEntry.take waiter priority] }
  if p.closed then { p with log := p.log ++ [PacerEntry.closed waiter] }
  else
    let p := match priority with
      | .signal => { p with signal := p.signal ++ [waiter] }
      | .housekeeping => { p with housekeeping := p.housekeeping ++ [waiter] }
    p.pump o now wanted

def pause (untilMs now : ℚ) (wanted : ℕ → ℕ → Bool) : EditPacer :=
  let p := { p with log := p.log ++ [PacerEntry.pause untilMs] }
  if untilMs ≤ p.paused then p else ({ p with paused := untilMs }).pump o now wanted

/-- The timer's callback. -/
def fire (now : ℚ) (wanted : ℕ → ℕ → Bool) : EditPacer :=
  match p.timer with
  | none => p
  | some _ => ({ p with timer := none }).pump o now wanted

def close : EditPacer :=
  if p.closed then p
  else { p with
    closed := true
    timer := none
    log := p.log ++ p.waiting.map .closed
    signal := []
    housekeeping := [] }

end EditPacer

/-! ## Runs -/

/-- A call of the pacer or a firing of its timer, with the clock's reading and what `wanted` says. -/
inductive PacerCall
  | take (chatId : ℤ) (priority : EditPriority) (now : ℚ) (wanted : ℕ → ℕ → Bool)
  | pause (untilMs now : ℚ) (wanted : ℕ → ℕ → Bool)
  | fire (now : ℚ) (wanted : ℕ → ℕ → Bool)
  | close

/-- The pacer and the last reading of the clock. -/
structure PacerRun where
  pacer : EditPacer
  clock : ℚ

namespace PacerRun

def start (o : EditPacerOptions) (now : ℚ) : PacerRun where
  pacer := createEditPacer o now
  clock := now

def act (o : EditPacerOptions) (w : PacerRun) : PacerCall → PacerRun
  | .take chatId priority now wanted => { pacer := w.pacer.take o chatId priority now wanted, clock := now }
  | .pause untilMs now wanted => { pacer := w.pacer.pause o untilMs now wanted, clock := now }
  | .fire now wanted => { pacer := w.pacer.fire o now wanted, clock := now }
  | .close => { w with pacer := w.pacer.close }

/-- The clock does not go back. -/
def Ok (w : PacerRun) : PacerCall → Prop
  | .take _ _ now _ => w.clock ≤ now
  | .pause _ now _ => w.clock ≤ now
  | .fire now _ => w.clock ≤ now
  | .close => True

end PacerRun

end Binarius
