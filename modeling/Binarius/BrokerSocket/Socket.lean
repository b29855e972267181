import Mathlib.Tactic
import Binarius.Lib.Runs
import Binarius.Shared.Trading

/-!
# BrokerSocket.Socket — the client of one account's broker socket (packages/broker-socket: socket.ts)

Every entry point (a socket.io handler, a timer, `start`, `stop`, `openTrade`, an abort) is one unit of
work, so a client is a state machine over them.  An event belongs to the socket it came from; the
listeners of an ended session's socket are removed, so only the current session's are heard.  Counters,
log lines and the price subscriptions are left out: they touch no command.

Beside the client's own variables the state keeps what happened to commands: every `openTrade` call has
a number, `emitted` is every command that went out, `answers` what each call's promise settled with.

* `Client.step`: what each entry point does.
-/

namespace Binarius

open Lib

inductive BrokerSocketState
  | idle
  | connecting
  | authenticating
  | ready
  | reconnecting
  | authFailed
  | tokenExpired
  | disconnectedByServer
  deriving DecidableEq, Repr

/-- TERMINAL_STATES: the socket is closed and only `start` opens another. -/
def BrokerSocketState.isTerminal : BrokerSocketState → Bool
  | authFailed => true
  | tokenExpired => true
  | disconnectedByServer => true
  | _ => false

structure SocketOpenTradeRequest where
  assetId : ℕ
  amount : DecimalString
  action : TradeAction
  durationSec : ℕ
  deriving DecidableEq, Repr

/-- socketOpenTradeRequestWireSchema. -/
def SocketOpenTradeRequest.wireValid (request : SocketOpenTradeRequest) : Bool :=
  isPositiveDecimalString request.amount && decide (0 < request.durationSec)

structure OpenTradeFailure where
  message : String
  field : Option String
  deriving DecidableEq, Repr

inductive NotSentReason
  | notReady
  | aborted
  deriving DecidableEq, Repr

inductive UnknownReason
  | stateChanged
  | aborted
  | timeout
  deriving DecidableEq, Repr

inductive SocketOpenTradeResult
  | success (trade : BrokerTrade)
  | fail (failures : List OpenTradeFailure)
  /-- nothing was emitted -/
  | notSent (reason : NotSentReason) (state : BrokerSocketState)
  /-- emitted, and no answer -/
  | unknown (reason : UnknownReason) (state : BrokerSocketState)
  deriving DecidableEq, Repr

/-- What an `openTrade` call ends with: its result, or a throw. -/
inductive OpenTradeAnswer
  | result (r : SocketOpenTradeResult)
  | threw
  deriving DecidableEq, Repr

/-- One connection: one `connect` of the socket. -/
structure Connection where
  ordinal : ℕ
  /-- a command ended here without its answer -/
  tainted : Bool
  deriving DecidableEq, Repr

/-- One socket: `number` stands for its identity. -/
structure Session where
  number : ℕ
  connectionCount : ℕ
  connection : Option Connection
  deriving DecidableEq, Repr

/-- A command as it was emitted, tied to its connection; `id` is the number of its call. -/
structure Command where
  id : ℕ
  session : ℕ
  connection : ℕ
  mode : TradeMode
  request : SocketOpenTradeRequest
  deriving DecidableEq, Repr

/-- The command went out on this connection of this session. -/
def Command.sentOn (p : Command) (s : Session) (k : Connection) : Prop :=
  p.session = s.number ∧ p.connection = k.ordinal

structure Client where
  state : BrokerSocketState
  session : Option Session
  /-- the command in flight -/
  pending : Option Command
  /-- sockets opened so far -/
  sockets : ℕ
  /-- `openTrade` calls so far -/
  calls : ℕ
  emitted : List Command
  answers : List (ℕ × OpenTradeAnswer)
  deriving DecidableEq, Repr

inductive DisconnectReason
  /-- `io server disconnect` -/
  | server
  /-- `io client disconnect` -/
  | client
  /-- a transport loss -/
  | transport
  deriving DecidableEq, Repr

/-- A normalized broker event; the ones that touch no command and no state are `other`. -/
inductive BrokerEvent
  | authSuccess
  | authError
  | tokenExpired
  | openTradeSuccess (mode : TradeMode) (trade : BrokerTrade)
  | openTradeFail (mode : TradeMode) (failures : List OpenTradeFailure)
  | other
  deriving DecidableEq, Repr

/-- The entry points; `n` is the socket an event comes from. -/
inductive SocketEvent
  | start
  | stop
  | connect (n : ℕ)
  | disconnect (n : ℕ) (reason : DisconnectReason)
  /-- `active`: socket.io will retry -/
  | connectError (n : ℕ) (active : Bool)
  | broker (n : ℕ) (event : BrokerEvent)
  | authTimeout (n : ℕ)
  /-- `stopsInside`: the socket's `emit` calls `stop` before it returns -/
  | openTrade (mode : TradeMode) (request : SocketOpenTradeRequest) (aborted stopsInside : Bool)
  /-- the signal of a call aborts -/
  | abort (id : ℕ)
  /-- the command timer of a call -/
  | timeout (id : ℕ)
  deriving DecidableEq, Repr

/-- The first term of the command a success does not carry. -/
inductive MismatchedField
  | asset
  | action
  | amount
  deriving DecidableEq, Repr

def mismatchedField (trade : BrokerTrade) (request : SocketOpenTradeRequest) : Option MismatchedField :=
  if trade.assetId ≠ request.assetId then some .asset
  else if trade.action ≠ request.action then some .action
  else if normalizeDecimal trade.amount ≠ normalizeDecimal request.amount then some .amount
  else none

namespace Client

/-- A client as it is created. -/
def created : Client where
  state := .idle
  session := none
  pending := none
  sockets := 0
  calls := 0
  emitted := []
  answers := []

def withSession (c : Client) (s : Session) : Client := { c with session := some s }

def answer (c : Client) (id : ℕ) (a : OpenTradeAnswer) : Client :=
  { c with answers := (id, a) :: c.answers }

def settleCommand (c : Client) (r : SocketOpenTradeResult) : Client :=
  match c.pending with
  | none => c
  | some command => { c with pending := none }.answer command.id (.result r)

/-- The answer of the emitted command can no longer be told apart from silence. -/
def transition (c : Client) (toState : BrokerSocketState) : Client :=
  if c.state = toState then c
  else settleCommand { c with state := toState } (.unknown .stateChanged toState)

/-- Throws unless idle or terminal; the ended session's listeners go with its socket. -/
def start (c : Client) : Client :=
  if c.state ≠ .idle ∧ c.state.isTerminal = false then c
  else transition
    { c with
      session := some { number := c.sockets, connectionCount := 0, connection := none }
      sockets := c.sockets + 1 } .connecting

def stop (c : Client) : Client :=
  match c.session with
  | none => c
  | some _ => transition { c with session := none } .idle

def onConnect (c : Client) (s : Session) : Client :=
  if c.state ≠ .connecting ∧ c.state ≠ .reconnecting then c
  else transition
    (c.withSession { s with
      connectionCount := s.connectionCount + 1
      connection := some { ordinal := s.connectionCount + 1, tainted := false } }) .authenticating

def onDisconnect (c : Client) (s : Session) (reason : DisconnectReason) : Client :=
  let c := c.withSession { s with connection := none }
  if c.state.isTerminal ∨ reason = .client then c
  else if reason = .server then transition c .disconnectedByServer
  else transition c .reconnecting

def onConnectError (c : Client) (active : Bool) : Client :=
  if c.state.isTerminal then c
  else if active then c
  else transition c .disconnectedByServer

def onAuthSuccess (c : Client) : Client :=
  if c.state ≠ .authenticating then c else transition c .ready

/-- `closeSocket` raises `io client disconnect`, which drops the connection, before the transition. -/
def onTerminalEvent (c : Client) (s : Session) (toState : BrokerSocketState) : Client :=
  if c.state.isTerminal then c
  else transition (c.withSession { s with connection := none }) toState

def answerCommand (c : Client) (s : Session) (event : BrokerEvent) : Client :=
  match c.pending with
  | none => c
  | some command =>
    if command.session ≠ s.number ∨ s.connection.map (·.ordinal) ≠ some command.connection then c
    else
      match event with
      | .openTradeSuccess mode trade =>
        if mode = command.mode ∧ mismatchedField trade command.request = none then
          settleCommand c (.success trade)
        else c
      | .openTradeFail mode failures =>
        if mode = command.mode then settleCommand c (.fail failures) else c
      | _ => c

def onAnyEvent (c : Client) (s : Session) (event : BrokerEvent) : Client :=
  let c := c.answerCommand s event
  match event with
  | .authSuccess => c.onAuthSuccess
  | .authError => c.onTerminalEvent s .authFailed
  | .tokenExpired => c.onTerminalEvent s .tokenExpired
  | _ => c

/-- The command's own timer or the caller's abort.  A late answer would answer the next command: the
connection takes none until it is replaced. -/
def endWithoutAnswer (c : Client) (id : ℕ) (reason : UnknownReason) : Client :=
  match c.pending with
  | none => c
  | some command =>
    if command.id ≠ id then c
    else
      let settled := c.settleCommand (.unknown reason c.state)
      match c.session with
      | none => settled
      | some s =>
        if s.number = command.session ∧ s.connection.map (·.ordinal) = some command.connection then
          settled.withSession { s with connection := some { ordinal := command.connection, tainted := true } }
        else settled

/-- The check, the emit and the wait for an answer. -/
def emitCommand (c : Client) (command : Command) (stopsInside : Bool) : Client :=
  let sent := { c with emitted := command :: c.emitted }
  let after := if stopsInside then sent.stop else sent
  if after.session.map (·.number) ≠ some command.session ∨ after.state ≠ .ready then
    after.answer command.id (.result (.unknown .stateChanged after.state))
  else { after with pending := some command }

def openTrade (c : Client) (mode : TradeMode) (request : SocketOpenTradeRequest)
    (aborted stopsInside : Bool) : Client :=
  let id := c.calls
  let called := { c with calls := c.calls + 1 }
  if aborted then called.answer id (.result (.notSent .aborted c.state))
  else
    match c.session with
    | none => called.answer id (.result (.notSent .notReady c.state))
    | some s =>
      match s.connection with
      | none => called.answer id (.result (.notSent .notReady c.state))
      | some connection =>
        if connection.tainted ∨ c.state ≠ .ready then
          called.answer id (.result (.notSent .notReady c.state))
        else if c.pending.isSome then called.answer id .threw
        else if request.wireValid = false then called.answer id .threw
        else
          called.emitCommand
            { id := id, session := s.number, connection := connection.ordinal, mode := mode
              request := request } stopsInside

/-- The handler of an event of socket `n`: only the current session's are attached. -/
def ofSocket (c : Client) (n : ℕ) (handler : Session → Client) : Client :=
  match c.session with
  | none => c
  | some s => if s.number = n then handler s else c

def step (c : Client) : SocketEvent → Client
  | .start => c.start
  | .stop => c.stop
  | .connect n => c.ofSocket n c.onConnect
  | .disconnect n reason => c.ofSocket n (fun s => c.onDisconnect s reason)
  | .connectError n active => c.ofSocket n (fun _ => c.onConnectError active)
  | .broker n event => c.ofSocket n (fun s => c.onAnyEvent s event)
  -- onAuthTimeout closes the engine, whose `disconnect` comes as an event of its own
  | .authTimeout _ => c
  | .openTrade mode request aborted stopsInside => c.openTrade mode request aborted stopsInside
  | .abort id => c.endWithoutAnswer id .aborted
  | .timeout id => c.endWithoutAnswer id .timeout

end Client

end Binarius
