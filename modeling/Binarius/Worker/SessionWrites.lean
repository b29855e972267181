import Mathlib.Tactic
import Binarius.Lib.OrderedMap
import Binarius.Lib.History
import Binarius.BrokerSocket.Attribution

/-!
# Worker.SessionWrites — the writes that an account's broker events cause
(apps/trading-worker/src/broker/session-manager.ts)

The clients are `BrokerSocket.Socket`'s.  A client queues its state changes and events, and its
listeners hear of them in that order, each at a moment of its own; a write ends whenever the database
gets to it.

* `SessionWriter.onEvent`, `onState`, `enqueue`, `pump`: the manager's handlers, one callback at a time.
* `connection_step`: **a client's connection** is kept, gone, or new with a change to `authenticating`.
* `EventsOk`: what is queued of a client speaks of the connection its listeners last heard of.
* `session_writes`: one write of an account at a time, in the order of its events, and none before its
  connection's user data matched.
-/

namespace Binarius

open Lib

/-- The connection of a client: its entry, its socket and its `connect`. -/
structure ConnectionTag where
  entry : ℕ
  session : ℕ
  connection : ℕ
  deriving DecidableEq, Repr

/-- The events that cause a write. -/
inductive AccountEvent
  | userData (brokerUserId : ℕ)
  | balanceUpdate (mode : TradeMode)
  | closeTradeSuccess (mode : TradeMode)
  deriving DecidableEq, Repr

/-- A write, with the number its event was received under. -/
structure SessionWrite where
  receipt : ℕ
  conn : ConnectionTag
  event : AccountEvent
  deriving DecidableEq, Repr

/-- What a client's listeners hear of. -/
inductive SocketDelivery
  | state (toState : BrokerSocketState) (conn : Option ConnectionTag)
  | event (write : SessionWrite)
  deriving DecidableEq

structure SessionEntry where
  accountId : AccountId
  brokerUserId : ℕ
  /-- this connection's user data carried the account's broker user id -/
  verified : Bool := false
  client : Client
  queue : List SocketDelivery := []
  /-- the connection of the last `authenticating` heard -/
  heard : Option ConnectionTag := none

structure WriteQueue where
  tasks : List SessionWrite := []
  running : Option SessionWrite := none

inductive SessionWriteEntry
  /-- the user data of a connection was received and matched -/
  | matched (user : SessionWrite)
  | caused (accountId : AccountId) (write : SessionWrite)
  | started (accountId : AccountId) (write : SessionWrite)
  | ended (accountId : AccountId) (write : SessionWrite)
  deriving DecidableEq

structure SessionWriter where
  /-- every running entry made, current or not -/
  entries : OrderedMap ℕ SessionEntry := .empty
  /-- the account's current entry -/
  current : OrderedMap AccountId ℕ := .empty
  opened : ℕ := 0
  received : ℕ := 0
  queues : OrderedMap AccountId WriteQueue := .empty
  stopping : Bool := false
  log : List SessionWriteEntry := []

/-- The client's connection, if it has one. -/
def connectionOf (entry : ℕ) (c : Client) : Option ConnectionTag :=
  c.session.bind (fun s => s.connection.map (fun k => ⟨entry, s.number, k.ordinal⟩))

/-- A step of the client queues the state it changes to. -/
def SessionEntry.step (e : SessionEntry) (id : ℕ) (event : SocketEvent) : SessionEntry :=
  { e with
    client := e.client.step event
    queue :=
      if (e.client.step event).state = e.client.state then e.queue
      else e.queue ++ [.state (e.client.step event).state (connectionOf id (e.client.step event))] }

namespace SessionWriter

variable (m : SessionWriter)

def isCurrent (id : ℕ) (e : SessionEntry) : Bool := m.current.get? e.accountId = some id

def setEntry (id : ℕ) (e : SessionEntry) : SessionWriter := { m with entries := m.entries.set id e }

/-- A running entry replaces the account's, and starts its client. -/
def openSession (accountId : AccountId) (brokerUserId : ℕ) : SessionWriter :=
  if m.stopping then m
  else
    { m with
      entries := m.entries.set m.opened
        (SessionEntry.step { accountId, brokerUserId, client := Client.created } m.opened .start)
      current := m.current.set accountId m.opened
      opened := m.opened + 1 }

/-- Closes the account's client and forgets it. -/
def drop (accountId : AccountId) : SessionWriter :=
  match m.current.get? accountId with
  | none => m
  | some id =>
    let gone := { m with current := m.current.erase accountId }
    match m.entries.get? id with
    | none => gone
    | some e => gone.setEntry id (e.step id .stop)

/-- A new token: the client starts again, to be verified again. -/
def restart (accountId : AccountId) : SessionWriter :=
  match m.current.get? accountId with
  | none => m
  | some id =>
    match m.entries.get? id with
    | none => m
    | some e => m.setEntry id (SessionEntry.step { e with verified := false } id .start)

/-- An entry point of a client: a handler, a timer, a command. -/
def clientStep (id : ℕ) (event : SocketEvent) : SessionWriter :=
  match m.entries.get? id with
  | none => m
  | some e => m.setEntry id (e.step id event)

/-- An event of the account on socket `n`: it comes on the socket's connection. -/
def hears (id n : ℕ) (event : AccountEvent) : SessionWriter :=
  match m.entries.get? id with
  | none => m
  | some e =>
    match connectionOf id e.client with
    | none => m
    | some conn =>
      if conn.session = n then
        { m.setEntry id { e.step id (.broker n .other) with
            queue := (e.step id (.broker n .other)).queue ++ [.event ⟨m.received, conn, event⟩] } with
          received := m.received + 1 }
      else m

/-! ### The writes -/

def queueOf (accountId : AccountId) : WriteQueue := (m.queues.get? accountId).getD {}

/-- The next task of an account's queue, if none runs; an empty queue is forgotten. -/
def pump (accountId : AccountId) : SessionWriter :=
  let queue := m.queueOf accountId
  match queue.running, queue.tasks with
  | some _, _ => m
  | none, [] => { m with queues := m.queues.erase accountId }
  | none, task :: tasks =>
    { m with
      queues := m.queues.set accountId { tasks, running := some task }
      log := m.log ++ [.started accountId task] }

def enqueue (accountId : AccountId) (write : SessionWrite) : SessionWriter :=
  let queue := m.queueOf accountId
  ({ m with
    queues := m.queues.set accountId { queue with tasks := queue.tasks ++ [write] }
    log := m.log ++ [.caused accountId write] } : SessionWriter).pump accountId

/-- The running write of an account is over, written or left to the dead letters. -/
def writeEnds (accountId : AccountId) : SessionWriter :=
  match (m.queueOf accountId).running with
  | none => m
  | some write =>
    ({ m with
      queues := m.queues.set accountId { m.queueOf accountId with running := none }
      log := m.log ++ [.ended accountId write] } : SessionWriter).pump accountId

/-! ### The listeners -/

def onState (id : ℕ) (e : SessionEntry) (toState : BrokerSocketState) : SessionWriter :=
  match toState with
  | .connecting => m.setEntry id { e with verified := false }
  | .reconnecting => m.setEntry id { e with verified := false }
  | .authenticating => m.setEntry id { e with verified := false }
  | .idle => m.setEntry id { e with verified := false }
  -- the token is fetched again: the restart comes as an act of its own
  | .tokenExpired => m.setEntry id { e with verified := false }
  | .authFailed => m.setEntry id { e with verified := false }
  | .disconnectedByServer => m.drop e.accountId
  | .ready => m

def onEvent (id : ℕ) (e : SessionEntry) (write : SessionWrite) : SessionWriter :=
  match write.event with
  | .userData brokerUserId =>
    if brokerUserId = e.brokerUserId then
      ({ m.setEntry id { e with verified := true } with log := m.log ++ [.matched write] } :
        SessionWriter).enqueue e.accountId write
    else m.drop e.accountId
  -- events without a user id are the account's only after its user data on this connection
  | .balanceUpdate _ => if e.verified then m.enqueue e.accountId write else m
  | .closeTradeSuccess _ => if e.verified then m.enqueue e.accountId write else m

/-- The first of a client's deliveries; an event of an ended session is not heard. -/
def deliver (id : ℕ) : SessionWriter :=
  match m.entries.get? id with
  | none => m
  | some e =>
    match e.queue with
    | [] => m
    | .state toState conn :: queue =>
      let e := { e with queue, heard := if toState = .authenticating then conn else e.heard }
      let m := m.setEntry id e
      if m.isCurrent id e then m.onState id e toState else m
    | .event write :: queue =>
      let e := { e with queue }
      let m := m.setEntry id e
      if m.isCurrent id e ∧ e.client.session.map Session.number = some write.conn.session then m.onEvent
        id e write
      else m

/-- Every client stopped, every entry forgotten, and the writes that wait dropped. -/
def stop : SessionWriter :=
  { m with
    stopping := true
    entries := m.entries.mapVal (fun id e => if m.isCurrent id e then e.step id .stop else e)
    current := .empty
    queues := m.queues.mapVal (fun _ queue => { queue with tasks := [] }) }

end SessionWriter

inductive SessionWriteAct
  | openSession (accountId : AccountId) (brokerUserId : ℕ)
  | drop (accountId : AccountId)
  | restart (accountId : AccountId)
  | client (id : ℕ) (event : SocketEvent)
  | hears (id n : ℕ) (event : AccountEvent)
  | deliver (id : ℕ)
  | writeEnds (accountId : AccountId)
  | stop

def SessionWriter.act (m : SessionWriter) : SessionWriteAct → SessionWriter
  | .openSession accountId brokerUserId => m.openSession accountId brokerUserId
  | .drop accountId => m.drop accountId
  | .restart accountId => m.restart accountId
  | .client id event => m.clientStep id event
  | .hears id n event => m.hears id n event
  | .deliver id => m.deliver id
  | .writeEnds accountId => m.writeEnds accountId
  | .stop => m.stop

/-! ## What a client's listeners hear -/

section Connections

variable {c : Client}

theorem transition_session (toState : BrokerSocketState) : (c.transition toState).session = c.session := by
  unfold Client.transition
  split_ifs
  · rfl
  · rw [Client.settleCommand_session]

theorem transition_state (toState : BrokerSocketState) : (c.transition toState).state = toState := by
  unfold Client.transition
  split_ifs with hsame
  · exact hsame
  · unfold Client.settleCommand
    split <;> rfl

/-- A client keeps its connection, loses it, or makes one and changes to `authenticating`. -/
def ConnectionStep (id : ℕ) (c c' : Client) : Prop :=
  connectionOf id c' = none ∨ connectionOf id c' = connectionOf id c ∨
    (c.state ≠ .authenticating ∧ c'.state = .authenticating)

variable {c' : Client} {id : ℕ}

theorem connectionOf_congr (hsame : c'.session = c.session) : connectionOf id c' = connectionOf id c := by
  unfold connectionOf
  rw [hsame]

theorem connectionOf_none (hnone : c'.session = none) : connectionOf id c' = none := by
  unfold connectionOf
  rw [hnone]
  rfl

theorem connectionOf_lost {s : Session} (hlost : c'.session = some { s with connection := none }) :
    connectionOf id c' = none := by
  unfold connectionOf
  rw [hlost]
  rfl

/-- A listener of one socket hears it while the socket is the session's. -/
theorem ConnectionStep.ofSocket (n : ℕ) {handler : Session → Client}
    (hhandler : ∀ s, c.session = some s → ConnectionStep id c (handler s)) :
    ConnectionStep id c (c.ofSocket n handler) := by
  unfold Client.ofSocket
  cases hsession : c.session with
  | none => exact .inr (.inl rfl)
  | some s =>
    simp only
    split_ifs
    · exact hhandler s hsession
    · exact .inr (.inl rfl)

theorem connectionOf_endWithoutAnswer (command : ℕ) (reason : UnknownReason) :
    connectionOf id (c.endWithoutAnswer command reason) = connectionOf id c := by
  unfold Client.endWithoutAnswer
  cases hpending : c.pending with
  | none => rfl
  | some p =>
    simp only
    split_ifs
    · rfl
    · cases hsession : c.session with
      | none => exact connectionOf_congr (Client.settleCommand_session _)
      | some s =>
        simp only
        split_ifs with hon
        -- the connection is tainted, its ordinal stays
        · unfold connectionOf
          rw [hsession, Option.bind_some]
          show Option.map _ (some _) = _
          cases hconnection : s.connection with
          | none =>
            rw [hconnection] at hon
            exact absurd hon.2 (by simp)
          | some k =>
            rw [hconnection] at hon
            have hordinal : k.ordinal = p.connection := by simpa using hon.2
            rw [Option.map_some, Option.map_some, hordinal]
        · exact connectionOf_congr (Client.settleCommand_session _)

theorem connectionStep_start (id : ℕ) (c : Client) : ConnectionStep id c c.start := by
  unfold Client.start
  split_ifs
  · exact .inr (.inl rfl)
  · exact .inl (connectionOf_lost (s := ⟨c.sockets, 0, none⟩) (transition_session _))

theorem connectionStep_stop (id : ℕ) (c : Client) : ConnectionStep id c c.stop := by
  unfold Client.stop
  cases c.session with
  | none => exact .inr (.inl rfl)
  | some s => exact .inl (connectionOf_none (transition_session _))

theorem connectionStep_onConnect (id : ℕ) (c : Client) (s : Session) :
    ConnectionStep id c (c.onConnect s) := by
  unfold Client.onConnect
  split_ifs with hstate
  · exact .inr (.inl rfl)
  · refine .inr (.inr ⟨fun hauth => hstate ?_, transition_state _⟩)
    rw [hauth]
    decide

theorem connectionStep_onDisconnect (id : ℕ) (c : Client) (s : Session) (reason : DisconnectReason) :
    ConnectionStep id c (c.onDisconnect s reason) := by
  refine .inl ?_
  unfold Client.onDisconnect
  simp only
  split_ifs
  · exact connectionOf_lost rfl
  · exact connectionOf_lost (transition_session _)
  · exact connectionOf_lost (transition_session _)

theorem connectionStep_onConnectError (id : ℕ) (c : Client) (active : Bool) :
    ConnectionStep id c (c.onConnectError active) := by
  refine .inr (.inl ?_)
  unfold Client.onConnectError
  split_ifs
  · rfl
  · rfl
  · exact connectionOf_congr (transition_session _)

theorem connectionStep_onTerminalEvent (hsame : c'.session = c.session) {s : Session}
    {toState : BrokerSocketState} : ConnectionStep id c (c'.onTerminalEvent s toState) := by
  unfold Client.onTerminalEvent
  split_ifs
  · exact .inr (.inl (connectionOf_congr hsame))
  · exact .inl (connectionOf_lost (transition_session _))

theorem connectionStep_onAnyEvent (id : ℕ) (c : Client) (s : Session) (event : BrokerEvent) :
    ConnectionStep id c (c.onAnyEvent s event) := by
  have hanswered := @Client.answerCommand_session c s event
  unfold Client.onAnyEvent
  cases event with
  | authSuccess =>
    refine .inr (.inl ?_)
    show connectionOf id (Client.onAuthSuccess _) = _
    unfold Client.onAuthSuccess
    split_ifs
    · exact connectionOf_congr hanswered
    · exact connectionOf_congr ((transition_session _).trans hanswered)
  | authError => exact connectionStep_onTerminalEvent hanswered
  | tokenExpired => exact connectionStep_onTerminalEvent hanswered
  | openTradeSuccess mode trade => exact .inr (.inl (connectionOf_congr hanswered))
  | openTradeFail mode failures => exact .inr (.inl (connectionOf_congr hanswered))
  | other => exact .inr (.inl (connectionOf_congr hanswered))

theorem stop_session (c : Client) : c.stop.session = none := by
  unfold Client.stop
  cases hsession : c.session with
  | none => exact hsession
  | some s => exact transition_session _

/-- A command is written to the connection, which a stop inside the write ends. -/
theorem connectionOf_emitCommand (hsame : c'.session = c.session) (p : Command) (stopsInside : Bool) :
    connectionOf id (c'.emitCommand p stopsInside) = none ∨
      connectionOf id (c'.emitCommand p stopsInside) = connectionOf id c := by
  unfold Client.emitCommand
  cases stopsInside with
  | false =>
    simp only [Bool.false_eq_true, if_false]
    split_ifs
    · exact .inr (connectionOf_congr hsame)
    · exact .inr (connectionOf_congr hsame)
  | true =>
    simp only [if_true]
    split_ifs
    · exact .inl (connectionOf_none (stop_session _))
    · exact .inl (connectionOf_none (stop_session _))

theorem connectionStep_openTrade (id : ℕ) (c : Client) (mode : TradeMode) (request : SocketOpenTradeRequest)
    (aborted stopsInside : Bool) : ConnectionStep id c (c.openTrade mode request aborted stopsInside) := by
  unfold Client.openTrade
  cases aborted with
  | true => exact .inr (.inl rfl)
  | false =>
    simp only [Bool.false_eq_true, if_false]
    cases hsession : c.session with
    | none => exact .inr (.inl (connectionOf_congr hsession.symm))
    | some s =>
      simp only
      cases s.connection with
      | none => exact .inr (.inl (connectionOf_congr hsession.symm))
      | some k =>
        simp only
        split_ifs
        · exact .inr (.inl (connectionOf_congr hsession.symm))
        · exact .inr (.inl (connectionOf_congr hsession.symm))
        · exact .inr (.inl (connectionOf_congr hsession.symm))
        · rcases @connectionOf_emitCommand c { c with session := some s, calls := c.calls + 1 } id
            hsession.symm ⟨c.calls, s.number, k.ordinal, mode, request⟩ stopsInside with hgone | hkept
          · exact .inl hgone
          · exact .inr (.inl hkept)

/-- **A step of a client** keeps its connection, loses it, or makes one and changes to `authenticating`. -/
theorem connection_step (id : ℕ) (c : Client) (event : SocketEvent) :
    ConnectionStep id c (c.step event) := by
  cases event with
  | start => exact connectionStep_start id c
  | stop => exact connectionStep_stop id c
  | connect n => exact ConnectionStep.ofSocket n (fun s _ => connectionStep_onConnect id c s)
  | disconnect n reason =>
    exact ConnectionStep.ofSocket n (fun s _ => connectionStep_onDisconnect id c s reason)
  | connectError n active =>
    exact ConnectionStep.ofSocket n (fun _ _ => connectionStep_onConnectError id c active)
  | broker n event => exact ConnectionStep.ofSocket n (fun s _ => connectionStep_onAnyEvent id c s event)
  | authTimeout n => exact .inr (.inl rfl)
  | openTrade mode request aborted stopsInside =>
    exact connectionStep_openTrade id c mode request aborted stopsInside
  | abort command => exact .inr (.inl (connectionOf_endWithoutAnswer command _))
  | timeout command => exact .inr (.inl (connectionOf_endWithoutAnswer command _))

end Connections

/-- The connection the listeners speak of once they have heard a queue. -/
def lastHeard : Option ConnectionTag → List SocketDelivery → Option ConnectionTag
  | cur, [] => cur
  | cur, .state toState conn :: rest => lastHeard (if toState = .authenticating then conn else cur) rest
  | cur, .event _ :: rest => lastHeard cur rest

/-- **Every event of a queue** is of the connection its listeners last heard of. -/
def EventsOk : Option ConnectionTag → List SocketDelivery → Prop
  | _, [] => True
  | cur, .state toState conn :: rest => EventsOk (if toState = .authenticating then conn else cur) rest
  | cur, .event write :: rest => cur = some write.conn ∧ EventsOk cur rest

/-- The receipts of a queue's events. -/
def receiptsOf (queue : List SocketDelivery) : List ℕ :=
  queue.filterMap (fun d => match d with | .state _ _ => none | .event write => some write.receipt)

section Queues

variable {cur : Option ConnectionTag} {queue queue' : List SocketDelivery}

theorem lastHeard_append : lastHeard cur (queue ++ queue') = lastHeard (lastHeard cur queue) queue' := by
  induction queue generalizing cur with
  | nil => rfl
  | cons d rest ih =>
    cases d with
    | state toState conn => exact ih
    | event write => exact ih

theorem eventsOk_append : EventsOk cur (queue ++ queue') ↔ EventsOk cur queue ∧ EventsOk
    (lastHeard cur queue) queue' := by
  induction queue generalizing cur with
  | nil => exact ⟨fun h => ⟨trivial, h⟩, fun h => h.2⟩
  | cons d rest ih =>
    cases d with
    | state toState conn => exact ih
    | event write =>
      show cur = _ ∧ EventsOk cur (rest ++ queue') ↔ (cur = _ ∧ EventsOk cur rest) ∧
        EventsOk (lastHeard cur rest) queue'
      rw [ih, and_assoc]

theorem receiptsOf_append : receiptsOf (queue ++ queue') = receiptsOf queue ++ receiptsOf queue' :=
  List.filterMap_append

end Queues

/-- **What is queued of a client** speaks of its connections, an event of the one last heard of, and so
does the client itself. -/
structure SessionEntry.Ok (id : ℕ) (e : SessionEntry) : Prop where
  events : EventsOk e.heard e.queue
  own : ∀ write, .event write ∈ e.queue → write.conn.entry = id
  connection : ∀ conn, connectionOf id e.client = some conn → lastHeard e.heard e.queue = some conn

theorem SessionEntry.step_same (e : SessionEntry) (id : ℕ) (event : SocketEvent) :
    (e.step id event).accountId = e.accountId ∧ (e.step id event).verified = e.verified ∧
      (e.step id event).heard = e.heard ∧ receiptsOf (e.step id event).queue = receiptsOf e.queue := by
  refine ⟨rfl, rfl, rfl, ?_⟩
  unfold SessionEntry.step
  simp only
  split_ifs
  · rfl
  · rw [receiptsOf_append]
    exact List.append_nil _

theorem SessionEntry.Ok.step {id : ℕ} {e : SessionEntry} (h : e.Ok id) (event : SocketEvent) :
    (e.step id event).Ok id := by
  have hconnection := connection_step id e.client event
  unfold SessionEntry.step
  by_cases hsame : (e.client.step event).state = e.client.state
  · rw [if_pos hsame]
    refine ⟨h.events, h.own, fun conn hconn => ?_⟩
    rcases hconnection with hnone | hkept | ⟨hne, hauth⟩
    · rw [show connectionOf id (e.client.step event) = some conn from hconn] at hnone
      cases hnone
    · exact h.connection conn (hkept.symm.trans hconn)
    · exact absurd (hsame.symm.trans hauth) hne
  · rw [if_neg hsame]
    refine ⟨eventsOk_append.mpr ⟨h.events, trivial⟩, fun write hmem => ?_, fun conn hconn => ?_⟩
    · rcases List.mem_append.mp hmem with hold | hnew
      · exact h.own write hold
      · cases List.mem_singleton.mp hnew
    show lastHeard e.heard (e.queue ++ [.state _ _]) = some conn
    rw [lastHeard_append]
    show (if (e.client.step event).state = .authenticating then connectionOf id (e.client.step event) else
      lastHeard e.heard e.queue) = some conn
    split_ifs with hauth
    · exact hconn
    · rcases hconnection with hnone | hkept | ⟨-, hauth'⟩
      · rw [show connectionOf id (e.client.step event) = some conn from hconn] at hnone
        cases hnone
      · exact h.connection conn (hkept.symm.trans hconn)
      · exact absurd hauth' hauth

/-! ## The log -/

def SessionWriteEntry.caused? (accountId : AccountId) : SessionWriteEntry → Option SessionWrite
  | .caused a write => if a = accountId then some write else none
  | _ => none

def SessionWriteEntry.started? (accountId : AccountId) : SessionWriteEntry → Option SessionWrite
  | .started a write => if a = accountId then some write else none
  | _ => none

def SessionWriteEntry.ended? (accountId : AccountId) : SessionWriteEntry → Option SessionWrite
  | .ended a write => if a = accountId then some write else none
  | _ => none

def causedOf (accountId : AccountId) (log : List SessionWriteEntry) : List SessionWrite :=
  log.filterMap (SessionWriteEntry.caused? accountId)

def startedOf (accountId : AccountId) (log : List SessionWriteEntry) : List SessionWrite :=
  log.filterMap (SessionWriteEntry.started? accountId)

def endedOf (accountId : AccountId) (log : List SessionWriteEntry) : List SessionWrite :=
  log.filterMap (SessionWriteEntry.ended? accountId)

section Log

variable (accountId : AccountId) (log : List SessionWriteEntry) (x : SessionWriteEntry)

theorem causedOf_snoc : causedOf accountId (log ++ [x]) = causedOf accountId log ++ (x.caused? accountId).toList := by
  unfold causedOf
  rw [List.filterMap_append]
  cases h : x.caused? accountId <;> simp [h]

theorem startedOf_snoc :
    startedOf accountId (log ++ [x]) = startedOf accountId log ++ (x.started? accountId).toList := by
  unfold startedOf
  rw [List.filterMap_append]
  cases h : x.started? accountId <;> simp [h]

theorem endedOf_snoc : endedOf accountId (log ++ [x]) = endedOf accountId log ++ (x.ended? accountId).toList := by
  unfold endedOf
  rw [List.filterMap_append]
  cases h : x.ended? accountId <;> simp [h]

end Log

/-- A write starts when every one before it of its account has ended, and none is caused before its
connection's user data matched. -/
def SessionWriteEntryOk (before : List SessionWriteEntry) : SessionWriteEntry → Prop
  | .matched _ => True
  | .caused _ write => ∃ user, .matched user ∈ before ∧ user.conn = write.conn
  | .started accountId _ => startedOf accountId before = endedOf accountId before
  | .ended _ _ => True

/-- What is logged of a connection is of the account whose entry made it, and of its broker user. -/
def IdentityOk (entries : OrderedMap ℕ SessionEntry) : SessionWriteEntry → Prop
  | .matched user =>
    ∃ e, entries.get? user.conn.entry = some e ∧ user.event = .userData e.brokerUserId
  | .caused accountId write => ∃ e, entries.get? write.conn.entry = some e ∧ e.accountId = accountId
  | .started _ _ => True
  | .ended _ _ => True

theorem IdentityOk.mono {entries entries' : OrderedMap ℕ SessionEntry} {x : SessionWriteEntry}
    (h : IdentityOk entries x)
    (hkept : ∀ id e, entries.get? id = some e → ∃ e', entries'.get? id = some e' ∧
      e'.accountId = e.accountId ∧ e'.brokerUserId = e.brokerUserId) : IdentityOk entries' x := by
  cases x with
  | matched user =>
    obtain ⟨e, he, hevent⟩ := h
    obtain ⟨e', he', -, huser⟩ := hkept _ e he
    exact ⟨e', he', by rw [huser, hevent]⟩
  | caused accountId write =>
    obtain ⟨e, he, haccount⟩ := h
    obtain ⟨e', he', haccount', -⟩ := hkept _ e he
    exact ⟨e', he', haccount'.trans haccount⟩
  | started accountId write => trivial
  | ended accountId write => trivial

/-- An account's queue, read off the log: what started has ended but for the running one, and what was
caused has started but for the tasks and, after the stop, the dropped ones. -/
structure WritesOk (m : SessionWriter) (accountId : AccountId) : Prop where
  running : startedOf accountId m.log = endedOf accountId m.log ++ (m.queueOf accountId).running.toList
  tasks : startedOf accountId m.log ++ (m.queueOf accountId).tasks <+: causedOf accountId m.log
  all : m.stopping = false → startedOf accountId m.log ++ (m.queueOf accountId).tasks =
    causedOf accountId m.log

/-- What every callback keeps. -/
structure SessionWriter.Inv (m : SessionWriter) : Prop where
  fresh : ∀ id e, m.entries.get? id = some e → id < m.opened
  owner : ∀ accountId id, m.current.get? accountId = some id →
    ∃ e, m.entries.get? id = some e ∧ e.accountId = accountId
  entries : ∀ id e, m.entries.get? id = some e → e.Ok id
  verified : ∀ id e, m.entries.get? id = some e → m.isCurrent id e = true → e.verified = true →
    ∃ user, e.heard = some user.conn ∧ .matched user ∈ m.log
  receipts : ∀ id e, m.entries.get? id = some e → m.isCurrent id e = true →
    (receiptsOf e.queue).Pairwise (· < ·) ∧ ∀ r ∈ receiptsOf e.queue, r < m.received ∧
      ∀ write ∈ causedOf e.accountId m.log, write.receipt < r
  below : ∀ accountId, ∀ write ∈ causedOf accountId m.log, write.receipt < m.received
  ascending : ∀ accountId, ((causedOf accountId m.log).map SessionWrite.receipt).Pairwise (· < ·)
  writes : ∀ accountId, WritesOk m accountId
  stopped : m.stopping = true → ∀ accountId, m.current.get? accountId = none
  log : LogOk SessionWriteEntryOk m.log
  identity : ∀ x ∈ m.log, IdentityOk m.entries x

section Writes

variable {m m' : SessionWriter} {accountId : AccountId}

theorem queueOf_set (accountId' : AccountId) (queue : WriteQueue) (log : List SessionWriteEntry) :
    SessionWriter.queueOf { m with queues := m.queues.set accountId queue, log } accountId' =
      if accountId = accountId' then queue else m.queueOf accountId' := by
  unfold SessionWriter.queueOf
  simp only
  rw [OrderedMap.get?_set]
  split_ifs <;> rfl

theorem queueOf_erase (accountId' : AccountId) (h : m.queueOf accountId = {}) :
    SessionWriter.queueOf { m with queues := m.queues.erase accountId } accountId' =
      m.queueOf accountId' := by
  unfold SessionWriter.queueOf at h ⊢
  simp only
  rw [OrderedMap.get?_erase]
  split_ifs with hk
  · rw [← hk]
    exact h.symm
  · rfl

/-- **What the write queues keep**: the writes right by the log, and the log by its parts. -/
structure QueuesOk (m : SessionWriter) : Prop where
  writes : ∀ accountId, WritesOk m accountId
  log : LogOk SessionWriteEntryOk m.log

/-- What a write's start or end does to the rest. -/
structure SameBut (m m' : SessionWriter) : Prop where
  entries : ∀ id, m'.entries.get? id = m.entries.get? id
  current : m'.current = m.current
  opened : m'.opened = m.opened
  received : m'.received = m.received
  stopping : m'.stopping = m.stopping
  caused : ∀ accountId, causedOf accountId m'.log = causedOf accountId m.log
  logged : ∀ x ∈ m.log, x ∈ m'.log
  identity : ∀ x ∈ m'.log, x ∉ m.log → IdentityOk m.entries x

theorem SameBut.refl (m : SessionWriter) : SameBut m m :=
  ⟨fun _ => rfl, rfl, rfl, rfl, rfl, fun _ => rfl, fun _ h => h, fun _ h hnot => absurd h hnot⟩

theorem SessionWriter.Inv.same (h : m.Inv) (hsame : SameBut m m') (hqueues : QueuesOk m') : m'.Inv := by
  have hcurrent : ∀ id e, m'.isCurrent id e = m.isCurrent id e := by
    intro id e
    unfold SessionWriter.isCurrent
    rw [hsame.current]
  refine ⟨?_, ?_, ?_, ?_, ?_, ?_, ?_, hqueues.writes, ?_, hqueues.log, ?_⟩
  · intro id e he
    rw [hsame.entries] at he
    rw [hsame.opened]
    exact h.fresh id e he
  · intro a id hcur
    rw [hsame.current] at hcur
    rw [hsame.entries]
    exact h.owner a id hcur
  · intro id e he
    rw [hsame.entries] at he
    exact h.entries id e he
  · intro id e he hcur hverified
    rw [hsame.entries] at he
    rw [hcurrent] at hcur
    obtain ⟨user, hheard, hmem⟩ := h.verified id e he hcur hverified
    exact ⟨user, hheard, hsame.logged _ hmem⟩
  · intro id e he hcur
    rw [hsame.entries] at he
    rw [hcurrent] at hcur
    rw [hsame.received, hsame.caused]
    exact h.receipts id e he hcur
  · intro a
    rw [hsame.caused, hsame.received]
    exact h.below a
  · intro a
    rw [hsame.caused]
    exact h.ascending a
  · rw [hsame.stopping, hsame.current]
    exact h.stopped
  · intro x hx
    have hold : IdentityOk m.entries x := by
      by_cases hmem : x ∈ m.log
      · exact h.identity x hmem
      · exact hsame.identity x hx hmem
    refine hold.mono (fun id e he => ⟨e, ?_, rfl, rfl⟩)
    rw [hsame.entries]
    exact he

/-- **A pump** starts the next task when nothing runs. -/
theorem QueuesOk.pump (h : QueuesOk m) (accountId : AccountId) :
    QueuesOk (m.pump accountId) ∧ SameBut m (m.pump accountId) := by
  unfold SessionWriter.pump
  simp only
  cases hrunning : (m.queueOf accountId).running with
  | some write => exact ⟨h, SameBut.refl m⟩
  | none =>
    cases htasks : (m.queueOf accountId).tasks with
    | nil =>
      have hempty : m.queueOf accountId = {} := by
        cases hq : m.queueOf accountId with
        | mk tasks running =>
          rw [hq] at hrunning htasks
          rw [show tasks = [] from htasks, show running = none from hrunning]
      refine ⟨⟨fun a => ?_, h.log⟩, fun _ => rfl, rfl, rfl, rfl, rfl, fun _ => rfl, fun _ hx => hx,
        fun _ hx hnot => absurd hx hnot⟩
      have hq : SessionWriter.queueOf { m with queues := m.queues.erase accountId } a = m.queueOf a :=
        queueOf_erase a hempty
      have ha := h.writes a
      refine ⟨?_, ?_, fun hs => ?_⟩
      · rw [hq]
        exact ha.running
      · rw [hq]
        exact ha.tasks
      · rw [hq]
        exact ha.all hs
    | cons task tasks =>
      have hcaused : ∀ a, causedOf a (m.log ++ [.started accountId task]) = causedOf a m.log := fun a =>
        (causedOf_snoc a m.log _).trans (List.append_nil _)
      have hended : ∀ a, endedOf a (m.log ++ [.started accountId task]) = endedOf a m.log := fun a =>
        (endedOf_snoc a m.log _).trans (List.append_nil _)
      have hstarted : ∀ a, startedOf a (m.log ++ [.started accountId task]) =
          startedOf a m.log ++ if accountId = a then [task] else [] := by
        intro a
        rw [startedOf_snoc]
        unfold SessionWriteEntry.started?
        simp only
        split_ifs <;> rfl
      have hidle := (h.writes accountId).running
      rw [hrunning, Option.toList_none, List.append_nil] at hidle
      have hnew : ∀ x ∈ m.log ++ [.started accountId task], x ∉ m.log → IdentityOk m.entries x := by
        intro x hx hnot
        rcases List.mem_append.mp hx with hold | hlast
        · exact absurd hold hnot
        · cases List.mem_singleton.mp hlast
          trivial
      refine ⟨⟨fun a => ?_, h.log.snoc hidle⟩, fun _ => rfl, rfl, rfl, rfl, rfl, hcaused,
        fun _ hx => List.mem_append_left _ hx, hnew⟩
      have ha := h.writes a
      have hq := @queueOf_set m accountId a { tasks, running := some task }
        (m.log ++ [.started accountId task])
      by_cases hk : accountId = a
      · subst hk
        rw [if_pos rfl] at hq
        have hstart := hstarted accountId
        rw [if_pos rfl] at hstart
        have htask := ha.tasks
        have hall := ha.all
        rw [htasks] at htask hall
        refine ⟨?_, ?_, fun hs => ?_⟩
        · rw [hq]
          show startedOf accountId (m.log ++ _) = endedOf accountId (m.log ++ _) ++ [task]
          rw [hstart, hended, hidle]
        · rw [hq]
          show startedOf accountId (m.log ++ _) ++ tasks <+: causedOf accountId (m.log ++ _)
          rw [hstart, hcaused, List.append_assoc]
          exact htask
        · rw [hq]
          show startedOf accountId (m.log ++ _) ++ tasks = causedOf accountId (m.log ++ _)
          rw [hstart, hcaused, List.append_assoc]
          exact hall hs
      · rw [if_neg hk] at hq
        have hstart := hstarted a
        rw [if_neg hk, List.append_nil] at hstart
        refine ⟨?_, ?_, fun hs => ?_⟩
        · rw [hq]
          show startedOf a (m.log ++ _) = endedOf a (m.log ++ _) ++ _
          rw [hstart, hended]
          exact ha.running
        · rw [hq]
          show startedOf a (m.log ++ _) ++ _ <+: causedOf a (m.log ++ _)
          rw [hstart, hcaused]
          exact ha.tasks
        · rw [hq]
          show startedOf a (m.log ++ _) ++ _ = causedOf a (m.log ++ _)
          rw [hstart, hcaused]
          exact ha.all hs

/-- **The end of a write** lets the next one start. -/
theorem SessionWriter.Inv.writeEnds (h : m.Inv) (accountId : AccountId) : (m.writeEnds accountId).Inv := by
  unfold SessionWriter.writeEnds
  cases hrunning : (m.queueOf accountId).running with
  | none => exact h
  | some write =>
    simp only
    have hcaused : ∀ a, causedOf a (m.log ++ [.ended accountId write]) = causedOf a m.log := fun a =>
      (causedOf_snoc a m.log _).trans (List.append_nil _)
    have hstarted : ∀ a, startedOf a (m.log ++ [.ended accountId write]) = startedOf a m.log := fun a =>
      (startedOf_snoc a m.log _).trans (List.append_nil _)
    have hended : ∀ a, endedOf a (m.log ++ [.ended accountId write]) =
        endedOf a m.log ++ if accountId = a then [write] else [] := by
      intro a
      rw [endedOf_snoc]
      unfold SessionWriteEntry.ended?
      simp only
      split_ifs <;> rfl
    have hqueues : QueuesOk { m with
        queues := m.queues.set accountId { m.queueOf accountId with running := none }
        log := m.log ++ [.ended accountId write] } := by
      refine ⟨fun a => ?_, h.log.snoc trivial⟩
      have ha := h.writes a
      have hq := @queueOf_set m accountId a { m.queueOf accountId with running := none }
        (m.log ++ [.ended accountId write])
      have hend := hended a
      have htasks : (if accountId = a then { m.queueOf accountId with running := none } else m.queueOf
        a).tasks =
          (m.queueOf a).tasks := by
        split_ifs with hk
        · rw [hk]
        · rfl
      refine ⟨?_, ?_, fun hs => ?_⟩
      · rw [hq]
        show startedOf a (m.log ++ _) = endedOf a (m.log ++ _) ++ _
        rw [hstarted, hend]
        split_ifs with hk
        · subst hk
          rw [ha.running, hrunning, Option.toList_some]
          exact (List.append_nil _).symm
        · rw [List.append_nil]
          exact ha.running
      · rw [hq, htasks]
        show startedOf a (m.log ++ _) ++ _ <+: causedOf a (m.log ++ _)
        rw [hstarted, hcaused]
        exact ha.tasks
      · rw [hq, htasks]
        show startedOf a (m.log ++ _) ++ _ = causedOf a (m.log ++ _)
        rw [hstarted, hcaused]
        exact ha.all hs
    obtain ⟨hpumped, hsame⟩ := hqueues.pump accountId
    refine h.same ⟨hsame.entries, hsame.current, hsame.opened, hsame.received, hsame.stopping, ?_, ?_, ?_⟩
      hpumped
    · exact fun a => (hsame.caused a).trans (hcaused a)
    · exact fun x hx => hsame.logged x (List.mem_append_left _ hx)
    · intro x hx hnot
      by_cases hmem : x ∈ m.log ++ [.ended accountId write]
      · rcases List.mem_append.mp hmem with hold | hlast
        · exact absurd hold hnot
        · cases List.mem_singleton.mp hlast
          trivial
      · exact hsame.identity x hx hmem

/-- **An entry rewritten**: right for its client, and for the log where it is the account's current one. -/
theorem SessionWriter.Inv.rewritten (h : m.Inv) {id : ℕ} {e e' : SessionEntry} {received : ℕ}
    (he : m.entries.get? id = some e) (haccount : e'.accountId = e.accountId)
    (huser : e'.brokerUserId = e.brokerUserId) (hok : e'.Ok id)
    (hverified : m.isCurrent id e = true → e'.verified = true →
      ∃ user, e'.heard = some user.conn ∧ .matched user ∈ m.log)
    (hreceived : m.received ≤ received)
    (hreceipts : m.isCurrent id e = true → (receiptsOf e'.queue).Pairwise (· < ·) ∧
      ∀ r ∈ receiptsOf e'.queue, r < received ∧ ∀ write ∈ causedOf e.accountId m.log, write.receipt < r) :
    ({ m.setEntry id e' with received } : SessionWriter).Inv := by
  have hget : ∀ id' e'', (m.entries.set id e').get? id' = some e'' →
      (id' = id ∧ e'' = e') ∨ m.entries.get? id' = some e'' := by
    intro id' e'' hset
    rw [OrderedMap.get?_set] at hset
    split_ifs at hset with hk
    · exact .inl ⟨hk.symm, (Option.some.inj hset).symm⟩
    · exact .inr hset
  have hkept : ∀ id' e'', m.entries.get? id' = some e'' → ∃ e₁, (m.entries.set id e').get? id' = some e₁ ∧
      e₁.accountId = e''.accountId ∧ e₁.brokerUserId = e''.brokerUserId := by
    intro id' e'' h'
    rw [OrderedMap.get?_set]
    split_ifs with hk
    · subst hk
      rw [he] at h'
      cases h'
      exact ⟨e', rfl, haccount, huser⟩
    · exact ⟨e'', h', rfl, rfl⟩
  have hcurrent : m.isCurrent id e' = m.isCurrent id e := by
    unfold SessionWriter.isCurrent
    rw [haccount]
  refine ⟨?_, ?_, ?_, ?_, ?_, ?_, h.ascending, fun a => ?_, h.stopped, h.log, fun x hx =>
    (h.identity x hx).mono hkept⟩
  · intro id' e'' h'
    rcases hget id' e'' h' with ⟨rfl, -⟩ | hold
    · exact h.fresh id' e he
    · exact h.fresh id' e'' hold
  · intro accountId id' hcur
    obtain ⟨e'', he'', hacc⟩ := h.owner accountId id' hcur
    obtain ⟨e₁, he₁, hacc₁, -⟩ := hkept id' e'' he''
    exact ⟨e₁, he₁, hacc₁.trans hacc⟩
  · intro id' e'' h'
    rcases hget id' e'' h' with ⟨rfl, rfl⟩ | hold
    · exact hok
    · exact h.entries id' e'' hold
  · intro id' e'' h' hcur hver
    rcases hget id' e'' h' with ⟨rfl, rfl⟩ | hold
    · exact hverified (hcurrent.symm.trans hcur) hver
    · exact h.verified id' e'' hold hcur hver
  · intro id' e'' h' hcur
    rcases hget id' e'' h' with ⟨rfl, rfl⟩ | hold
    · show _ ∧ ∀ r ∈ _, r < received ∧ ∀ write ∈ causedOf e''.accountId m.log, write.receipt < r
      rw [haccount]
      exact hreceipts (hcurrent.symm.trans hcur)
    · obtain ⟨hascending, hbelow⟩ := h.receipts id' e'' hold hcur
      exact ⟨hascending, fun r hr => ⟨(hbelow r hr).1.trans_le hreceived, (hbelow r hr).2⟩⟩
  · exact fun a write hwrite => (h.below a write hwrite).trans_le hreceived
  · exact ⟨(h.writes a).running, (h.writes a).tasks, (h.writes a).all⟩

/-- An entry rewritten with no delivery more. -/
theorem SessionWriter.Inv.setEntry (h : m.Inv) {id : ℕ} {e e' : SessionEntry}
    (he : m.entries.get? id = some e)
    (haccount : e'.accountId = e.accountId) (huser : e'.brokerUserId = e.brokerUserId) (hok : e'.Ok id)
    (hverified : m.isCurrent id e = true → e'.verified = true →
      ∃ user, e'.heard = some user.conn ∧ .matched user ∈ m.log)
    (hreceipts : (receiptsOf e'.queue).Sublist (receiptsOf e.queue)) : (m.setEntry id e').Inv := by
  refine h.rewritten he haccount huser hok hverified (le_refl m.received) (fun hcur => ?_)
  obtain ⟨hascending, hbelow⟩ := h.receipts id e he hcur
  exact ⟨hascending.sublist hreceipts, fun r hr => hbelow r (hreceipts.subset hr)⟩

/-- A step of an entry's client. -/
theorem SessionWriter.Inv.stepped (h : m.Inv) {id : ℕ} {e : SessionEntry} (he : m.entries.get? id = some e)
    (event : SocketEvent) : (m.setEntry id (e.step id event)).Inv := by
  obtain ⟨-, -, -, hreceipts⟩ := e.step_same id event
  refine h.setEntry he rfl rfl ((h.entries id e he).step event) (fun hcur hver => h.verified id e he
    hcur hver) ?_
  rw [hreceipts]

/-- The account's entry is forgotten. -/
theorem SessionWriter.Inv.forgotten (h : m.Inv) (accountId : AccountId) :
    ({ m with current := m.current.erase accountId } : SessionWriter).Inv := by
  have hcurrent : ∀ id e, SessionWriter.isCurrent { m with current := m.current.erase accountId } id e =
    true →
      m.isCurrent id e = true := by
    intro id e hcur
    unfold SessionWriter.isCurrent at hcur ⊢
    have hget := of_decide_eq_true hcur
    rw [OrderedMap.get?_erase] at hget
    split_ifs at hget
    exact decide_eq_true hget
  refine ⟨h.fresh, fun a id hget => ?_, h.entries, ?_, ?_, h.below, h.ascending, fun a => ?_,
    fun hs a => ?_, h.log,
    h.identity⟩
  · have herased : (m.current.erase accountId).get? a = some id := hget
    rw [OrderedMap.get?_erase] at herased
    split_ifs at herased
    exact h.owner a id herased
  · exact fun id e he hcur hver => h.verified id e he (hcurrent id e hcur) hver
  · exact fun id e he hcur => h.receipts id e he (hcurrent id e hcur)
  · exact ⟨(h.writes a).running, (h.writes a).tasks, (h.writes a).all⟩
  · show (m.current.erase accountId).get? a = none
    rw [OrderedMap.get?_erase, h.stopped hs a, ite_self]

theorem SessionWriter.Inv.drop (h : m.Inv) (accountId : AccountId) : (m.drop accountId).Inv := by
  unfold SessionWriter.drop
  cases hcur : m.current.get? accountId with
  | none => exact h
  | some id =>
    have hgone := h.forgotten accountId
    simp only
    cases he : m.entries.get? id with
    | none => exact hgone
    | some e => exact hgone.stepped (e := e) he .stop

theorem SessionWriter.Inv.clientStep (h : m.Inv) (id : ℕ) (event : SocketEvent) :
    (m.clientStep id event).Inv := by
  unfold SessionWriter.clientStep
  cases he : m.entries.get? id with
  | none => exact h
  | some e => exact h.stepped he event

/-- A client started again is verified again. -/
theorem SessionWriter.Inv.restart (h : m.Inv) (accountId : AccountId) : (m.restart accountId).Inv := by
  unfold SessionWriter.restart
  cases hcur : m.current.get? accountId with
  | none => exact h
  | some id =>
    simp only
    cases he : m.entries.get? id with
    | none => exact h
    | some e =>
      have hok : SessionEntry.Ok id { e with verified := false } := 
        ⟨(h.entries id e he).events, (h.entries id e he).own, (h.entries id e he).connection⟩
      obtain ⟨-, -, -, hreceipts⟩ := SessionEntry.step_same { e with verified := false } id .start
      refine h.setEntry he rfl rfl (hok.step .start) (fun _ hver => absurd hver Bool.false_ne_true) ?_
      rw [hreceipts]

/-- **A new session** of the account: nothing of the old one is heard any more. -/
theorem SessionWriter.Inv.openSession (h : m.Inv) (accountId : AccountId) (brokerUserId : ℕ) :
    (m.openSession accountId brokerUserId).Inv := by
  unfold SessionWriter.openSession
  split_ifs with hstopping
  · exact h
  · let made : SessionEntry := SessionEntry.step { accountId, brokerUserId, client := Client.created }
      m.opened .start
    have hcreated : SessionEntry.Ok m.opened ({ accountId, brokerUserId, client := Client.created }
      : SessionEntry) := by
      refine ⟨trivial, fun write hwrite => absurd hwrite List.not_mem_nil, fun conn hconn => ?_⟩
      cases hconn
    have hmade : made.Ok m.opened := hcreated.step .start
    obtain ⟨-, -, -, hreceipts⟩ := SessionEntry.step_same ({ accountId, brokerUserId, client := Client.created } :
      SessionEntry) m.opened .start
    have hget : ∀ id e, (m.entries.set m.opened made).get? id = some e →
        (id = m.opened ∧ e = made) ∨ (id ≠ m.opened ∧ m.entries.get? id = some e) := by
      intro id e hset
      rw [OrderedMap.get?_set] at hset
      split_ifs at hset with hk
      · exact .inl ⟨hk.symm, (Option.some.inj hset).symm⟩
      · exact .inr ⟨fun heq => hk heq.symm, hset⟩
    have hcurrent : ∀ id e, id ≠ m.opened → decide ((m.current.set accountId m.opened).get?
      e.accountId = some id) = true →
        m.isCurrent id e = true := by
      intro id e hne hcur
      have hset := of_decide_eq_true hcur
      rw [OrderedMap.get?_set] at hset
      split_ifs at hset
      · exact absurd (Option.some.inj hset).symm hne
      · exact decide_eq_true hset
    refine ⟨?_, ?_, ?_, ?_, ?_, h.below, h.ascending, fun a => ?_, fun hs => absurd hs hstopping, h.log,
      fun x hx => (h.identity x hx).mono (fun id e he => ⟨e, ?_, rfl, rfl⟩)⟩
    · intro id e he
      rcases hget id e he with ⟨rfl, -⟩ | ⟨-, hold⟩
      · exact Nat.lt_succ_self _
      · exact Nat.lt_succ_of_lt (h.fresh id e hold)
    · intro a id hcur
      have hset : (m.current.set accountId m.opened).get? a = some id := hcur
      show ∃ e, (m.entries.set m.opened made).get? id = some e ∧ e.accountId = a
      rw [OrderedMap.get?_set] at hset
      split_ifs at hset with hk
      · cases hset
        rw [OrderedMap.get?_set, if_pos rfl]
        exact ⟨made, rfl, hk⟩
      · obtain ⟨e, he, hacc⟩ := h.owner a id hset
        rw [OrderedMap.get?_set, if_neg (Nat.ne_of_gt (h.fresh id e he))]
        exact ⟨e, he, hacc⟩
    · intro id e he
      rcases hget id e he with ⟨rfl, rfl⟩ | ⟨-, hold⟩
      · exact hmade
      · exact h.entries id e hold
    · intro id e he hcur hver
      rcases hget id e he with ⟨rfl, rfl⟩ | ⟨hne, hold⟩
      · exact absurd hver Bool.false_ne_true
      · exact h.verified id e hold (hcurrent id e hne hcur) hver
    · intro id e he hcur
      rcases hget id e he with ⟨rfl, rfl⟩ | ⟨hne, hold⟩
      · rw [hreceipts]
        exact ⟨List.Pairwise.nil, fun r hr => absurd hr List.not_mem_nil⟩
      · exact h.receipts id e hold (hcurrent id e hne hcur)
    · exact ⟨(h.writes a).running, (h.writes a).tasks, (h.writes a).all⟩
    · show (m.entries.set m.opened made).get? id = some e
      rw [OrderedMap.get?_set, if_neg (Nat.ne_of_gt (h.fresh id e he))]
      exact he

/-- An event that is no answer leaves the entry as it is. -/
theorem SessionEntry.step_other (e : SessionEntry) (id n : ℕ) : e.step id (.broker n .other) = e := by
  have hclient : e.client.step (.broker n .other) = e.client := by
    show e.client.ofSocket n (fun s => e.client.onAnyEvent s .other) = e.client
    unfold Client.ofSocket
    cases e.client.session with
    | none => rfl
    | some s =>
      simp only
      split_ifs
      · show e.client.answerCommand s .other = e.client
        unfold Client.answerCommand
        cases e.client.pending with
        | none => rfl
        | some command =>
          simp only
          split_ifs
          · rfl
          · rfl
      · rfl
  unfold SessionEntry.step
  rw [hclient, if_pos rfl]

/-- **An event received** is queued behind its connection's `authenticating`, under the next receipt. -/
theorem SessionWriter.Inv.hears (h : m.Inv) (id n : ℕ) (event : AccountEvent) :
    (m.hears id n event).Inv := by
  unfold SessionWriter.hears
  cases he : m.entries.get? id with
  | none => exact h
  | some e =>
    simp only
    cases hconn : connectionOf id e.client with
    | none => exact h
    | some conn =>
      simp only
      split_ifs
      · rw [SessionEntry.step_other]
        have hok := h.entries id e he
        have hheard := hok.connection conn hconn
        have hentry : conn.entry = id := by
          unfold connectionOf at hconn
          obtain ⟨s, -, hs⟩ := Option.bind_eq_some_iff.mp hconn
          obtain ⟨k, -, hk⟩ := Option.map_eq_some_iff.mp hs
          rw [← hk]
        refine h.rewritten he rfl rfl ⟨?_, ?_, ?_⟩ (fun hcur hver => h.verified id e he hcur hver)
          (Nat.le_succ m.received) (fun hcur => ?_)
        · exact eventsOk_append.mpr ⟨hok.events, hheard, trivial⟩
        · intro write hmem
          rcases List.mem_append.mp hmem with hold | hnew
          · exact hok.own write hold
          · cases List.mem_singleton.mp hnew
            exact hentry
        · intro conn' hconn'
          show lastHeard e.heard (e.queue ++ _) = some conn'
          rw [lastHeard_append, ← hconn', hconn]
          exact hheard
        · obtain ⟨hascending, hbelow⟩ := h.receipts id e he hcur
          have hqueue : receiptsOf (e.queue ++ [.event ⟨m.received, conn, event⟩]) =
              receiptsOf e.queue ++ [m.received] := receiptsOf_append
          show (receiptsOf (e.queue ++ _)).Pairwise _ ∧ ∀ r ∈ receiptsOf (e.queue ++ _), _
          rw [hqueue]
          refine ⟨List.pairwise_append.mpr ⟨hascending, List.pairwise_singleton _ _, fun r hr r' hr' =>
            ?_⟩, ?_⟩
          · rw [List.mem_singleton.mp hr']
            exact (hbelow r hr).1
          · intro r hr
            rcases List.mem_append.mp hr with hold | hnew
            · exact ⟨(hbelow r hold).1.trans (Nat.lt_succ_self _), (hbelow r hold).2⟩
            · rw [List.mem_singleton.mp hnew]
              exact ⟨Nat.lt_succ_self _, h.below e.accountId⟩
      · exact h

/-! ### What a delivery writes -/

/-- **A write caused** by an event newer than what was caused before, and older than what is queued. -/
theorem SessionWriter.Inv.enqueue (h : m.Inv) {write : SessionWrite} (hrunning : m.stopping = false)
    (huser : ∃ user, .matched user ∈ m.log ∧ user.conn = write.conn)
    (hentry : ∃ e, m.entries.get? write.conn.entry = some e ∧ e.accountId = accountId)
    (hnew : ∀ old ∈ causedOf accountId m.log, old.receipt < write.receipt) (hreceived : write.receipt <
      m.received)
    (hqueue : ∀ id e, m.entries.get? id = some e → m.isCurrent id e = true → e.accountId = accountId →
      ∀ r ∈ receiptsOf e.queue, write.receipt < r) : (m.enqueue accountId write).Inv := by
  have hcaused : ∀ a, causedOf a (m.log ++ [.caused accountId write]) =
      causedOf a m.log ++ if accountId = a then [write] else [] := by
    intro a
    rw [causedOf_snoc]
    unfold SessionWriteEntry.caused?
    simp only
    split_ifs <;> rfl
  have hstarted : ∀ a, startedOf a (m.log ++ [.caused accountId write]) = startedOf a m.log := fun a =>
    (startedOf_snoc a m.log _).trans (List.append_nil _)
  have hended : ∀ a, endedOf a (m.log ++ [.caused accountId write]) = endedOf a m.log := fun a =>
    (endedOf_snoc a m.log _).trans (List.append_nil _)
  have hold : ∀ a, ∀ w ∈ causedOf a (m.log ++ [.caused accountId write]),
      w ∈ causedOf a m.log ∨ (accountId = a ∧ w = write) := by
    intro a w hw
    rw [hcaused] at hw
    rcases List.mem_append.mp hw with hw | hw
    · exact .inl hw
    · split_ifs at hw with hk
      · exact .inr ⟨hk, List.mem_singleton.mp hw⟩
      · exact absurd hw List.not_mem_nil
  have hadded : SessionWriter.Inv { m with
      queues := m.queues.set accountId
        { m.queueOf accountId with tasks := (m.queueOf accountId).tasks ++ [write] }
      log := m.log ++ [.caused accountId write] } := by
    refine ⟨h.fresh, h.owner, h.entries, ?_, ?_, ?_, ?_, fun a => ?_, h.stopped, h.log.snoc huser, ?_⟩
    · intro id e he hcur hver
      obtain ⟨user, hheard, hmem⟩ := h.verified id e he hcur hver
      exact ⟨user, hheard, List.mem_append_left _ hmem⟩
    · intro id e he hcur
      obtain ⟨hascending, hbelow⟩ := h.receipts id e he hcur
      refine ⟨hascending, fun r hr => ⟨(hbelow r hr).1, fun w hw => ?_⟩⟩
      rcases hold e.accountId w hw with hw | ⟨hk, rfl⟩
      · exact (hbelow r hr).2 w hw
      · exact hqueue id e he hcur hk.symm r hr
    · intro a w hw
      rcases hold a w hw with hw | ⟨-, rfl⟩
      · exact h.below a w hw
      · exact hreceived
    · intro a
      show ((causedOf a (m.log ++ _)).map SessionWrite.receipt).Pairwise _
      rw [hcaused]
      split_ifs with hk
      · subst hk
        rw [List.map_append, List.pairwise_append]
        refine ⟨h.ascending accountId, List.pairwise_singleton _ _, fun r hr r' hr' => ?_⟩
        obtain ⟨w, hw, rfl⟩ := List.mem_map.mp hr
        rw [List.mem_singleton.mp hr']
        exact hnew w hw
      · rw [List.append_nil]
        exact h.ascending a
    · have ha := h.writes a
      have hq := @queueOf_set m accountId a
        { m.queueOf accountId with tasks := (m.queueOf accountId).tasks ++ [write] }
          (m.log ++ [.caused accountId write])
      have hall := ha.all hrunning
      have hsame : (if accountId = a then { m.queueOf accountId with tasks := (m.queueOf accountId).tasks ++ [write] }
          else m.queueOf a).running = (m.queueOf a).running := by
        split_ifs with hk
        · rw [hk]
        · rfl
      have htasks : startedOf a m.log ++ (if accountId = a then
          { m.queueOf accountId with tasks := (m.queueOf accountId).tasks ++ [write] } else m.queueOf
            a).tasks =
          causedOf a m.log ++ if accountId = a then [write] else [] := by
        split_ifs with hk
        · rw [← hall, hk, List.append_assoc]
        · rw [List.append_nil]
          exact hall
      refine ⟨?_, ?_, fun _ => ?_⟩
      · rw [hq, hsame]
        show startedOf a (m.log ++ _) = endedOf a (m.log ++ _) ++ _
        rw [hstarted, hended]
        exact ha.running
      · rw [hq]
        show startedOf a (m.log ++ _) ++ _ <+: causedOf a (m.log ++ _)
        rw [hstarted, hcaused, htasks]
      · rw [hq]
        show startedOf a (m.log ++ _) ++ _ = causedOf a (m.log ++ _)
        rw [hstarted, hcaused, htasks]
    · intro x hx
      rcases List.mem_append.mp hx with hx | hx
      · exact h.identity x hx
      · cases List.mem_singleton.mp hx
        exact hentry
  obtain ⟨hpumped, hsame⟩ := QueuesOk.pump ⟨hadded.writes, hadded.log⟩ accountId
  exact hadded.same hsame hpumped

/-- The match of a connection's user data, logged. -/
theorem SessionWriter.Inv.matched (h : m.Inv) {user : SessionWrite}
    (huser : ∃ e, m.entries.get? user.conn.entry = some e ∧ user.event = .userData e.brokerUserId) :
    ({ m with log := m.log ++ [.matched user] } : SessionWriter).Inv := by
  have hcaused : ∀ a, causedOf a (m.log ++ [.matched user]) = causedOf a m.log := fun a =>
    (causedOf_snoc a m.log _).trans (List.append_nil _)
  have hstarted : ∀ a, startedOf a (m.log ++ [.matched user]) = startedOf a m.log := fun a =>
    (startedOf_snoc a m.log _).trans (List.append_nil _)
  have hended : ∀ a, endedOf a (m.log ++ [.matched user]) = endedOf a m.log := fun a =>
    (endedOf_snoc a m.log _).trans (List.append_nil _)
  have hnew : ∀ x ∈ m.log ++ [.matched user], x ∉ m.log → IdentityOk m.entries x := by
    intro x hx hnot
    rcases List.mem_append.mp hx with hold | hlast
    · exact absurd hold hnot
    · cases List.mem_singleton.mp hlast
      exact huser
  refine h.same ⟨fun _ => rfl, rfl, rfl, rfl, rfl, hcaused, fun _ hx => List.mem_append_left _ hx, hnew⟩
    ⟨fun a => ⟨?_, ?_, fun hs => ?_⟩, h.log.snoc trivial⟩
  · show startedOf a (m.log ++ _) = endedOf a (m.log ++ _) ++ _
    rw [hstarted, hended]
    exact (h.writes a).running
  · show startedOf a (m.log ++ _) ++ _ <+: causedOf a (m.log ++ _)
    rw [hstarted, hcaused]
    exact (h.writes a).tasks
  · show startedOf a (m.log ++ _) ++ _ = causedOf a (m.log ++ _)
    rw [hstarted, hcaused]
    exact (h.writes a).all hs

/-- **A change of state heard**: a new connection is to be verified, and a closed one ends the session. -/
theorem SessionWriter.Inv.heardState (h : m.Inv) {id : ℕ} {e : SessionEntry} {toState : BrokerSocketState}
    {conn : Option ConnectionTag} {queue : List SocketDelivery} (he : m.entries.get? id = some e)
    (hqueue : e.queue = .state toState conn :: queue) (hcur : m.isCurrent id e = true) :
    let e' : SessionEntry := { e with queue, heard := if toState = .authenticating then conn else e.heard }
    ((m.setEntry id e').onState id e' toState).Inv := by
  intro e'
  have hok : e'.Ok id := by
    obtain ⟨hevents, hown, hconnection⟩ := h.entries id e he
    rw [hqueue] at hevents hown hconnection
    exact ⟨hevents, fun write hmem => hown write (List.mem_cons_of_mem _ hmem), hconnection⟩
  have hreceipts : (receiptsOf e'.queue).Sublist (receiptsOf e.queue) := by
    rw [hqueue]
    exact List.Sublist.refl _
  have hcleared : ((m.setEntry id e').setEntry id { e' with verified := false }).Inv := by
    have hset : (m.setEntry id { e' with verified := false }).Inv :=
      h.setEntry he rfl rfl ⟨hok.events, hok.own, hok.connection⟩
        (fun _ hver => absurd hver Bool.false_ne_true) hreceipts
    refine hset.same ⟨fun id' => ?_, rfl, rfl, rfl, rfl, fun _ => rfl, fun _ hx => hx,
      fun _ hx hnot => absurd hx hnot⟩ ⟨fun a => ?_, h.log⟩
    · show ((m.entries.set id e').set id { e' with verified := false }).get? id' =
        (m.entries.set id { e' with verified := false }).get? id'
      rw [OrderedMap.get?_set, OrderedMap.get?_set, OrderedMap.get?_set]
      split_ifs <;> rfl
    · exact ⟨(h.writes a).running, (h.writes a).tasks, (h.writes a).all⟩
  have hkept : toState ≠ .authenticating → (m.setEntry id e').Inv := by
    intro hstate
    refine h.setEntry he rfl rfl hok (fun _ hver => ?_) hreceipts
    obtain ⟨user, hheard, hmem⟩ := h.verified id e he hcur hver
    refine ⟨user, ?_, hmem⟩
    show (if toState = .authenticating then conn else e.heard) = _
    rw [if_neg hstate]
    exact hheard
  unfold SessionWriter.onState
  cases toState with
  | connecting => exact hcleared
  | reconnecting => exact hcleared
  | authenticating => exact hcleared
  | idle => exact hcleared
  | tokenExpired => exact hcleared
  | authFailed => exact hcleared
  | disconnectedByServer => exact (hkept (by decide)).drop e'.accountId
  | ready => exact hkept (by decide)

/-- **An event heard** of the current entry: its connection is the one last heard of. -/
theorem SessionWriter.Inv.heardEvent (h : m.Inv) {id : ℕ} {e : SessionEntry} {write : SessionWrite}
    {queue : List SocketDelivery} (he : m.entries.get? id = some e) (hqueue : e.queue = .event write ::
      queue)
    (hset : (m.setEntry id { e with queue }).Inv) (hcur : m.isCurrent id e = true) :
    ((m.setEntry id { e with queue }).onEvent id { e with queue } write).Inv := by
  obtain ⟨hevents, hown, -⟩ := h.entries id e he
  obtain ⟨hascending, hbelow⟩ := h.receipts id e he hcur
  rw [hqueue] at hevents hown hascending hbelow
  obtain ⟨hreceived, hnew⟩ := hbelow write.receipt (List.mem_cons_self ..)
  have hfirst : ∀ r ∈ receiptsOf queue, write.receipt < r := (List.pairwise_cons.mp hascending).1
  have hentry : write.conn.entry = id := hown write (List.mem_cons_self ..)
  have hrunning : m.stopping = false := by
    cases hs : m.stopping with
    | false => rfl
    | true => exact absurd ((h.stopped hs _).symm.trans (of_decide_eq_true hcur)) (by simp)
  have honly : ∀ {e' : SessionEntry}, e'.queue = queue → ∀ id' e'', (m.entries.set id e').get? id' =
    some e'' →
      m.isCurrent id' e'' = true → e''.accountId = e.accountId → ∀ r ∈ receiptsOf e''.queue,
        write.receipt < r := by
    intro e' he' id' e'' hget hcur' hacc
    have hid := of_decide_eq_true hcur'
    rw [hacc, of_decide_eq_true hcur] at hid
    cases hid
    rw [OrderedMap.get?_set, if_pos rfl] at hget
    cases hget
    rw [he']
    exact hfirst
  have hverified : e.verified = true → ((m.setEntry id { e with queue }).enqueue e.accountId
    write).Inv := by
    intro hver
    obtain ⟨user, hheard, hmem⟩ := h.verified id e he hcur hver
    refine hset.enqueue hrunning ⟨user, hmem, ?_⟩ ⟨{ e with queue }, ?_, rfl⟩ hnew hreceived (honly rfl)
    · exact Option.some.inj (hheard.symm.trans hevents.1)
    · rw [hentry]
      show (m.entries.set id _).get? id = _
      rw [OrderedMap.get?_set, if_pos rfl]
  unfold SessionWriter.onEvent
  cases hevent : write.event with
  | userData brokerUserId =>
    simp only
    split_ifs with huser
    · have hown' : (m.entries.set id { e with queue }).get? write.conn.entry = some { e with queue } := by
        rw [hentry, OrderedMap.get?_set, if_pos rfl]
      have hmatched := @SessionWriter.Inv.matched _ hset write ⟨_, hown', by rw [hevent, huser]⟩
      have he' : SessionWriter.Inv
          { (m.setEntry id { e with queue }).setEntry id { e with queue, verified := true } with
            log := m.log ++ [.matched write] } := by
        refine @SessionWriter.Inv.setEntry _ hmatched id { e with queue }
          { e with queue, verified := true } ?_ rfl rfl ?_ ?_ ?_
        · exact hentry ▸ hown'
        · obtain ⟨hevents', hown'', hconnection⟩ := hset.entries id { e with queue } (hentry ▸ hown')
          exact ⟨hevents', hown'', hconnection⟩
        · exact fun _ _ => ⟨write, hevents.1, List.mem_append_right _ (List.mem_singleton_self _)⟩
        · exact List.Sublist.refl _
      refine he'.enqueue hrunning ⟨write, List.mem_append_right _ (List.mem_singleton_self _), rfl⟩
        ⟨{ e with queue, verified := true }, ?_, rfl⟩ ?_ hreceived ?_
      · rw [hentry]
        show ((m.entries.set id _).set id _).get? id = _
        rw [OrderedMap.get?_set, if_pos rfl]
      · intro old hold
        have hsame : causedOf e.accountId (m.log ++ [.matched write]) = causedOf e.accountId m.log :=
          (causedOf_snoc e.accountId m.log _).trans (List.append_nil _)
        exact hnew old (hsame ▸ hold)
      · intro id' e'' hget hcur' hacc
        refine @honly { e with queue, verified := true } rfl id' e'' ?_ hcur' hacc
        have hget' : ((m.entries.set id { e with queue }).set id { e with queue, verified := true }).get? id' = some e'' :=
          hget
        rw [OrderedMap.get?_set, OrderedMap.get?_set] at hget'
        rw [OrderedMap.get?_set]
        split_ifs at hget' ⊢
        · exact hget'
        · exact hget'
    · exact hset.drop e.accountId
  | balanceUpdate mode =>
    simp only
    split_ifs with hver
    · exact hverified hver
    · exact hset
  | closeTradeSuccess mode =>
    simp only
    split_ifs with hver
    · exact hverified hver
    · exact hset

theorem SessionWriter.Inv.deliver (h : m.Inv) (id : ℕ) : (m.deliver id).Inv := by
  unfold SessionWriter.deliver
  cases he : m.entries.get? id with
  | none => exact h
  | some e =>
    simp only
    have hok := h.entries id e he
    cases hqueue : e.queue with
    | nil => exact h
    | cons d queue =>
      obtain ⟨hevents, hown, hconnection⟩ := hok
      rw [hqueue] at hevents hown hconnection
      cases d with
      | state toState conn =>
        show (if m.isCurrent id e = true then (m.setEntry id _).onState id _ toState else m.setEntry id
          _).Inv
        by_cases hcur : m.isCurrent id e = true
        · rw [if_pos hcur]
          exact h.heardState he hqueue hcur
        · rw [if_neg hcur]
          refine h.setEntry he rfl rfl ⟨hevents, fun write hmem =>
            hown write (List.mem_cons_of_mem _ hmem), hconnection⟩
            (fun hcur' => absurd hcur' hcur) ?_
          rw [hqueue]
          exact List.Sublist.refl _
      | event write =>
        simp only
        have hset : (m.setEntry id { e with queue }).Inv := by
          refine h.setEntry he rfl rfl ⟨hevents.2, fun write' hmem =>
            hown write' (List.mem_cons_of_mem _ hmem),
            hconnection⟩ (fun hcur hver => h.verified id e he hcur hver) ?_
          rw [hqueue]
          exact List.sublist_cons_self _ _
        split_ifs with hcur
        · exact h.heardEvent he hqueue hset hcur.1
        · exact hset

/-- **The stop** of the manager forgets every entry and the writes that wait. -/
theorem SessionWriter.Inv.stop (h : m.Inv) : m.stop.Inv := by
  have hget : ∀ id, m.stop.entries.get? id =
      (m.entries.get? id).map (fun e => if m.isCurrent id e then e.step id .stop else e) := fun id =>
    OrderedMap.get?_mapVal _ _ _
  have hqueue : ∀ a, m.stop.queueOf a = { m.queueOf a with tasks := [] } := by
    intro a
    unfold SessionWriter.queueOf
    show ((m.queues.mapVal _).get? a).getD {} = _
    rw [OrderedMap.get?_mapVal]
    cases m.queues.get? a <;> rfl
  have hnone : ∀ id e, ¬ m.stop.isCurrent id e = true := by
    intro id e hcur
    cases of_decide_eq_true hcur
  have hentry : ∀ id e, m.stop.entries.get? id = some e → ∃ old, m.entries.get? id = some old ∧
    e.Ok id := by
    intro id e he
    rw [hget] at he
    obtain ⟨old, hold, rfl⟩ := Option.map_eq_some_iff.mp he
    refine ⟨old, hold, ?_⟩
    split_ifs
    · exact (h.entries id old hold).step .stop
    · exact h.entries id old hold
  refine ⟨?_, ?_, ?_, ?_, ?_, h.below, h.ascending, fun a => ⟨?_, ?_, fun hs => ?_⟩, fun _ _ => rfl,
    h.log, ?_⟩
  · intro id e he
    obtain ⟨old, hold, -⟩ := hentry id e he
    exact h.fresh id old hold
  · intro a id hcur
    cases hcur
  · intro id e he
    obtain ⟨-, -, hok⟩ := hentry id e he
    exact hok
  · exact fun id e _ hcur => absurd hcur (hnone id e)
  · exact fun id e _ hcur => absurd hcur (hnone id e)
  · rw [hqueue]
    exact (h.writes a).running
  · rw [hqueue]
    show startedOf a m.log ++ [] <+: causedOf a m.log
    rw [List.append_nil]
    exact (List.prefix_append _ _).trans (h.writes a).tasks
  · exact absurd hs.symm Bool.false_ne_true
  · intro x hx
    refine (h.identity x hx).mono (fun id e he => ⟨if m.isCurrent id e then e.step id .stop else
      e, ?_, ?_, ?_⟩)
    · rw [hget, he, Option.map_some]
    · split_ifs <;> rfl
    · split_ifs <;> rfl

theorem SessionWriter.Inv.start : ({} : SessionWriter).Inv := by
  refine ⟨fun _ _ he => ?_, fun _ _ hcur => ?_, fun _ _ he => ?_, fun _ _ he => ?_, fun _ _ he => ?_,
    fun _ _ hw => ?_,
    fun _ => List.Pairwise.nil, fun _ => ⟨rfl, List.prefix_refl _, fun _ => rfl⟩, fun hs => ?_,
      LogOk.nil, fun _ hx => ?_⟩
  · cases he
  · cases hcur
  · cases he
  · cases he
  · cases he
  · exact absurd hw List.not_mem_nil
  · exact absurd hs Bool.false_ne_true
  · exact absurd hx List.not_mem_nil

theorem SessionWriter.Inv.act (h : m.Inv) (a : SessionWriteAct) : (m.act a).Inv := by
  cases a with
  | openSession accountId brokerUserId => exact h.openSession accountId brokerUserId
  | drop accountId => exact h.drop accountId
  | restart accountId => exact h.restart accountId
  | client id event => exact h.clientStep id event
  | hears id n event => exact h.hears id n event
  | deliver id => exact h.deliver id
  | writeEnds accountId => exact h.writeEnds accountId
  | stop => exact h.stop

end Writes

/-- The manager once it has acted. -/
def SessionWriter.run (acts : List SessionWriteAct) : SessionWriter := acts.foldl SessionWriter.act {}

theorem SessionWriter.run_inv (acts : List SessionWriteAct) : (SessionWriter.run acts).Inv := by
  have hrun : ∀ m : SessionWriter, m.Inv → (acts.foldl SessionWriter.act m).Inv := by
    induction acts with
    | nil => exact fun m h => h
    | cons a acts ih => exact fun m h => ih _ (h.act a)
  exact hrun {} SessionWriter.Inv.start

/-- **Session writes keep order and identity**: the writes of an account start in the order its events
were received, each once the one before it has ended; an event causes one after user data of its
connection that is of the account's broker user, and only for the account whose session the connection
is of. -/
theorem session_writes (acts : List SessionWriteAct) :
    let m := SessionWriter.run acts
    (∀ accountId, startedOf accountId m.log <+: causedOf accountId m.log ∧
      ((causedOf accountId m.log).map SessionWrite.receipt).Pairwise (· < ·) ∧
      (endedOf accountId m.log <+: startedOf accountId m.log)) ∧
    LogOk SessionWriteEntryOk m.log ∧ ∀ x ∈ m.log, IdentityOk m.entries x := by
  intro m
  have h : m.Inv := SessionWriter.run_inv acts
  refine ⟨fun accountId => ⟨?_, h.ascending accountId, ?_⟩, h.log, h.identity⟩
  · exact (List.prefix_append _ _).trans (h.writes accountId).tasks
  · rw [(h.writes accountId).running]
    exact List.prefix_append _ _

/-- An update that waits behind the user data: it is heard after it, and written after it. -/
example :
    let m := SessionWriter.run [.openSession 3 7, .client 0 (.connect 0), .hears 0 0 (.userData 7),
      .hears 0 0 (.balanceUpdate .demo), .deliver 0, .deliver 0, .deliver 0, .deliver 0, .writeEnds 3]
    (startedOf 3 m.log).map SessionWrite.receipt = [0, 1] ∧ (endedOf 3 m.log).map SessionWrite.receipt =
      [0] := by
  decide +kernel

end Binarius
