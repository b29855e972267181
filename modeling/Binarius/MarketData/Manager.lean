import Mathlib.Tactic
import Binarius.Lib.OrderedMap
import Binarius.Signal.Ticks
import Binarius.BrokerSocket.Socket

/-!
# MarketData.Manager — the two clients of the market data socket (apps/backend/src/market-data/manager.ts)

* `MarketSlot`: the active and the reserve: empty, waiting for a token, or with a running client.
* `vacate`, `promote`, `startJob`, `reconcile`: the manager's own steps.
* `onState`, `onEvent`: what a client's listeners do.
* `MarketManager.act`: **one event**; a client's `start` is cut in its callbacks and its end, and nothing
  else runs between them.

A state of a client and its notification are one event: each handler of the socket changes the state once,
and notifies when it is done (packages/broker-socket/src/socket.ts).
-/

namespace Binarius

open Lib

structure MarketDataAccount where
  id : String
  brokerUserId : String
  deriving DecidableEq, Repr

inductive MarketRole
  | active
  | reserve
  deriving DecidableEq, Repr

/-- An opened client, with what its slot keeps of it. -/
structure MarketLive where
  account : MarketDataAccount
  token : String
  /-- the start of the current period out of ready -/
  since : Option ℕ
  state : BrokerSocketState
  connections : ℕ
  subscriptions : List ℕ
  detached : Bool
  stopped : Bool
  deriving DecidableEq, Repr

/-- Waits on a token; `id` is the object's identity. -/
structure MarketJob where
  id : ℕ
  account : MarketDataAccount
  since : ℕ
  deriving DecidableEq, Repr

/-- A running client is told by its place among the opened ones. -/
inductive MarketSlot
  | empty
  | starting (job : MarketJob)
  | running (live : ℕ)
  deriving DecidableEq, Repr

namespace MarketSlot

variable (lives : List MarketLive)

def accountOf : MarketSlot → Option MarketDataAccount
  | .empty => none
  | .starting job => some job.account
  | .running live => lives[live]?.map MarketLive.account

def IsReady : MarketSlot → Prop
  | .running live => lives[live]?.map MarketLive.state = some .ready
  | _ => False

instance (slot : MarketSlot) : Decidable (slot.IsReady lives) :=
  match slot with
  | .running live => inferInstanceAs (Decidable (lives[live]?.map MarketLive.state = some .ready))
  | .empty => inferInstanceAs (Decidable False)
  | .starting _ => inferInstanceAs (Decidable False)

def sinceOf : MarketSlot → Option ℕ
  | .empty => none
  | .starting job => some job.since
  | .running live => lives[live]?.bind MarketLive.since

end MarketSlot

/-- A tick that reached the ring, the tick store and the seconds. -/
structure FeedTick where
  live : ℕ
  connection : ℕ
  /-- the active slot's client at the push -/
  active : Option ℕ
  assetId : ℕ
  digits : ℕ
  tick : Tick
  receivedAtMs : ℕ
  deriving DecidableEq

inductive FeedEntry
  /-- `onDrop` of the three -/
  | drop
  | push (tick : FeedTick)
  deriving DecidableEq

structure TokenRequest where
  role : MarketRole
  job : MarketJob
  refusedToken : Option String
  deriving DecidableEq, Repr

/-- The clock and the catalog at a moment; `none`: not fresh. -/
structure MarketReading where
  now : ℕ
  catalog : Option (List (ℕ × ℤ))
  deriving DecidableEq, Repr

structure MarketDataConfig where
  failoverGraceMs : ℕ
  reserveReadyMs : ℕ
  accountRetryMs : ℕ
  deriving DecidableEq, Repr

/-- A client whose `start` has not returned. -/
structure MarketStart where
  live : ℕ
  role : MarketRole
  job : MarketJob
  deriving DecidableEq, Repr

structure MarketManager where
  active : MarketSlot
  reserve : MarketSlot
  /-- every client that was opened -/
  lives : List MarketLive
  /-- account id → when it may be tried again -/
  held : String → Option ℕ
  /-- account id → hash of the token the broker refused, until a start reports it -/
  refused : String → Option String
  lastRefusal : String → Option ℕ
  order : List MarketDataAccount
  digitsById : OrderedMap ℕ ℕ
  catalogFresh : Bool
  nextJob : ℕ
  requests : List TokenRequest
  deadline : Option ℕ
  opening : Option MarketStart
  stopped : Bool
  /-- newest first -/
  feed : List FeedEntry

namespace MarketManager

def start : MarketManager where
  active := .empty
  reserve := .empty
  lives := []
  held _ := none
  refused _ := none
  lastRefusal _ := none
  order := []
  digitsById := OrderedMap.empty
  catalogFresh := false
  nextJob := 0
  requests := []
  deadline := none
  opening := none
  stopped := false
  feed := []

variable (s : MarketManager)

def slot : MarketRole → MarketSlot
  | .active => s.active
  | .reserve => s.reserve

def setSlot (role : MarketRole) (slot : MarketSlot) : MarketManager :=
  match role with
  | .active => { s with active := slot }
  | .reserve => { s with reserve := slot }

def modifyLive (live : ℕ) (f : MarketLive → MarketLive) : MarketManager :=
  { s with lives := s.lives.modify live f }

def roleOf (live : ℕ) : Option MarketRole :=
  if s.active = .running live then some .active
  else if s.reserve = .running live then some .reserve
  else none

def isHeld (now : ℕ) (accountId : String) : Prop := now < (s.held accountId).getD 0

instance (now : ℕ) (accountId : String) : Decidable (s.isHeld now accountId) :=
  inferInstanceAs (Decidable (_ < _))

def holdBack (config : MarketDataConfig) (now : ℕ) (accountId : String) : MarketManager :=
  { s with held := Function.update s.held accountId (some (now + config.accountRetryMs)) }

/-- The accounts a role may start on: listed, not held back, not in the other slot. -/
def candidates (now : ℕ) : MarketRole → List MarketDataAccount
  | .active => s.order.filter (fun account =>
      (s.reserve.accountOf s.lives).map MarketDataAccount.id ≠ some account.id ∧
        ¬ s.isHeld now account.id)
  | .reserve => s.order.filter (fun account =>
      (s.active.accountOf s.lives).map MarketDataAccount.id ≠ some account.id ∧
        ¬ s.isHeld now account.id)

/-- A pair whose digits a builder would refuse is not subscribed. -/
def readPair (next : OrderedMap ℕ ℕ) (pair : ℕ × ℤ) : OrderedMap ℕ ℕ :=
  match assertDigits pair.2 with
  | some digits => next.set pair.1 digits
  | none => next

def readCatalog (view : Option (List (ℕ × ℤ))) : MarketManager :=
  match view with
  | none => { s with catalogFresh := false }
  | some pairs => { s with digitsById := pairs.foldl readPair OrderedMap.empty, catalogFresh := true }

/-- The fresh catalog's ids the client has not. -/
def subscribeNew (live : ℕ) : MarketManager :=
  if s.catalogFresh = true then
    s.modifyLive live (fun l =>
      { l with subscriptions := l.subscriptions ++ s.digitsById.keys.filter (fun id => id ∉ l.subscriptions) })
  else s

/-- `onDrop` of the ring, the seconds and the tick store. -/
def onDrop : MarketManager := { s with feed := .drop :: s.feed }

/-- `detach` and the client's `stop`. -/
def detachAndStop (live : ℕ) : MarketManager :=
  s.modifyLive live (fun l => { l with detached := true, stopped := true, state := .idle })

def drop (role : MarketRole) : MarketManager :=
  match s.slot role with
  | .running live => (s.setSlot role .empty).detachAndStop live
  | _ => s.setSlot role .empty

/-- The holes of the active's ticks, and the slot left. -/
def leave (role : MarketRole) : MarketManager :=
  (if role = .active ∧ (s.slot role).IsReady s.lives then s.onDrop else s).drop role

def vacate (config : MarketDataConfig) (now : ℕ) (role : MarketRole) (hold : Bool) : MarketManager :=
  match (s.slot role).accountOf s.lives with
  | none => s
  | some account =>
    if hold then (s.leave role).holdBack config now account.id else s.leave role

def startJob (now : ℕ) (role : MarketRole) (account : MarketDataAccount) : MarketManager :=
  let job : MarketJob := ⟨s.nextJob, account, now⟩
  { s.setSlot role (.starting job) with
    nextJob := s.nextJob + 1
    refused := Function.update s.refused account.id none
    requests := s.requests ++ [⟨role, job, s.refused account.id⟩] }

variable (config : MarketDataConfig)

def promote (now : ℕ) : MarketManager :=
  match s.reserve with
  | .running live =>
    let vacated := s.vacate config now .active false
    { vacated with active := .running live, reserve := .empty }.subscribeNew live
  | _ => s

/-- One timer, at the nearest deadline. -/
def armDeadline (now : ℕ) : MarketManager :=
  let deadlines := ((s.active.sinceOf s.lives).map (fun since => since + config.failoverGraceMs)).toList ++
    ((s.reserve.sinceOf s.lives).map (fun since => since + config.reserveReadyMs)).toList
  { s with deadline := (deadlines.filter (fun deadline => now < deadline)).min? }

/-- R1: a slot whose account left the list is vacated. -/
def vacateUnlisted (now : ℕ) (role : MarketRole) : MarketManager :=
  match (s.slot role).accountOf s.lives with
  | some account =>
    if ∀ listed ∈ s.order, listed.id ≠ account.id then s.vacate config now role false else s
  | none => s

/-- R2: a reserve not ready for long gives way when another account can take it. -/
def vacateLate (now : ℕ) : MarketManager :=
  match s.reserve.sinceOf s.lives with
  | some since =>
    if ¬ s.reserve.IsReady s.lives ∧ since + config.reserveReadyMs ≤ now ∧
        ∃ account ∈ s.candidates now .reserve,
          (s.reserve.accountOf s.lives).map MarketDataAccount.id ≠ some account.id then
      s.vacate config now .reserve true
    else s
  | none => s

/-- R3: a ready reserve becomes the active. -/
def promoteReady (now : ℕ) : MarketManager :=
  if s.reserve.IsReady s.lives ∧ ¬ s.active.IsReady s.lives ∧
      (s.active = .empty ∨ ∃ since ∈ s.active.sinceOf s.lives, since + config.failoverGraceMs ≤ now) then
    s.promote config now
  else s

/-- R4, R5: an empty slot starts on its first candidate. -/
def startEmpty (now : ℕ) (role : MarketRole) : MarketManager :=
  if s.slot role = .empty then
    match s.candidates now role with
    | account :: _ => s.startJob now role account
    | [] => s
  else s

/-- R6: the active subscribes the catalog's new ids. -/
def subscribeActive : MarketManager :=
  match s.active with
  | .running live => s.subscribeNew live
  | _ => s

def reconcile (reading : MarketReading) : MarketManager :=
  if s.stopped = true then s
  else
    let s := s.readCatalog reading.catalog
    let s := s.vacateUnlisted config reading.now .active
    let s := s.vacateUnlisted config reading.now .reserve
    let s := s.vacateLate config reading.now
    let s := s.promoteReady config reading.now
    let s := s.startEmpty reading.now .active
    let s := s.startEmpty reading.now .reserve
    s.subscribeActive.armDeadline config reading.now

variable (hashToken : String → String)

/-- The listener's first part: the period out of ready, and the holes. -/
def noteState (now live : ℕ) (role : MarketRole) (before after : BrokerSocketState) : MarketManager :=
  if after = .ready then s.modifyLive live (fun l => { l with since := none })
  else if before = .ready then
    let noted := s.modifyLive live (fun l => { l with since := some now })
    if role = .active then noted.onDrop else noted
  else s

/-- Its second part: what the broker refused or ended. -/
def noteEnd (now live : ℕ) (role : MarketRole) (after : BrokerSocketState) : MarketManager :=
  if after = .disconnectedByServer then s.vacate config now role true
  else if after = .tokenExpired ∨ after = .authFailed then
    match s.lives[live]? with
    | some l =>
      -- the first refusal in the window costs one start; a second one holds the account back
      let repeated := match s.lastRefusal l.account.id with
        | some last => decide (now < last + config.accountRetryMs)
        | none => false
      { s with
        lastRefusal := Function.update s.lastRefusal l.account.id (some now)
        refused := Function.update s.refused l.account.id (some (hashToken l.token)) }.vacate
          config now role repeated
    | none => s
  else s

def onState (reading : MarketReading) (live : ℕ) (before after : BrokerSocketState) : MarketManager :=
  match s.roleOf live with
  | none => s
  | some role =>
    ((s.noteState reading.now live role before after).noteEnd config hashToken reading.now live role
      after).reconcile config reading

/-- The client's own change of state. -/
def changeState (live : ℕ) (after : BrokerSocketState) : MarketManager :=
  s.modifyLive live (fun l =>
    { l with state := after, connections := if after = .ready then l.connections + 1 else l.connections })

inductive MarketEvent
  | priceUpdate (assetId : ℕ) (tick : Tick)
  | userData (userId : String)
  | other

def MarketEvent.isPrice : MarketEvent → Bool
  | .priceUpdate _ _ => true
  | _ => false

def onEvent (reading : MarketReading) (live : ℕ) (event : MarketEvent) : MarketManager :=
  match s.roleOf live, s.lives[live]? with
  | some role, some l =>
    match event with
    | .priceUpdate assetId tick =>
      if role = .active then
        match s.digitsById.get? assetId with
        | some digits =>
          { s with feed := .push ⟨live, l.connections, match s.active with
              | .running active => some active
              | _ => none, assetId, digits, tick, reading.now⟩ :: s.feed }
        | none => s
      else s
    | .userData userId =>
      if userId = l.account.brokerUserId then s
      else (s.vacate config reading.now role true).reconcile config reading
    | .other => s
  | _, _ => s

/-- What `accessToken` answers, and then `openClient`. -/
inductive MarketToken
  /-- it threw, or was refused -/
  | refused
  | token (token : String) (opened : Bool)

/-- The client in its slot, `start` to be called. -/
def openLive (reading : MarketReading) (role : MarketRole) (job : MarketJob) (token : String) :
    MarketManager :=
  let live := s.lives.length
  let opened := { s.setSlot role (.running live) with
    lives := s.lives ++ [⟨job.account, token, some job.since, .idle, 0, [], false, false⟩]
    opening := some ⟨live, role, job⟩ }
  if role = .active then (opened.readCatalog reading.catalog).subscribeNew live else opened

/-- A start that threw: wherever its client is by now, it leaves. -/
def startThrew (now : ℕ) (opening : MarketStart) : MarketManager :=
  let left := match s.roleOf opening.live with
    | some role => s.setSlot role .empty
    | none => s
  let ended := left.detachAndStop opening.live
  let cleared := if ended.slot opening.role = .starting opening.job then ended.setSlot opening.role .empty
    else ended
  cleared.holdBack config now opening.job.account.id

inductive Act
  | listed (accounts : List MarketDataAccount) (reading : MarketReading)
  | answer (index : ℕ) (answer : MarketToken) (reading : MarketReading)
  | state (live : ℕ) (after : BrokerSocketState) (reading : MarketReading)
  | event (live : ℕ) (event : MarketEvent) (reading : MarketReading)
  | returned (reading : MarketReading)
  | threw (reading : MarketReading)
  | deadline (reading : MarketReading)
  | stop

/-- While a client's `start` runs, only that client is heard. -/
def Heard (live : ℕ) : Prop := ∀ opening ∈ s.opening, opening.live = live

instance (live : ℕ) : Decidable (s.Heard live) :=
  match h : s.opening with
  | none => isTrue (fun opening hopening => by rw [h] at hopening; cases hopening)
  | some opening =>
    decidable_of_iff (opening.live = live)
      ⟨fun heq opening' hopening' => by
        rw [h] at hopening'
        injection hopening' with hopening'
        rw [← hopening']
        exact heq, fun hall => hall opening h⟩

/-- One event; what is not enabled changes nothing.  A price comes only from a ready client, and a
`start` throws only before its socket has connected. -/
def act (s : MarketManager) : Act → MarketManager
  | .listed accounts reading =>
    if s.opening = none then
      { s with
        order := accounts
        held := fun id => (s.held id).filter (fun retryAt => reading.now < retryAt)
        lastRefusal := fun id => (s.lastRefusal id).filter (fun refusedAt =>
          reading.now < refusedAt + config.accountRetryMs) }.reconcile config reading
    else s
  | .answer index answer reading =>
    match s.opening, s.requests[index]? with
    | none, some request =>
      let asked := { s with requests := s.requests.eraseIdx index }
      if asked.slot request.role = .starting request.job then
        match answer with
        | .token token true => asked.openLive reading request.role request.job token
        | _ =>
          ((asked.holdBack config reading.now request.job.account.id).setSlot request.role
            .empty).reconcile config reading
      else asked
    | _, _ => s
  | .state live after reading =>
    match s.lives[live]? with
    | some l =>
      if s.Heard live ∧ l.state ≠ after then
        let changed := s.changeState live after
        if l.detached then changed else changed.onState config hashToken reading live l.state after
      else s
    | none => s
  | .event live event reading =>
    match s.lives[live]? with
    | some l =>
      if s.Heard live ∧ l.detached = false ∧ (event.isPrice = true → l.state = .ready) then
        s.onEvent config reading live event
      else s
    | none => s
  | .returned reading =>
    match s.opening with
    | some _ => { s with opening := none }.reconcile config reading
    | none => s
  | .threw reading =>
    match s.opening with
    | some opening =>
      if ∃ l ∈ s.lives[opening.live]?, l.state = .idle ∨ l.state = .connecting then
        ({ s with opening := none }.startThrew config reading.now opening).reconcile config reading
      else s
    | none => s
  | .deadline reading =>
    if s.opening = none ∧ ∃ deadline ∈ s.deadline, deadline ≤ reading.now then
      { s with deadline := none }.reconcile config reading
    else s
  | .stop =>
    if s.opening = none then
      let ended := { s with stopped := true, deadline := none }
      (ended.drop .active).drop .reserve
    else s

end MarketManager

end Binarius
