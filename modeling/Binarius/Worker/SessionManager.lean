import Mathlib.Data.List.AList
import Mathlib.Tactic
import Binarius.Db.SessionLeaseOps
import Binarius.Lib.Runs

/-!
# Worker.SessionManager — one broker session per account and process, under a lease
(apps/trading-worker/src/broker/session-manager.ts)

The processes share the lease table.  A statement is sent, runs whenever the database gets to it, and its
answer is heard late, or never; each process reads a clock of its own, off the database's by a constant.

* `SessionManager`: the entries of a process, with the lease each of them trusts.
* `Fleet.act`: one event of a process, of the database or of time.
* `Fleet.sessionFor`: whether a process gives its executor a client of the account.
-/

namespace Binarius

open Lib

structure LeaseConfig where
  /-- leaseTtlMs -/
  ttl : Instant
  /-- leaseFenceMs -/
  fence : Instant
  /-- checked by the worker's configuration -/
  fence_lt_ttl : fence < ttl

/-- One acquire's lease, shared by the starting entry and the running one that replaces it. -/
structure Lease where
  /-- the process's clock until which the lease is trusted -/
  untilAt : Instant
  acquiredAt : Instant
  deriving DecidableEq, Repr

/-- The entry of an account; `acquire` is the statement it was started with, and tells it and its lease
from those of another start. -/
inductive Entry
  /-- its lease is unset until the acquire, sent at `sentAt`, answered -/
  | starting (acquire : ℕ) (sentAt : Instant) (lease : Option Lease)
  /-- `shedding`: the account moved to another process -/
  | running (acquire : ℕ) (lease : Lease) (verified shedding : Bool)
  deriving DecidableEq, Repr

namespace Entry

def acquire : Entry → ℕ
  | starting acquire _ _ => acquire
  | running acquire _ _ _ => acquire

def lease : Entry → Option Lease
  | starting _ _ lease => lease
  | running _ lease _ _ => some lease

/-- `lease.until = Math.max(lease.until, until)`. -/
def extend (untilAt : Instant) : Entry → Entry
  | starting acquire sentAt lease =>
    starting acquire sentAt (lease.map (fun l => { l with untilAt := max l.untilAt untilAt }))
  | running acquire l verified shedding =>
    running acquire { l with untilAt := max l.untilAt untilAt } verified shedding

end Entry

abbrev Entries := AList (fun _ : AccountId => Entry)

structure SessionManager where
  /-- the process's clock less the database's -/
  offset : Instant
  /-- stopped, or crashed -/
  stopping : Bool
  entries : Entries
  /-- the renewal whose answer is waited for -/
  renewing : Option ℕ

inductive LeaseStatement
  | acquire (accountId : AccountId)
  /-- the accounts, with the lease each of them had -/
  | renew (sent : List (AccountId × ℕ))
  | release
  | releaseOne (accountId : AccountId) (acquiredAt : Instant)
  deriving DecidableEq, Repr

/-- A statement a process sent, at `sentAt` by its own clock. -/
structure Sent where
  ownerId : OwnerId
  statement : LeaseStatement
  sentAt : Instant
  deriving DecidableEq, Repr

inductive LeaseAnswer
  | acquired (acquiredAt : Option Instant)
  | renewed (held : List AccountId)
  | released
  deriving DecidableEq, Repr

/-- The statement at the database, whose clock it reads as `now`. -/
def Sent.execute (config : LeaseConfig) (sent : Sent) (now : Instant) (rows : SessionLeases) :
    LeaseAnswer × SessionLeases :=
  match sent.statement with
  | .acquire accountId =>
    let (acquiredAt, rows) := rows.acquire accountId sent.ownerId config.ttl now
    (.acquired acquiredAt, rows)
  | .renew leases =>
    let (held, rows) := rows.renew sent.ownerId (leases.map (·.1)) config.ttl now
    (.renewed held, rows)
  | .release => (.released, rows.release sent.ownerId)
  | .releaseOne accountId acquiredAt => (.released, rows.releaseOne accountId sent.ownerId acquiredAt)

/-- The lease an acquire took. -/
def Sent.taken (sent : Sent) : LeaseAnswer → Option (OwnerId × AccountId × Instant)
  | .acquired (some acquiredAt) =>
    match sent.statement with
    | .acquire accountId => some (sent.ownerId, accountId, acquiredAt)
    | _ => none
  | _ => none

/-- The processes, the table and what is between them. -/
structure Fleet where
  /-- the database's clock -/
  now : Instant
  rows : SessionLeases
  managers : OwnerId → SessionManager
  /-- sent, not run yet -/
  pending : ℕ → Option Sent
  /-- run, with their answers -/
  answers : ℕ → Option (Sent × LeaseAnswer)
  /-- the number of the next statement -/
  next : ℕ
  /-- the leases that acquires took, newest first -/
  taken : List (OwnerId × AccountId × Instant)

/-- One event. -/
inductive FleetEvent
  | pass (duration : ℕ)
  /-- the database runs a statement -/
  | execute (statement : ℕ) (now : Instant)
  | startOne (ownerId : OwnerId) (accountId : AccountId)
  /-- the acquire of the account's starting entry answered in time -/
  | acquired (ownerId : OwnerId) (accountId : AccountId)
  /-- its token came -/
  | opened (ownerId : OwnerId) (accountId : AccountId)
  /-- the connection has, or has not, proven whose it is -/
  | verified (ownerId : OwnerId) (accountId : AccountId) (proven : Bool)
  /-- the scan finds the account with another process, or its own again -/
  | moved (ownerId : OwnerId) (accountId : AccountId) (away : Bool)
  /-- drop: an acquire that timed out, threw or was refused, no token, the fence, a broker's close, an
  idle account -/
  | drop (ownerId : OwnerId) (accountId : AccountId)
  /-- an account that moved away: its lease goes back -/
  | shed (ownerId : OwnerId) (accountId : AccountId)
  | renew (ownerId : OwnerId)
  | renewed (ownerId : OwnerId)
  /-- the renewal timed out or failed -/
  | renewGaveUp (ownerId : OwnerId)
  | stop (ownerId : OwnerId)
  | crash (ownerId : OwnerId)

namespace SessionManager

variable (m : SessionManager)

def setEntry (accountId : AccountId) (e : Entry) : SessionManager :=
  { m with entries := m.entries.insert accountId e }

def deleteEntry (accountId : AccountId) : SessionManager :=
  { m with entries := m.entries.erase accountId }

/-- The leases a renewal is sent for: those whose acquire has answered. -/
def leases : List (AccountId × ℕ) :=
  m.entries.entries.filterMap (fun ⟨accountId, e⟩ =>
    if e.lease.isSome then some (accountId, e.acquire) else none)

/-- One account of a renewal's answer; it applies to an entry that still holds the same lease. -/
def applyRenewal (held : List AccountId) (untilAt : Instant) (entries : Entries)
    (sent : AccountId × ℕ) : Entries :=
  match entries.lookup sent.1 with
  | none => entries
  | some e =>
    if e.lease.isSome ∧ e.acquire = sent.2 then
      if sent.1 ∈ held then entries.insert sent.1 (e.extend untilAt) else entries.erase sent.1
    else entries

end SessionManager

namespace Fleet

variable (w : Fleet)

/-- A process's clock. -/
def clock (ownerId : OwnerId) : Instant := w.now + (w.managers ownerId).offset

def setManager (ownerId : OwnerId) (m : SessionManager) : Fleet :=
  { w with managers := Function.update w.managers ownerId m }

def send (ownerId : OwnerId) (statement : LeaseStatement) : Fleet :=
  { w with
    pending := Function.update w.pending w.next (some ⟨ownerId, statement, w.clock ownerId⟩)
    next := w.next + 1 }

def ran (config : LeaseConfig) (n : ℕ) (sent : Sent) (now : Instant) : Fleet :=
  let (answer, rows) := sent.execute config now w.rows
  { w with
    rows := rows
    pending := Function.update w.pending n none
    answers := Function.update w.answers n (some (sent, answer))
    taken := (sent.taken answer).toList ++ w.taken }

/-- The statement reads the database's clock at some instant since it was sent. -/
def execute (config : LeaseConfig) (n : ℕ) (now : Instant) : Fleet :=
  match w.pending n with
  | none => w
  | some sent =>
    if sent.sentAt - (w.managers sent.ownerId).offset ≤ now ∧ now ≤ w.now then w.ran config n sent now
    else w

def startOne (ownerId : OwnerId) (accountId : AccountId) : Fleet :=
  let m := w.managers ownerId
  if m.stopping ∨ (m.entries.lookup accountId).isSome then w
  else
    (w.setManager ownerId (m.setEntry accountId (.starting w.next (w.clock ownerId) none))).send ownerId
      (.acquire accountId)

def acquired (config : LeaseConfig) (ownerId : OwnerId) (accountId : AccountId) : Fleet :=
  let m := w.managers ownerId
  match m.entries.lookup accountId with
  | some (.starting n sentAt none) =>
    match w.answers n with
    | some (_, .acquired none) => w.setManager ownerId (m.deleteEntry accountId)
    | some (_, .acquired (some acquiredAt)) =>
      w.setManager ownerId (m.setEntry accountId
        (.starting n sentAt (some { untilAt := sentAt + config.fence, acquiredAt := acquiredAt })))
    | _ => w
  | _ => w

/-- No socket past the fence. -/
def opened (ownerId : OwnerId) (accountId : AccountId) : Fleet :=
  let m := w.managers ownerId
  match m.entries.lookup accountId with
  | some (.starting n _ (some lease)) =>
    if lease.untilAt ≤ w.clock ownerId then w.setManager ownerId (m.deleteEntry accountId)
    else w.setManager ownerId (m.setEntry accountId (.running n lease false false))
  | _ => w

def verified (ownerId : OwnerId) (accountId : AccountId) (proven : Bool) : Fleet :=
  let m := w.managers ownerId
  match m.entries.lookup accountId with
  | some (.running n lease _ shedding) =>
    w.setManager ownerId (m.setEntry accountId (.running n lease proven shedding))
  | _ => w

def moved (ownerId : OwnerId) (accountId : AccountId) (away : Bool) : Fleet :=
  let m := w.managers ownerId
  match m.entries.lookup accountId with
  | some (.running n lease verified _) =>
    w.setManager ownerId (m.setEntry accountId (.running n lease verified away))
  | _ => w

def drop (ownerId : OwnerId) (accountId : AccountId) : Fleet :=
  w.setManager ownerId ((w.managers ownerId).deleteEntry accountId)

/-- A starting entry goes at once, a running one after its grace. -/
def shed (ownerId : OwnerId) (accountId : AccountId) : Fleet :=
  let m := w.managers ownerId
  match m.entries.lookup accountId with
  | some (.starting _ _ none) => w.setManager ownerId (m.deleteEntry accountId)
  | some (.starting _ _ (some lease)) =>
    (w.setManager ownerId (m.deleteEntry accountId)).send ownerId
      (.releaseOne accountId lease.acquiredAt)
  | some (.running _ lease _ true) =>
    (w.setManager ownerId (m.deleteEntry accountId)).send ownerId
      (.releaseOne accountId lease.acquiredAt)
  | _ => w

def renew (ownerId : OwnerId) : Fleet :=
  let m := w.managers ownerId
  if m.stopping ∨ m.renewing.isSome ∨ m.leases = [] then w
  else (w.setManager ownerId { m with renewing := some w.next }).send ownerId (.renew m.leases)

def renewed (config : LeaseConfig) (ownerId : OwnerId) : Fleet :=
  let m := w.managers ownerId
  match m.renewing with
  | none => w
  | some n =>
    match w.answers n with
    | some (⟨_, .renew leases, sentAt⟩, .renewed held) =>
      w.setManager ownerId
        { m with
          entries := leases.foldl (SessionManager.applyRenewal held (sentAt + config.fence)) m.entries
          renewing := none }
    | _ => w

def renewGaveUp (ownerId : OwnerId) : Fleet :=
  w.setManager ownerId { w.managers ownerId with renewing := none }

/-- Every client, then every lease. -/
def stop (ownerId : OwnerId) : Fleet :=
  let m := w.managers ownerId
  if m.stopping then w
  else
    (w.setManager ownerId { m with stopping := true, entries := ∅, renewing := none }).send ownerId
      .release

def crash (ownerId : OwnerId) : Fleet :=
  w.setManager ownerId
    { w.managers ownerId with stopping := true, entries := ∅, renewing := none }

def act (config : LeaseConfig) (w : Fleet) : FleetEvent → Fleet
  | .pass duration => { w with now := w.now + duration }
  | .execute n now => w.execute config n now
  | .startOne ownerId accountId => w.startOne ownerId accountId
  | .acquired ownerId accountId => w.acquired config ownerId accountId
  | .opened ownerId accountId => w.opened ownerId accountId
  | .verified ownerId accountId proven => w.verified ownerId accountId proven
  | .moved ownerId accountId away => w.moved ownerId accountId away
  | .drop ownerId accountId => w.drop ownerId accountId
  | .shed ownerId accountId => w.shed ownerId accountId
  | .renew ownerId => w.renew ownerId
  | .renewed ownerId => w.renewed config ownerId
  | .renewGaveUp ownerId => w.renewGaveUp ownerId
  | .stop ownerId => w.stop ownerId
  | .crash ownerId => w.crash ownerId

/-- Every start of a process has an id of its own: all of them are there, none with an entry. -/
def initial (now : Instant) (rows : SessionLeases) (offsets : OwnerId → Instant) : Fleet where
  now := now
  rows := rows
  managers p := { offset := offsets p, stopping := false, entries := ∅, renewing := none }
  pending _ := none
  answers _ := none
  next := 0
  taken := []

/-- Whether the executor gets a client of the account. -/
def sessionFor (ownerId : OwnerId) (accountId : AccountId) : Bool :=
  match (w.managers ownerId).entries.lookup accountId with
  | some (.running _ lease verified shedding) =>
    verified && !shedding && decide (w.clock ownerId < lease.untilAt)
  | _ => false

end Fleet

end Binarius
