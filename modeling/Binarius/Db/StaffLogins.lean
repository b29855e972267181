import Mathlib.Tactic
import Binarius.Lib.Table
import Binarius.Lib.Tracks
import Binarius.Shared.TelegramHtml

/-!
# Db.StaffLogins — the ways into the admin pages and what closes them (packages/db/src: staff-ops.ts,
staff-link-ops.ts)

A login challenge or a link turns into one session; disabling an account or resetting its password closes
them all and revokes the sessions.  `now` is the transaction's, fresh ids are its inputs.  The audit
rows, the sweep of old challenges and the texts of the refusals are left out.

* `StaffDb.opens`: the challenges and the links that may still turn into a session.
* `startLoginChallenge`, the marks and the answers from Telegram, `completeLogin`; `issueLoginLink`,
  `inspectLoginLink`, `completeLinkLogin`; `invalidateIssued` and its three callers; `runAsStaff`.
-/

namespace Binarius

open Lib

/-! ## The rows -/

abbrev StaffId := ℕ

abbrev ChallengeId := ℕ

abbrev LinkId := ℕ

abbrev StaffSessionId := ℕ

inductive StaffStatus
  | active
  | disabled
  deriving DecidableEq, Repr

inductive StaffLoginChallengeStatus
  | pending
  | confirmed
  | completed
  | denied
  | expired
  | exhausted
  | failed
  deriving DecidableEq, Repr

/-- `OPEN_CHALLENGE_STATUSES`. -/
def StaffLoginChallengeStatus.isOpen : StaffLoginChallengeStatus → Bool
  | .pending | .confirmed => true
  | _ => false

inductive StaffLoginLinkStatus
  | issued
  | used
  | superseded
  | revoked
  deriving DecidableEq, Repr

structure StaffRow where
  id : StaffId
  login : Text
  passwordHash : Text
  telegramUserId : ℕ
  status : StaffStatus
  failedPasswordAttempts : ℕ
  lockedUntil : Option ℕ
  updatedAt : ℕ
  deriving DecidableEq, Repr

structure StaffLoginChallengeRow where
  id : ChallengeId
  staffId : StaffId
  status : StaffLoginChallengeStatus
  codeHash : Option Text
  codeAttempts : ℕ
  expiresAt : ℕ
  confirmedAt : Option ℕ
  promptSentAt : Option ℕ
  codeSentAt : Option ℕ
  deriving DecidableEq, Repr

structure StaffLoginLinkRow where
  id : LinkId
  staffId : StaffId
  tokenHash : Text
  status : StaffLoginLinkStatus
  createdAt : ℕ
  expiresAt : ℕ
  usedAt : Option ℕ
  deriving DecidableEq, Repr

structure StaffSessionRow where
  id : StaffSessionId
  staffId : StaffId
  tokenHash : Text
  expiresAt : ℕ
  lastSeenAt : ℕ
  revokedAt : Option ℕ
  revokedByStaffId : Option StaffId
  deriving DecidableEq, Repr

instance : Keyed StaffRow StaffId := ⟨StaffRow.id⟩

instance : Keyed StaffLoginChallengeRow ChallengeId := ⟨StaffLoginChallengeRow.id⟩

instance : Keyed StaffLoginLinkRow LinkId := ⟨StaffLoginLinkRow.id⟩

instance : Keyed StaffSessionRow StaffSessionId := ⟨StaffSessionRow.id⟩

structure StaffDb where
  staff : Table StaffRow
  challenges : Table StaffLoginChallengeRow
  links : Table StaffLoginLinkRow
  sessions : Table StaffSessionRow

inductive StaffLock
  | staff (id : StaffId)
  | challenge (id : ChallengeId)
  | link (id : LinkId)
  | session (id : StaffSessionId)
  deriving DecidableEq, Repr

/-- A primary key that is taken. -/
inductive StaffError
  | uniqueViolation
  deriving DecidableEq, Repr

abbrev StaffTx := TxProg StaffDb StaffLock StaffError

/-- What may still turn into a session. -/
inductive WayIn
  | challenge (id : ChallengeId)
  | link (id : LinkId)
  deriving DecidableEq, Repr

def WayIn.lock : WayIn → StaffLock
  | .challenge id => .challenge id
  | .link id => .link id

namespace StaffDb

/-- The way in is of this staff member, and open: whether its time is up is the clock's. -/
def opens (db : StaffDb) (staffId : StaffId) : WayIn → Bool
  | .challenge id => (db.challenges.find? id).any (fun r => r.staffId = staffId && r.status.isOpen)
  | .link id => (db.links.find? id).any (fun r => r.staffId = staffId && r.status = .issued)

def setStaff (id : StaffId) (f : StaffRow → StaffRow) (db : StaffDb) : StaffDb :=
  { db with staff := db.staff.modified id f }

def setChallenge (id : ChallengeId) (f : StaffLoginChallengeRow → StaffLoginChallengeRow) (db : StaffDb) :
    StaffDb :=
  { db with challenges := db.challenges.modified id f }

def setLink (id : LinkId) (f : StaffLoginLinkRow → StaffLoginLinkRow) (db : StaffDb) : StaffDb :=
  { db with links := db.links.modified id f }

def setSession (id : StaffSessionId) (f : StaffSessionRow → StaffSessionRow) (db : StaffDb) : StaffDb :=
  { db with sessions := db.sessions.modified id f }

def addChallenge (row : StaffLoginChallengeRow) (db : StaffDb) : StaffDb :=
  { db with challenges := db.challenges.inserted row }

def addLink (row : StaffLoginLinkRow) (db : StaffDb) : StaffDb := { db with links := db.links.inserted row }

def addSession (row : StaffSessionRow) (db : StaffDb) : StaffDb :=
  { db with sessions := db.sessions.inserted row }

end StaffDb

/-! ## The transactions -/

def STAFF_MAX_CODE_ATTEMPTS : ℕ := 5

def STAFF_LOGIN_LINK_TTL_MS : ℕ := 5 * 60000

def STAFF_LOGIN_LINK_MAX_PER_WINDOW : ℕ := 5

def STAFF_LOGIN_LINK_WINDOW_MS : ℕ := 15 * 60000

/-- No lockout is running. -/
def StaffRow.unlocked (now : ℕ) (row : StaffRow) : Bool := row.lockedUntil.all (· ≤ now)

/-- A session that the clock and its revocation leave alive. -/
def StaffSessionRow.standing (now : ℕ) (row : StaffSessionRow) : Bool :=
    row.revokedAt.isNone && now < row.expiresAt

/-- `liveStaffSession`: it also was used recently enough. -/
def StaffSessionRow.live (now idleMs : ℕ) (row : StaffSessionRow) : Bool :=
  row.standing now && now < row.lastSeenAt + idleMs

/-- The attempt is counted, the code compared and the status moved in one statement. -/
def StaffLoginChallengeRow.attempted (codeHash : Text) (r : StaffLoginChallengeRow) :
    StaffLoginChallengeRow :=
  { r with
    codeAttempts := r.codeAttempts + 1
    status :=
      if r.codeHash = some codeHash then .completed
      else if r.codeAttempts + 1 ≥ STAFF_MAX_CODE_ATTEMPTS then .exhausted
      else r.status }

/-- `lower` of a login. -/
def lowerLogin (login : Text) : Text := login.map Char.toLower

/-- A new password: the failures and the lockout of the old one are over. -/
def StaffRow.withPassword (now : ℕ) (passwordHash : Text) (row : StaffRow) : StaffRow :=
  { row with
    passwordHash := passwordHash, failedPasswordAttempts := 0, lockedUntil := none, updatedAt := now }

/-- The end of a lockout that is running. -/
def StaffRow.runningLockout (now : ℕ) (row : StaffRow) : Option ℕ := row.lockedUntil.filter (now < ·)

/-- A refused code.  A challenge that is closed says how. -/
inductive CodeRefusalReason
  | unknown
  | disabled
  | expired
  | awaitingTelegram
  | closed (status : StaffLoginChallengeStatus)
  deriving DecidableEq, Repr

def refusalReason (now : ℕ) (row : StaffLoginChallengeRow) (staffStatus : StaffStatus) : CodeRefusalReason :=
  if staffStatus ≠ .active then .disabled
  else if row.expiresAt ≤ now then .expired
  else if row.status.isOpen then .awaitingTelegram
  else .closed row.status

inductive LinkRefusalReason
  | live
  | disabled
  | spent (status : StaffLoginLinkStatus)
  | expired
  deriving DecidableEq, Repr

def linkRefusalReason (now : ℕ) (row : StaffLoginLinkRow) (staffStatus : StaffStatus) : LinkRefusalReason :=
  if staffStatus ≠ .active then .disabled
  else if row.status ≠ .issued then .spent row.status
  else if row.expiresAt ≤ now then .expired
  else .live

inductive LinkState
  | live
  | used
  | expired
  | unavailable
  deriving DecidableEq, Repr

def linkStateOf : LinkRefusalReason → LinkState
  | .live => .live
  | .spent .used => .used
  | .expired => .expired
  | _ => .unavailable

/-- What a call answers; `undefined` and `false` are `none` and `marked false`. -/
inductive StaffReply
  | stateChanged
  | locked (lockedUntil : ℕ)
  | challenge (id : ChallengeId) (expiresAt : ℕ) (reused sendPrompt : Bool)
  | marked (done : Bool)
  | confirmed (staffId : StaffId) (again : Bool)
  | denied (staffId : Option StaffId)
  | missed
  | wrongCode (exhausted : Bool)
  | codeRefused (reason : CodeRefusalReason)
  | notStaff
  | staffDisabled (staffId : StaffId)
  | rateLimited
  | link (id : LinkId) (expiresAt : ℕ)
  | linkState (state : LinkState)
  | session (way : WayIn) (row : StaffSessionRow)
  | invalidated (closedChallenges closedLinks revokedSessions : ℕ)
  | noAccount
  | sessionInvalid
  | revoked (staffId : Option StaffId)
  | loggedOut
  deriving DecidableEq, Repr

/-- The session that a request of the admin pages came with. -/
structure StaffContext where
  sessionId : StaffSessionId
  staffId : StaffId
  deriving DecidableEq, Repr

namespace StaffDb

/-- The owner of a challenge. -/
def ownerOfChallenge (id : ChallengeId) (db : StaffDb) : Option StaffRow :=
  (db.challenges.find? id).bind (fun r => db.staff.find? r.staffId)

/-- A link and its owner, by the token. -/
def readLink (token : Text) (db : StaffDb) : Option (StaffLoginLinkRow × StaffRow) :=
  (db.links.rows.find? (fun r => r.tokenHash = token)).bind
    (fun r => (db.staff.find? r.staffId).map (fun s => (r, s)))

/-- A session and its owner, by the token. -/
def sessionByToken (token : Text) (db : StaffDb) : Option (StaffSessionRow × StaffRow) :=
  (db.sessions.rows.find? (fun r => r.tokenHash = token)).bind
    (fun r => (db.staff.find? r.staffId).map (fun s => (r, s)))

end StaffDb

namespace StaffTx

/-- A row with a primary key of its own. -/
def insertSession (row : StaffSessionRow) : StaffTx Unit := do
  let inserted ← .change (.session row.id) (fun db => (db.sessions.find? row.id).isNone)
    (StaffDb.addSession row)
  if inserted then pure () else .raise .uniqueViolation

/-- The open challenge of the member, or a new one. -/
def openChallenge (now : ℕ) (staffId : StaffId) (id : ChallengeId) (ttlMs : ℕ) : StaffTx StaffReply := do
  let timedOut := fun r : StaffLoginChallengeRow => r.staffId = staffId && r.status.isOpen &&
    r.expiresAt ≤ now
  let ids ← .select (fun db => (db.challenges.rows.filter timedOut).map (·.id))
  let _ ← .changeAll .challenge (fun c db => (db.challenges.find? c).any timedOut)
    (fun c => StaffDb.setChallenge c (fun r => { r with status := .expired })) ids
  let found ← .select (fun db => db.challenges.rows.find? (fun r => r.staffId = staffId && r.status.isOpen))
  match found with
  | some row =>
    pure (.challenge row.id row.expiresAt true (row.promptSentAt.isNone && row.status = .pending))
  | none => do
    let created ← .change (.challenge id) (fun db => (db.challenges.find? id).isNone)
      (StaffDb.addChallenge ⟨id, staffId, .pending, none, 0, now + ttlMs, none, none, none⟩)
    if created then pure (.challenge id (now + ttlMs) false true) else .raise .uniqueViolation

/-- The password that was checked is still the account's. -/
def claimLogin (now : ℕ) (staffId : StaffId) (passwordHash : Text) (id : ChallengeId) (ttlMs : ℕ) :
    StaffTx StaffReply := do
  let claimed ← .change (.staff staffId)
    (fun db => (db.staff.find? staffId).any
      (fun r => r.passwordHash = passwordHash && r.status = .active && r.unlocked now))
    (StaffDb.setStaff staffId
      (fun r => { r with failedPasswordAttempts := 0, lockedUntil := none, updatedAt := now }))
  if claimed then openChallenge now staffId id ttlMs else pure .stateChanged

def startLoginChallenge (now : ℕ) (staffId : StaffId) (passwordHash : Text) (id : ChallengeId) (ttlMs : ℕ) :
    StaffTx StaffReply := do
  let _ ← .selectFor (.staff staffId) .exclusive (fun db => db.staff.find? staffId)
  claimLogin now staffId passwordHash id ttlMs

def markChallengePromptSent (now : ℕ) (id : ChallengeId) : StaffTx StaffReply := do
  let done ← .change (.challenge id) (fun db => (db.challenges.find? id).any (fun r => r.promptSentAt.isNone))
    (StaffDb.setChallenge id (fun r => { r with promptSentAt := some now }))
  pure (.marked done)

/-- The button press.  The statement joins `staff` as its snapshot has it, and answers what the row was. -/
def confirmChallengeFromTelegram (now : ℕ) (id : ChallengeId) (telegramUserId : ℕ) (codeHash : Text) :
    StaffTx StaffReply := do
  let confirmable := fun (staffId : StaffId) (r : StaffLoginChallengeRow) =>
    r.staffId = staffId && r.status.isOpen && r.codeSentAt.isNone && now < r.expiresAt
  let old ← .selectForKey
    (fun db => ((db.ownerOfChallenge id).filter (fun s =>
      s.telegramUserId = telegramUserId && s.status = .active &&
        (db.challenges.find? id).any (confirmable s.id))).map (·.id))
    (fun _ => .challenge id) .exclusive
    (fun staffId db => (db.challenges.find? id).filter (confirmable staffId))
  match old with
  | some row => do
    let _ ← .change (.challenge id) (fun db => (db.challenges.find? id).isSome)
      (StaffDb.setChallenge id (fun r => { r with
        status := .confirmed, codeHash := some codeHash, confirmedAt := r.confirmedAt.or (some now) }))
    pure (.confirmed row.staffId (row.status = .confirmed))
  | none => pure .missed

def markChallengeCodeSent (now : ℕ) (id : ChallengeId) (codeHash : Text) : StaffTx StaffReply := do
  let done ← .change (.challenge id)
    (fun db => (db.challenges.find? id).any (fun r => r.codeSentAt.isNone && r.codeHash = some codeHash))
    (StaffDb.setChallenge id (fun r => { r with codeSentAt := some now }))
  pure (.marked done)

def denyChallengeFromTelegram (now : ℕ) (id : ChallengeId) (telegramUserId : ℕ) : StaffTx StaffReply := do
  let denied ← .changeKey
    (fun db => ((db.ownerOfChallenge id).filter (fun s =>
      s.telegramUserId = telegramUserId && s.status = .active)).map (·.id))
    (fun _ => .challenge id)
    (fun staffId db => (db.challenges.find? id).any (fun r =>
      r.staffId = staffId && r.status.isOpen && now < r.expiresAt))
    (fun _ => StaffDb.setChallenge id (fun r => { r with status := .denied }))
  pure (.denied denied)

/-- A prompt or a code did not arrive: the challenge is closed if it is still where the send left it, the code
still the one that was sent. -/
def failChallengeDelivery (id : ChallengeId) (sent : Option Text) : StaffTx StaffReply := do
  let closed ← .change (.challenge id)
    (fun db => (db.challenges.find? id).any (fun r =>
      if sent.isSome then r.status = .confirmed && r.codeHash = sent else r.status = .pending))
    (StaffDb.setChallenge id (fun r => { r with status := .failed }))
  pure (.marked closed)

/-- The reason is read back under the challenge's lock. -/
def refuseCode (now : ℕ) (id : ChallengeId) : StaffTx StaffReply := do
  let reason ← .selectForKey (fun db => (db.ownerOfChallenge id).map (·.status))
    (fun _ => .challenge id) .exclusive
    (fun staffStatus db => (db.challenges.find? id).map (fun r => refusalReason now r staffStatus))
  pure (.codeRefused (reason.getD .unknown))

def completeLogin (now : ℕ) (id : ChallengeId) (codeHash : Text) (session : StaffSessionId) (token : Text)
    (ttlMs : ℕ) : StaffTx StaffReply := do
  let attempted ← .changeKey
    (fun db => ((db.ownerOfChallenge id).filter (·.status = .active)).map (·.id))
    (fun _ => .challenge id)
    (fun staffId db => (db.challenges.find? id).any (fun r =>
      r.staffId = staffId && r.status = .confirmed && r.codeSentAt.isSome && now < r.expiresAt))
    (fun _ => StaffDb.setChallenge id (StaffLoginChallengeRow.attempted codeHash))
  match attempted with
  | some staffId => do
    let status ← .select (fun db => (db.challenges.find? id).map (·.status))
    if status = some .completed then do
      let row : StaffSessionRow := ⟨session, staffId, token, now + ttlMs, now, none, none⟩
      insertSession row
      pure (.session (.challenge id) row)
    else pure (.wrongCode (status = some .exhausted))
  | none => refuseCode now id

/-- The button of the staff bot: the previous link is superseded under the owner's row. -/
def issueLoginLink (now : ℕ) (telegramUserId : ℕ) (id : LinkId) (token : Text) : StaffTx StaffReply := do
  let owner ← .selectForKey
    (fun db => (db.staff.rows.find? (fun r => r.telegramUserId = telegramUserId)).map (·.id))
    .staff .exclusive (fun i db => (db.staff.find? i).filter (fun r => r.telegramUserId = telegramUserId))
  match owner with
  | some staff =>
    if staff.status = .active then do
      let recent ← .select (fun db => db.links.rows.countP (fun r =>
        r.staffId = staff.id && now < r.createdAt + STAFF_LOGIN_LINK_WINDOW_MS))
      if recent ≥ STAFF_LOGIN_LINK_MAX_PER_WINDOW then pure .rateLimited
      else do
        let ids ← .select (fun db =>
          (db.links.rows.filter (fun r => r.staffId = staff.id && r.status = .issued)).map (·.id))
        let _ ← .changeAll .link (fun l db => db.opens staff.id (.link l))
          (fun l => StaffDb.setLink l (fun r => { r with status := .superseded })) ids
        let created ← .change (.link id) (fun db => (db.links.find? id).isNone)
          (StaffDb.addLink ⟨id, staff.id, token, .issued, now, now + STAFF_LOGIN_LINK_TTL_MS, none⟩)
        if created then pure (.link id (now + STAFF_LOGIN_LINK_TTL_MS)) else .raise .uniqueViolation
    else pure (.staffDisabled staff.id)
  | none => pure .notStaff

/-- GET on the link: one `SELECT`. -/
def inspectLoginLink (now : ℕ) (token : Text) : StaffTx StaffReply := do
  let found ← .select (StaffDb.readLink token)
  pure (.linkState ((found.map (fun p => linkStateOf (linkRefusalReason now p.1 p.2.status))).getD
    .unavailable))

/-- The link that was missed is read back under its lock; one that looks live again is not said to be. -/
def refuseLink (now : ℕ) (token : Text) : StaffTx StaffReply := do
  let reason ← .selectForKey (fun db => (db.readLink token).map (fun p => (p.1.id, p.2.status)))
    (fun p => .link p.1) .exclusive
    (fun p db => (db.links.find? p.1).map (fun r => linkRefusalReason now r p.2))
  let state := (reason.map linkStateOf).getD .unavailable
  pure (.linkState (if state = .live then .unavailable else state))

def completeLinkLogin (now : ℕ) (token : Text) (session : StaffSessionId) (sessionToken : Text)
    (ttlMs : ℕ) : StaffTx StaffReply := do
  let claimed ← .changeKey
    (fun db => ((db.readLink token).filter (fun p => p.2.status = .active)).map (fun p => (p.1.id, p.2.id)))
    (fun p => .link p.1)
    (fun p db => (db.links.find? p.1).any (fun r =>
      r.tokenHash = token && r.staffId = p.2 && r.status = .issued && now < r.expiresAt))
    (fun p => StaffDb.setLink p.1 (fun r => { r with status := .used, usedAt := some now }))
  match claimed with
  | some p => do
    let row : StaffSessionRow := ⟨session, p.2, sessionToken, now + ttlMs, now, none, none⟩
    insertSession row
    pure (.session (.link p.1) row)
  | none => refuseLink now token

/-- staff → staff_login_challenges → staff_login_links → staff_sessions. -/
def invalidateIssued (now : ℕ) (staffId : StaffId) (keepSessionId : Option StaffSessionId)
    (revokedByStaffId : Option StaffId) : StaffTx StaffReply := do
  let challenges ← .select (fun db =>
    (db.challenges.rows.filter (fun r => r.staffId = staffId && r.status.isOpen)).map (·.id))
  let closed ← .changeAll .challenge (fun c db => db.opens staffId (.challenge c))
    (fun c => StaffDb.setChallenge c (fun r => { r with status := .expired })) challenges
  let links ← .select (fun db =>
    (db.links.rows.filter (fun r => r.staffId = staffId && r.status = .issued)).map (·.id))
  let closedLinks ← .changeAll .link (fun l db => db.opens staffId (.link l))
    (fun l => StaffDb.setLink l (fun r => { r with status := .revoked })) links
  let standing := fun r : StaffSessionRow =>
    r.staffId = staffId && r.standing now && keepSessionId ≠ some r.id
  let sessions ← .select (fun db => (db.sessions.rows.filter standing).map (·.id))
  let revoked ← .changeAll .session (fun i db => (db.sessions.find? i).any standing)
    (fun i => StaffDb.setSession i (fun r =>
      { r with revokedAt := some now, revokedByStaffId := revokedByStaffId })) sessions
  pure (.invalidated closed.length closedLinks.length revoked.length)

/-- An account's row, found by its login, is written, and what was issued under it is invalidated. -/
def changeAccount (now : ℕ) (login : Text) (f : StaffRow → StaffRow) : StaffTx StaffReply := do
  let changed ← .changeKey
    (fun db => (db.staff.rows.find? (fun r => lowerLogin r.login = lowerLogin login)).map (·.id)) .staff
    (fun i db => (db.staff.find? i).any (fun r => lowerLogin r.login = lowerLogin login))
    (fun i => StaffDb.setStaff i f)
  match changed with
  | some staffId => invalidateIssued now staffId none none
  | none => pure .noAccount

def disableStaffAccount (now : ℕ) (login : Text) : StaffTx StaffReply :=
  changeAccount now login (fun r => { r with status := .disabled, updatedAt := now })

def resetStaffPassword (now : ℕ) (login : Text) (passwordHash : Text) : StaffTx StaffReply :=
  changeAccount now login (StaffRow.withPassword now passwordHash)

/-- The member's own password, under their session, which survives. -/
def applyStaffPasswordChange (now : ℕ) (staffId : StaffId) (sessionId : StaffSessionId)
    (passwordHashSeen newPasswordHash : Text) : StaffTx StaffReply := do
  let changed ← .change (.staff staffId)
    (fun db => (db.staff.find? staffId).any
      (fun r => r.passwordHash = passwordHashSeen && r.status = .active && r.unlocked now))
    (StaffDb.setStaff staffId (StaffRow.withPassword now newPasswordHash))
  if changed then invalidateIssued now staffId (some sessionId) (some staffId)
  else do
    let lockedUntil ← .select (fun db => (db.staff.find? staffId).bind (·.runningLockout now))
    pure ((lockedUntil.map StaffReply.locked).getD .stateChanged)

/-- A live session, whoever owns it. -/
def revokeStaffSession (now idleMs : ℕ) (id : StaffSessionId) (byStaffId : StaffId) :
    StaffTx StaffReply := do
  let revoked ← .changeKey (fun db => (db.sessions.find? id).map (·.staffId)) (fun _ => .session id)
    (fun staffId db => (db.sessions.find? id).any (fun r => r.staffId = staffId && r.live now idleMs))
    (fun _ => StaffDb.setSession id (fun r =>
      { r with revokedAt := some now, revokedByStaffId := some byStaffId }))
  pure (.revoked revoked)

def endStaffSession (now : ℕ) (id : StaffSessionId) (byStaffId : StaffId) : StaffTx StaffReply := do
  let _ ← .change (.session id) (fun db => (db.sessions.find? id).any (fun r => r.revokedAt.isNone))
    (StaffDb.setSession id (fun r => { r with revokedAt := some now, revokedByStaffId := some byStaffId }))
  pure .loggedOut

/-- The touch of the request's own session, which is also the check that it is live, and the work. -/
def touchSession (now idleMs : ℕ) (token : Text) (fn : StaffContext → StaffTx StaffReply) :
    StaffTx StaffReply := do
  let touched ← .changeKey
    (fun db => ((db.sessionByToken token).filter (fun p => p.2.status = .active)).map
      (fun p => StaffContext.mk p.1.id p.2.id))
    (fun ctx => .session ctx.sessionId)
    (fun ctx db => (db.sessions.find? ctx.sessionId).any (fun r =>
      r.tokenHash = token && r.staffId = ctx.staffId && r.live now idleMs))
    (fun ctx => StaffDb.setSession ctx.sessionId (fun r => { r with lastSeenAt := now }))
  match touched with
  | some ctx => fn ctx
  | none => pure .sessionInvalid

/-- Every request of the admin pages; `lockStaff` takes the owner's row first. -/
def runAsStaff (now idleMs : ℕ) (token : Text) (lockStaff : Bool) (fn : StaffContext → StaffTx StaffReply) :
    StaffTx StaffReply :=
  if lockStaff then do
    let owner ← .select (fun db => (db.sessions.rows.find? (fun r => r.tokenHash = token)).map (·.staffId))
    match owner with
    | some staffId => do
      let _ ← .selectFor (.staff staffId) .exclusive (fun db => db.staff.find? staffId)
      touchSession now idleMs token fn
    | none => pure .sessionInvalid
  else touchSession now idleMs token fn

end StaffTx

/-! ## The calls -/

inductive StaffCall
  | startLoginChallenge (now : ℕ) (staffId : StaffId) (passwordHash : Text) (id : ChallengeId) (ttlMs : ℕ)
  | markChallengePromptSent (now : ℕ) (id : ChallengeId)
  | confirmChallengeFromTelegram (now : ℕ) (id : ChallengeId) (telegramUserId : ℕ) (codeHash : Text)
  | markChallengeCodeSent (now : ℕ) (id : ChallengeId) (codeHash : Text)
  | denyChallengeFromTelegram (now : ℕ) (id : ChallengeId) (telegramUserId : ℕ)
  | failChallengeDelivery (now : ℕ) (id : ChallengeId) (sent : Option Text)
  | completeLogin (now : ℕ) (id : ChallengeId) (codeHash : Text) (session : StaffSessionId) (token : Text)
      (ttlMs : ℕ)
  | issueLoginLink (now : ℕ) (telegramUserId : ℕ) (id : LinkId) (token : Text)
  | inspectLoginLink (now : ℕ) (token : Text)
  | completeLinkLogin (now : ℕ) (token : Text) (session : StaffSessionId) (sessionToken : Text) (ttlMs : ℕ)
  | disableStaffAccount (now : ℕ) (login : Text)
  | resetStaffPassword (now : ℕ) (login : Text) (passwordHash : Text)
  | changePassword (now idleMs : ℕ) (token passwordHashSeen newPasswordHash : Text)
  | revokeSession (now idleMs : ℕ) (token : Text) (id : StaffSessionId)
  | logout (now idleMs : ℕ) (token : Text)
  deriving DecidableEq, Repr

def StaffCall.program : StaffCall → StaffTx StaffReply
  | .startLoginChallenge now staffId passwordHash id ttlMs =>
    StaffTx.startLoginChallenge now staffId passwordHash id ttlMs
  | .markChallengePromptSent now id => StaffTx.markChallengePromptSent now id
  | .confirmChallengeFromTelegram now id telegramUserId codeHash =>
    StaffTx.confirmChallengeFromTelegram now id telegramUserId codeHash
  | .markChallengeCodeSent now id codeHash => StaffTx.markChallengeCodeSent now id codeHash
  | .denyChallengeFromTelegram now id telegramUserId => StaffTx.denyChallengeFromTelegram now id telegramUserId
  | .failChallengeDelivery _ id sent => StaffTx.failChallengeDelivery id sent
  | .completeLogin now id codeHash session token ttlMs =>
    StaffTx.completeLogin now id codeHash session token ttlMs
  | .issueLoginLink now telegramUserId id token => StaffTx.issueLoginLink now telegramUserId id token
  | .inspectLoginLink now token => StaffTx.inspectLoginLink now token
  | .completeLinkLogin now token session sessionToken ttlMs =>
    StaffTx.completeLinkLogin now token session sessionToken ttlMs
  | .disableStaffAccount now login => StaffTx.disableStaffAccount now login
  | .resetStaffPassword now login passwordHash => StaffTx.resetStaffPassword now login passwordHash
  | .changePassword now idleMs token seen new => StaffTx.runAsStaff now idleMs token true
    (fun ctx => StaffTx.applyStaffPasswordChange now ctx.staffId ctx.sessionId seen new)
  | .revokeSession now idleMs token id => StaffTx.runAsStaff now idleMs token true
    (fun ctx => StaffTx.revokeStaffSession now idleMs id ctx.staffId)
  | .logout now idleMs token => StaffTx.runAsStaff now idleMs token false
    (fun ctx => StaffTx.endStaffSession now ctx.sessionId ctx.staffId)

/-- `now()` of the call's transaction. -/
def StaffCall.now : StaffCall → ℕ
  | .startLoginChallenge now _ _ _ _ => now
  | .markChallengePromptSent now _ => now
  | .confirmChallengeFromTelegram now _ _ _ => now
  | .markChallengeCodeSent now _ _ => now
  | .denyChallengeFromTelegram now _ _ => now
  | .failChallengeDelivery now _ _ => now
  | .completeLogin now _ _ _ _ _ => now
  | .issueLoginLink now _ _ _ => now
  | .inspectLoginLink now _ => now
  | .completeLinkLogin now _ _ _ _ => now
  | .disableStaffAccount now _ => now
  | .resetStaffPassword now _ _ => now
  | .changePassword now _ _ _ _ => now
  | .revokeSession now _ _ _ => now
  | .logout now _ _ => now

end Binarius
