import Mathlib.Tactic
import Binarius.Lib.Runs
import Binarius.Shared.Trading

/-!
# Backend.TokenService — an account's access token, and the exchange of its refresh token
(apps/backend/src/auth/token-service.ts, packages/db/src/oauth-ops.ts)

One account, any number of processes and callers.  A ciphertext is what it decrypts to under its own key;
the broker's refresh tokens are numbered in the order it issues them.

* `readStoredToken`, `decideLocked`, `exchanged`: what a caller decides, by the row it read.
* `revokeAccountIfUnchanged`: the second transaction of a lost pair.
* `TokenWorld.act`: the callers, their flights, the row and its lock, and the broker.
-/

namespace Binarius

inductive AuthRevokedReason
  | refreshInvalidGrant
  | refreshOutcomeUnknown
  | refreshExpired
  | storageInconsistent
  deriving DecidableEq, Repr

abbrev Token := ℕ

abbrev TokenHash := ℕ

/-- The columns of a broker account that the token service reads or writes. -/
structure AccountTokens where
  brokerUserId : String
  status : BrokerAccountStatus
  authRevokedReason : Option AuthRevokedReason
  tokenKeyId : ℕ
  /-- `none` when the ciphertext fails to decrypt -/
  accessTokenEnc : Option Token
  refreshTokenEnc : Option Token
  accessTokenExpiresAt : UnixMs
  /-- a row linked before the column existed has none -/
  refreshTokenHash : Option TokenHash
  tokenRotatedAt : Option UnixMs
  createdAt : UnixMs
  serviceSince : Option UnixMs
  deriving DecidableEq, Repr

structure AccessTokenOptions where
  mayRefresh : Bool := true
  /-- the hash of an access token the broker refused -/
  refusedToken : Option TokenHash := none
  serviceOnly : Bool := false
  renewAheadMs : Option ℤ := none
  deriving DecidableEq, Repr

inductive AccessTokenResult
  | ok (accessToken : Token) (brokerUserId : String)
  | accountNotFound
  | userBlocked
  | accountPending
  | keyUnavailable
  | refreshNeeded
  | refreshRateLimited
  | notService
  | accountRevoked (reason : Option AuthRevokedReason)
  deriving DecidableEq, Repr

def accessSkewMs : ℤ := 60000

def refreshMaxAgeMs : ℤ := 90 * 24 * 60 * 60 * 1000

/-- What the caller was holding once the stored pair stopped being reliably ours. -/
structure ExchangedPair where
  refreshTokenHash : Option TokenHash
  deriving DecidableEq, Repr

def notService (account : AccountTokens) (options : AccessTokenOptions) : Bool :=
  options.mayRefresh && options.serviceOnly && account.serviceSince.isNone

def renewAheadOf (options : AccessTokenOptions) : ℤ :=
  if options.mayRefresh then options.renewAheadMs.getD accessSkewMs else accessSkewMs

/-! ## The writes -/

def revokeAccount (account : AccountTokens) (reason : AuthRevokedReason) : AccountTokens :=
  { account with status := .revoked, authRevokedReason := some reason }

/-- A day in the past, by the database's clock. -/
def markAccessTokenExpired (account : AccountTokens) (dbNow : UnixMs) : AccountTokens :=
  { account with accessTokenExpiresAt := dbNow - 24 * 60 * 60 * 1000 }

def backfillRefreshTokenHash (account : AccountTokens) (hash : TokenHash) : AccountTokens :=
  if account.refreshTokenHash.isNone then { account with refreshTokenHash := some hash } else account

inductive ConditionalRevokeOutcome
  | revoked
  | alreadyRevoked (reason : Option AuthRevokedReason)
  | changed
  | missing
  deriving DecidableEq, Repr

/-- Revokes only while the row still carries the refresh token the caller was holding. -/
def revokeAccountIfUnchanged (row : Option AccountTokens) (held : ExchangedPair)
    (reason : AuthRevokedReason) : ConditionalRevokeOutcome × Option AccountTokens :=
  match row with
  | none => (.missing, none)
  | some account =>
    if account.status = .active ∧ account.refreshTokenHash = held.refreshTokenHash then
      (.revoked, some (revokeAccount account reason))
    else if account.status = .revoked then (.alreadyRevoked account.authRevokedReason, some account)
    else (.changed, some account)

section Decisions

variable (hashToken : Token → TokenHash) (keyId : ℕ) (options : AccessTokenOptions)

/-- The checks of the path under the lock, up to the first that needs a write or the lock. -/
def readStoredToken (now : UnixMs) (userBlocked : Bool) : Option AccountTokens → Option AccessTokenResult
  | none => none
  | some account =>
    if userBlocked ∨ account.status ≠ .active ∨ notService account options = true ∨
        account.tokenKeyId ≠ keyId ∨ account.refreshTokenHash = none then
      none
    else
      match account.refreshTokenEnc with
      | none => none
      | some refreshToken =>
        if account.refreshTokenHash ≠ some (hashToken refreshToken) then none
        else if account.accessTokenExpiresAt ≤ now + renewAheadOf options then none
        else account.accessTokenEnc.map (fun accessToken => .ok accessToken account.brokerUserId)

/-- What the transaction does under the row's lock, up to its end or to the exchange. -/
inductive LockedDecision
  | answer (result : AccessTokenResult) (account : AccountTokens)
  | exchange (refreshToken : Token) (held : ExchangedPair) (account : AccountTokens)
  deriving DecidableEq, Repr

def revoked (account : AccountTokens) (reason : AuthRevokedReason) : LockedDecision :=
  .answer (.accountRevoked (some reason)) (revokeAccount account reason)

/-- The stored access token is due, or was refused and is marked so in this transaction. -/
def decideExchange (now : UnixMs) (refreshToken : Token) (account : AccountTokens) : LockedDecision :=
  if options.mayRefresh = false then .answer .refreshNeeded account
  else if account.tokenRotatedAt.getD account.createdAt < now - refreshMaxAgeMs then
    revoked account .refreshExpired
  else .exchange refreshToken { refreshTokenHash := account.refreshTokenHash } account

/-- refreshUnderLock, up to the exchange. -/
def decideLocked (now dbNow : UnixMs) (userBlocked : Bool) (account : AccountTokens) : LockedDecision :=
  if userBlocked then .answer .userBlocked account
  else if account.status = .pending then .answer .accountPending account
  else if account.status ≠ .active then .answer (.accountRevoked account.authRevokedReason) account
  else if notService account options then .answer .notService account
  else if account.tokenKeyId ≠ keyId then .answer .keyUnavailable account
  else
    match account.refreshTokenEnc with
    | none => revoked account .storageInconsistent
    | some refreshToken =>
      if account.refreshTokenHash.any (fun hash => hash ≠ hashToken refreshToken) then
        revoked account .storageInconsistent
      else if now + renewAheadOf options < account.accessTokenExpiresAt then
        match account.accessTokenEnc with
        | none => revoked account .storageInconsistent
        | some accessToken =>
          if options.refusedToken = some (hashToken accessToken) then
            decideExchange options now refreshToken (markAccessTokenExpired account dbNow)
          else
            .answer (.ok accessToken account.brokerUserId)
              (backfillRefreshTokenHash account (hashToken refreshToken))
      else decideExchange options now refreshToken account

end Decisions

/-! ## The exchange -/

/-- What `broker.refresh` answers or throws. -/
inductive RefreshAnswer
  | rotated (accessToken : Token) (expiresInMs : ℤ)
  | invalidGrant
  | rateLimited
  /-- a transport failure: the broker may have rotated the pair -/
  | unknown
  deriving DecidableEq, Repr

/-- The token that was presented may have been spent. -/
def RefreshAnswer.maySpend : RefreshAnswer → Bool
  | rotated _ _ => true
  | invalidGrant => false
  | rateLimited => false
  | unknown => true

/-- The transaction after its exchange: the answer, the row to commit, and the pair it held when it may be
spent. -/
def afterExchange (hashToken : Token → TokenHash) (keyId : ℕ) (dbNow : UnixMs) (userBlocked : Bool)
    (issued : Token) (held : ExchangedPair) (account : AccountTokens) :
    RefreshAnswer → AccessTokenResult × AccountTokens × Option ExchangedPair
  | .rateLimited => (.refreshRateLimited, account, none)
  | .invalidGrant =>
    (.accountRevoked (some .refreshInvalidGrant), revokeAccount account .refreshInvalidGrant, none)
  | .unknown =>
    (.accountRevoked (some .refreshOutcomeUnknown), revokeAccount account .refreshOutcomeUnknown,
      some held)
  | .rotated accessToken expiresInMs =>
    (if userBlocked then .userBlocked else .ok accessToken account.brokerUserId,
      { account with
        accessTokenEnc := some accessToken
        refreshTokenEnc := some issued
        tokenKeyId := keyId
        accessTokenExpiresAt := dbNow + expiresInMs
        refreshTokenHash := some (hashToken issued)
        tokenRotatedAt := some dbNow },
      some held)

/-! ## The callers -/

abbrev CallerId := ℕ

abbrev ProcessId := ℕ

inductive CallerPhase
  | idle
  /-- at the top of its loop -/
  | entering
  /-- waits for a flight of its process -/
  | awaiting (flight : CallerId)
  | reading
  /-- the fast read answered; nothing when it missed -/
  | hasRead (fast : Option AccessTokenResult)
  /-- its flight waits for the row's lock -/
  | locking
  | exchanging (refreshToken : Token) (held : ExchangedPair) (account : AccountTokens)
  | committing (result : AccessTokenResult) (row : Option AccountTokens)
    (exchanged : Option ExchangedPair)
  /-- the transaction is gone, and the pair it exchanged -/
  | abandoning (held : ExchangedPair)
  /-- a result, or a throw -/
  | done (result : Option AccessTokenResult)
  deriving DecidableEq, Repr

structure Caller where
  process : ProcessId
  options : AccessTokenOptions
  phase : CallerPhase
  deriving DecidableEq, Repr

/-- What the broker sees. -/
inductive RefreshEvent
  | presented (refreshToken : Token)
  | answered (refreshToken : Token) (answer : RefreshAnswer)
  deriving DecidableEq, Repr

structure TokenWorld where
  row : Option AccountTokens
  userBlocked : Bool
  /-- the transaction that holds the row -/
  lock : Option CallerId
  keyId : ProcessId → ℕ
  flights : ProcessId → Option CallerId
  callers : CallerId → Caller
  /-- the next refresh token the broker issues -/
  issued : Token
  /-- newest first -/
  log : List RefreshEvent

inductive TokenAction
  | call (caller : CallerId) (process : ProcessId) (options : AccessTokenOptions)
  | enter (caller : CallerId)
  | resume (caller : CallerId)
  | read (caller : CallerId) (now : UnixMs)
  | check (caller : CallerId)
  /-- the lock is granted -/
  | grant (caller : CallerId) (now dbNow : UnixMs)
  | answer (caller : CallerId) (answer : RefreshAnswer) (dbNow : UnixMs)
  | commit (caller : CallerId)
  /-- the transaction rolls back -/
  | fail (caller : CallerId)
  /-- the commit lands, and is reported as a failure -/
  | commitUnknown (caller : CallerId)
  /-- the second transaction of a lost pair -/
  | abandon (caller : CallerId)
  | setBlocked (blocked : Bool)
  /-- the user logs in again -/
  | relink (accessToken : Token) (keyId : ℕ) (dbNow : UnixMs) (expiresInMs : ℤ)

namespace TokenWorld

variable (hashToken : Token → TokenHash) (w : TokenWorld)

def setPhase (c : CallerId) (phase : CallerPhase) : TokenWorld :=
  { w with callers := Function.update w.callers c { w.callers c with phase := phase } }

def phase (c : CallerId) : CallerPhase := (w.callers c).phase

def flight (c : CallerId) : Option CallerId := w.flights (w.callers c).process

/-- The flight's end, with what its caller gets. -/
def land (c : CallerId) (result : Option AccessTokenResult) : TokenWorld :=
  { w.setPhase c (.done result) with
    flights := Function.update w.flights (w.callers c).process none }

def grant (c : CallerId) (now dbNow : UnixMs) : TokenWorld :=
  match w.phase c, w.lock with
  | .locking, none =>
    match w.row with
    | none =>
      { w.setPhase c (.committing .accountNotFound none none) with lock := some c }
    | some account =>
      match decideLocked hashToken (w.keyId (w.callers c).process) (w.callers c).options now dbNow
        w.userBlocked account with
      | .answer result account =>
        { w.setPhase c (.committing result (some account) none) with lock := some c }
      | .exchange refreshToken held account =>
        { w.setPhase c (.exchanging refreshToken held account) with
          lock := some c
          log := .presented refreshToken :: w.log }
  | _, _ => w

def answer (c : CallerId) (answer : RefreshAnswer) (dbNow : UnixMs) : TokenWorld :=
  match w.phase c with
  | .exchanging refreshToken held account =>
    let (result, account, exchanged) := afterExchange hashToken (w.keyId (w.callers c).process) dbNow
      w.userBlocked w.issued held account answer
    { w.setPhase c (.committing result (some account) exchanged) with
      issued := w.issued + 1
      log := .answered refreshToken answer :: w.log }
  | _ => w

def act (w : TokenWorld) : TokenAction → TokenWorld
  | .call c process options =>
    match w.phase c with
    | .idle =>
      { w with callers := Function.update w.callers c ⟨process, options, .entering⟩ }
    | _ => w
  | .enter c =>
    match w.phase c with
    | .entering =>
      match w.flight c with
      | some flight => w.setPhase c (.awaiting flight)
      | none => w.setPhase c .reading
    | _ => w
  | .resume c =>
    match w.phase c with
    | .awaiting flight => if w.flight c = some flight then w else w.setPhase c .entering
    | _ => w
  | .read c now =>
    match w.phase c with
    | .reading =>
      w.setPhase c (.hasRead
        (if (w.callers c).options.refusedToken.isSome then none
        else readStoredToken hashToken (w.keyId (w.callers c).process) (w.callers c).options now
          w.userBlocked w.row))
    | _ => w
  | .check c =>
    match w.phase c with
    | .hasRead fast =>
      match w.flight c, fast with
      | some flight, _ => w.setPhase c (.awaiting flight)
      | none, some result => w.setPhase c (.done (some result))
      | none, none =>
        { w.setPhase c .locking with
          flights := Function.update w.flights (w.callers c).process (some c) }
    | _ => w
  | .grant c now dbNow => w.grant hashToken c now dbNow
  | .answer c answer dbNow => w.answer hashToken c answer dbNow
  | .commit c =>
    match w.phase c with
    | .committing result row _ => { w.land c (some result) with row := row, lock := none }
    | _ => w
  | .fail c =>
    match w.phase c with
    | .locking => w.land c none
    | .committing _ _ none => { w.land c none with lock := none }
    | .committing _ _ (some held) => { w.setPhase c (.abandoning held) with lock := none }
    | _ => w
  | .commitUnknown c =>
    match w.phase c with
    | .committing _ row none => { w.land c none with row := row, lock := none }
    | .committing _ row (some held) =>
      { w.setPhase c (.abandoning held) with row := row, lock := none }
    | _ => w
  | .abandon c =>
    match w.phase c, w.lock with
    | .abandoning held, none =>
      let (outcome, row) := revokeAccountIfUnchanged w.row held .refreshOutcomeUnknown
      { w.land c (match outcome with
          | .revoked => some (.accountRevoked (some .refreshOutcomeUnknown))
          | .alreadyRevoked reason => some (.accountRevoked reason)
          | .changed => none
          | .missing => none) with row := row }
    | _, _ => w
  | .setBlocked blocked => { w with userBlocked := blocked }
  | .relink accessToken keyId dbNow expiresInMs =>
    match w.row, w.lock with
    | some account, none =>
      { w with
        row := some
          { account with
            status := if account.status = .pending then .pending else .active
            authRevokedReason := none
            accessTokenEnc := some accessToken
            refreshTokenEnc := some w.issued
            tokenKeyId := keyId
            accessTokenExpiresAt := dbNow + expiresInMs
            refreshTokenHash := some (hashToken w.issued)
            tokenRotatedAt := some dbNow }
        issued := w.issued + 1 }
    | _, _ => w

end TokenWorld

end Binarius
