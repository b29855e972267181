import Mathlib.Tactic
import Binarius.Lib.Runs
import Binarius.Lib.BoundedMap

/-!
# Worker.TokenCache — the worker's access-token cache
(apps/trading-worker/src/broker/access-token.ts, createCachedAccessTokenSource)

A flight is an object of its own: a request keeps the one it got from the map, also when the map no longer
holds it.  A call's way to its request and a request's way from its answer to the end are one step each.

* `CacheEvent`: what the cache did, in order.
* `TokenCache.call`, `TokenCache.answer`: **the two steps**.
-/

namespace Binarius

open Lib

/-! ## The cache -/

/-- What the inner source answers a request; a throw is a bug of the source. -/
inductive InnerAnswer
  | ok (accessToken : String)
  | failed (reason : String)
  | threw
  deriving DecidableEq, Repr

/-- The limits; the worker's are constants. -/
structure TokenCacheOptions where
  ttlMs : ℤ
  maxEntries : ℕ
  maxEntries_pos : 0 < maxEntries

structure StoredToken where
  accessToken : String
  expiresAt : ℤ
  deriving DecidableEq, Repr

structure TokenCacheEntry where
  token : Option StoredToken
  /-- the fingerprint of the token the account last reported refused -/
  refused : Option String
  deriving DecidableEq, Repr

structure TokenFlight where
  requests : ℕ
  generation : ℕ
  deriving DecidableEq, Repr

/-- A request at the inner source: its account, its flight and the generation it started at. -/
structure CacheRequest where
  id : ℕ
  account : String
  flight : ℕ
  generation : ℕ
  deriving DecidableEq, Repr

/-- What the cache did; a request that reports a refused token carries its fingerprint. -/
inductive CacheEvent
  | served (account accessToken : String) (moment : ℤ)
  | asked (id : ℕ) (account : String) (refusedToken : Option String)
  | answered (id : ℕ) (answer : InnerAnswer)
  | stored (id : ℕ) (account accessToken : String) (moment : ℤ)
  | evicted (account : String)
  deriving DecidableEq, Repr

structure TokenCache where
  entries : OrderedMap String TokenCacheEntry
  /-- the flight of an account that has requests at the inner source -/
  inFlight : String → Option ℕ
  flights : ℕ → TokenFlight
  /-- the flights made so far -/
  made : ℕ
  pending : List CacheRequest
  /-- the requests begun so far -/
  asked : ℕ
  log : List CacheEvent

def createTokenCache : TokenCache where
  entries := .empty
  inFlight := fun _ => none
  flights := fun _ => ⟨0, 0⟩
  made := 0
  pending := []
  asked := 0
  log := []

namespace TokenCache

variable (o : TokenCacheOptions) (hashToken : String → String) (s : TokenCache)

def note (e : CacheEvent) : TokenCache := { s with log := s.log ++ [e] }

/-- An entry is set at the end; a full map loses its first. -/
def set (account : String) (entry : TokenCacheEntry) : TokenCache :=
  { s with
    entries := s.entries.renew o.maxEntries account entry
    log := s.log ++ (s.entries.evicts o.maxEntries account).toList.map .evicted }

def store (id : ℕ) (account accessToken : String) (now : ℤ) : TokenCache :=
  let refused := (s.entries.get? account).bind TokenCacheEntry.refused
  if refused = some (hashToken accessToken) then s
  else (s.note (.stored id account accessToken now)).set o account ⟨some ⟨accessToken, now + o.ttlMs⟩, refused⟩

/-- The token a call is served from its entry. -/
def served? (account : String) (refusedToken : Option String) (aborted : Bool) (now : ℤ) : Option StoredToken :=
  if refusedToken = none ∧ aborted = false then
    ((s.entries.get? account).bind TokenCacheEntry.token).filter (fun token => now < token.expiresAt)
  else none

/-- The account's flight; one is made where it has none. -/
def flightOf (account : String) : TokenCache × ℕ :=
  match s.inFlight account with
  | some flight => (s, flight)
  | none =>
    ({ s with
        inFlight := Function.update s.inFlight account (some s.made)
        flights := Function.update s.flights s.made ⟨0, 0⟩
        made := s.made + 1 }, s.made)

/-- A report drops the account's token and moves the generation on. -/
def report (account : String) (flight : ℕ) (refusedToken : Option String) : TokenCache :=
  match refusedToken with
  | none => s
  | some fingerprint =>
    let s := s.set o account ⟨none, some fingerprint⟩
    { s with
      flights := Function.update s.flights flight
        { s.flights flight with generation := (s.flights flight).generation + 1 } }

/-- The request at the inner source begins. -/
def request (account : String) (flight : ℕ) : TokenCache :=
  { s with
    flights := Function.update s.flights flight
      { s.flights flight with requests := (s.flights flight).requests + 1 }
    pending := ⟨s.asked, account, flight, (s.flights flight).generation⟩ :: s.pending
    asked := s.asked + 1 }

/-- A call of `accessToken`, up to its answer from the entry or to its request. -/
def call (account : String) (refusedToken : Option String) (aborted : Bool) (now : ℤ) : TokenCache :=
  match s.served? account refusedToken aborted now with
  | some token => s.note (.served account token.accessToken now)
  | none =>
    let (s, flight) := s.flightOf account
    ((s.note (.asked s.asked account refusedToken)).report o account flight refusedToken).request account flight

/-- The end of a request; a flight without requests leaves the map. -/
def finish (r : CacheRequest) : TokenCache :=
  let requests := (s.flights r.flight).requests - 1
  { s with
    flights := Function.update s.flights r.flight { s.flights r.flight with requests := requests }
    pending := s.pending.erase r
    inFlight := if requests = 0 then Function.update s.inFlight r.account none else s.inFlight }

/-- The inner source answers a request. -/
def answer (id : ℕ) (answer : InnerAnswer) (now : ℤ) : TokenCache :=
  match s.pending.find? (fun r => r.id = id) with
  | none => s
  | some r =>
    let s := s.note (.answered id answer)
    let s := match answer with
      | .ok accessToken =>
        if (s.flights r.flight).generation = r.generation then s.store o hashToken id r.account accessToken now else s
      | _ => s
    s.finish r

end TokenCache

/-! ## Runs -/

inductive CacheCall
  | call (account : String) (refusedToken : Option String) (aborted : Bool) (now : ℤ)
  | answer (id : ℕ) (answer : InnerAnswer) (now : ℤ)
  deriving DecidableEq, Repr

/-- The cache and the last reading of the clock. -/
structure CacheRun where
  cache : TokenCache
  clock : ℤ

namespace CacheRun

def start (now : ℤ) : CacheRun where
  cache := createTokenCache
  clock := now

def act (o : TokenCacheOptions) (hashToken : String → String) (w : CacheRun) : CacheCall → CacheRun
  | .call account refusedToken aborted now =>
    { cache := w.cache.call o account refusedToken aborted now, clock := now }
  | .answer id answer now => { cache := w.cache.answer o hashToken id answer now, clock := now }

/-- The clock does not go back. -/
def Ok (w : CacheRun) : CacheCall → Prop
  | .call _ _ _ now => w.clock ≤ now
  | .answer _ _ now => w.clock ≤ now

end CacheRun

end Binarius
