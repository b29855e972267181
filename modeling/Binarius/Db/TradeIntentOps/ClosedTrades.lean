import Mathlib.Tactic
import Binarius.Db.TradeIntentOps.Settle

/-!
# Db.TradeIntentOps.ClosedTrades — closed trades, from the socket and from a snapshot
(packages/db/src/trade-intent-ops.ts: `settleClosedTrades`, `settleClosedTrade`)

A call goes through its trades one by one, and each trade takes up to three statements: the link is read, the
intent is settled in a transaction of its own, and a lost race reads the link again.  Other statements run
between them.

* `classify`: the answer of a link, or the intent to settle.
* `SettleCall.read`, `SettleCall.settle`, `SettleCall.check`: the three statements.
-/

namespace Binarius

open Lib

/-- What `link` reads: the trade's status, its intent, and that intent's status. -/
structure TradeLink where
  tradeStatus : BrokerTradeStatus
  intentId : Option IntentId
  intentStatus : Option TradeIntentStatus
  deriving DecidableEq, Repr

/-- The lookup by (account, broker trade id), left joined to the intent. -/
def Db.tradeLink (db : Db) (brokerAccountId : AccountId) (brokerTradeId : String) : Option TradeLink :=
  (db.brokerTrades.find? (brokerAccountId, brokerTradeId)).map (fun row =>
    { tradeStatus := row.status
      intentId := row.intentId
      intentStatus := row.intentId.bind (fun id => (db.find id).map (·.status)) })

inductive ClosedTradeOutcome
  | settled (brokerTradeId : String) (intentId : IntentId)
  | alreadySettled (brokerTradeId : String) (intentId : IntentId)
  /-- no intent behind this trade: a manual trade, or an acceptance not persisted yet -/
  | notOurs (brokerTradeId : String)
  | intentNotAccepted (brokerTradeId : String) (intentId : IntentId) (status : TradeIntentStatus)
  deriving DecidableEq, Repr

/-- An outcome, or the accepted intent to settle. -/
def classify (brokerTradeId : String) (found : Option TradeLink) : ClosedTradeOutcome ⊕ IntentId :=
  match found with
  | none => .inl (.notOurs brokerTradeId)
  | some link =>
    match link.intentId, link.intentStatus with
    | some intentId, some status =>
      if link.tradeStatus = .closed then .inl (.alreadySettled brokerTradeId intentId)
      else if status ≠ .accepted then .inl (.intentNotAccepted brokerTradeId intentId status)
      else .inr intentId
    | _, _ => .inl (.notOurs brokerTradeId)

/-- Where a call of `settleClosedTrades` stands with its first trade. -/
inductive SettlePhase
  | reading
  | settling (intentId : IntentId)
  | checking (intentId : IntentId)
  | failed
  deriving DecidableEq, Repr

/-- A call of `settleClosedTrades`: the trades still to settle, and the answers so far. -/
structure SettleCall where
  brokerAccountId : AccountId
  trades : List ClosedTrade
  phase : SettlePhase := .reading
  outcomes : List ClosedTradeOutcome := []

namespace SettleCall

/-- The first trade has its answer. -/
def answer (d : SettleCall) (outcome : ClosedTradeOutcome) : SettleCall :=
  { d with trades := d.trades.tail, phase := .reading, outcomes := d.outcomes ++ [outcome] }

def read (db : Db) (d : SettleCall) : SettleCall :=
  match d.phase, d.trades with
  | .reading, trade :: _ =>
    match classify trade.trade.id (db.tradeLink d.brokerAccountId trade.trade.id) with
    | .inl outcome => d.answer outcome
    | .inr intentId => { d with phase := .settling intentId }
  | _, _ => d

/-- The settlement's transaction; an error is thrown out of the call. -/
def settle (now : UnixMs) (db : Db) (d : SettleCall) : Db × SettleCall :=
  match d.phase, d.trades with
  | .settling intentId, trade :: _ =>
    match (settleIntent now { id := intentId, fromStatus := .accepted, trade }).run db with
    | .ok (some _, db') => (db', d.answer (.settled trade.trade.id intentId))
    | .ok (none, db') => (db', { d with phase := .checking intentId })
    | .error _ => (db, { d with phase := .failed })
  | _, _ => (db, d)

/-- A concurrent writer won: report what it left. -/
def check (db : Db) (d : SettleCall) : SettleCall :=
  match d.phase, d.trades with
  | .checking intentId, trade :: _ =>
    match classify trade.trade.id (db.tradeLink d.brokerAccountId trade.trade.id) with
    | .inl outcome => d.answer outcome
    | .inr _ => d.answer (.intentNotAccepted trade.trade.id intentId .accepted)
  | _, _ => d

/-- A database error ends the call; the trades before are applied. -/
def fail (d : SettleCall) : SettleCall := { d with phase := .failed }

end SettleCall

end Binarius
