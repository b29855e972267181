import Mathlib.Tactic
import Binarius.Lib.OrderedMap

/-!
# Backend.Mailing — the mailing engine and its jobs (packages/db/src/mailing-ops.ts, delivery-ops.ts,
apps/backend/src/mailing/engine.ts)

* `MailingJob`: a row of `notification_jobs`, found by the user and the dedupe key.
* `planJobRow`, `claimJobRow`, `settleJobRow`, `cancelJobRow`: what the four statements do to a row.
* `Delivery`: one claim on its way: built, handed to Telegram, settled; its process may end anywhere.
* `Mailing.act`: **one event** of any number of planners and senders.

Each statement is one autocommit statement, so its commit is one event.  Which rows a statement picks
beyond their status and due time (the scenario still applies, the user may be mailed) is the event's own.
-/

namespace Binarius

open Lib

inductive JobStatus
  | pending
  | sent
  | failed
  | canceled
  deriving DecidableEq, Repr

/-- What the unique index finds a job by. -/
structure JobKey where
  userId : ℕ
  dedupeKey : String
  deriving DecidableEq, Repr

structure MailingJob where
  kind : String
  status : JobStatus
  scheduledAt : ℕ
  sentAt : Option ℕ
  attempts : ℕ
  lastError : Option String
  deriving DecidableEq, Repr

/-- Written by the claim and cleared when Telegram accepted the message. -/
def mailingOutcomeUnknown : String := "outcome_unknown"

/-- Handed to Telegram, or about to be, with no answer written. -/
def MailingJob.Claimed (job : MailingJob) : Prop :=
  job.status = .sent ∧ job.lastError = some mailingOutcomeUnknown

instance (job : MailingJob) : Decidable job.Claimed := inferInstanceAs (Decidable (_ ∧ _))

/-- A fact the planner found due: the key it would be planned under. -/
structure PlannedFact where
  key : JobKey
  kind : String
  scheduledAt : ℕ
  deriving DecidableEq, Repr

/-- What became of a claimed job. -/
inductive MailingOutcome
  | delivered
  | refused (lastError : String)
  | deferred (lastError : String) (afterMs : ℕ)
  | retry (lastError : String) (afterMs : ℕ)
  deriving DecidableEq, Repr

section Statements

/-- `insert … on conflict`: a new pending job, or a canceled one of a `replansCanceled` kind taken
back. -/
def planJobRow (replansCanceled : String → Bool) (fact : PlannedFact) : Option MailingJob → MailingJob
  | none => ⟨fact.kind, .pending, fact.scheduledAt, none, 0, none⟩
  | some job =>
    if replansCanceled fact.kind = true ∧ job.status = .canceled then
      { job with status := .pending, scheduledAt := fact.scheduledAt, sentAt := none, attempts := 0,
                 lastError := none }
    else job

/-- The claim's mark. -/
def claimJobRow (now : ℕ) (job : MailingJob) : MailingJob :=
  { job with status := .sent, sentAt := some now, lastError := some mailingOutcomeUnknown }

/-- The outcome onto the row the claim marked; a row no longer in that state is left alone. -/
def settleJobRow (maxAttempts now : ℕ) (outcome : MailingOutcome) (job : MailingJob) : MailingJob :=
  if job.Claimed then
    match outcome with
    | .delivered => { job with lastError := none }
    | .refused lastError =>
      { job with status := .failed, sentAt := none, attempts := job.attempts + 1,
                 lastError := some lastError }
    | .deferred lastError afterMs =>
      { job with status := .pending, sentAt := none, lastError := some lastError,
                 scheduledAt := now + afterMs }
    | .retry lastError afterMs =>
      { job with status := if maxAttempts ≤ job.attempts + 1 then .failed else .pending,
                 sentAt := none, attempts := job.attempts + 1, lastError := some lastError,
                 scheduledAt := now + afterMs }
  else job

/-- `where status = 'pending'` -/
def cancelJobRow (job : MailingJob) : MailingJob :=
  if job.status = .pending then { job with status := .canceled } else job

end Statements

/-- What came of handing a message to Telegram. -/
inductive Handing
  | none
  | inWork
  | accepted
  | refused
  /-- a 5xx, a timeout, the transport, the process: it may have been delivered -/
  | unknown
  deriving DecidableEq, Repr

inductive DeliveryPhase
  | building
  | sending
  /-- the settle's statement: it may commit late, without an answer, or never -/
  | settling (outcome : MailingOutcome)
  | over
  deriving DecidableEq, Repr

/-- One claim: the job, how far its sender is, and what came of handing it over. -/
structure Delivery where
  key : JobKey
  phase : DeliveryPhase
  handing : Handing
  deriving DecidableEq, Repr

/-- Telegram's answer to a send, as `sendFailureOf` reads it. -/
inductive SendAnswer
  | accepted
  | forbidden (lastError : String)
  | wait (lastError : String) (ms : ℕ)
  | refused (lastError : String)
  | unknown
  deriving DecidableEq, Repr

structure MailingConfig where
  maxAttempts : ℕ
  retryMs : ℕ
  replansCanceled : String → Bool

/-- `outcomeOf` and the settle after it. -/
def answeredDelivery (config : MailingConfig) (delivery : Delivery) : SendAnswer → Delivery
  | .accepted => { delivery with phase := .settling .delivered, handing := .accepted }
  | .forbidden lastError => { delivery with phase := .settling (.refused lastError), handing := .refused }
  | .wait lastError ms =>
    { delivery with phase := .settling (.deferred lastError ms), handing := .refused }
  | .refused lastError =>
    { delivery with phase := .settling (.retry lastError config.retryMs), handing := .refused }
  | .unknown => { delivery with phase := .over, handing := .unknown }

/-- The process ends: what it was sending may have been delivered. -/
def crashedDelivery (delivery : Delivery) : Delivery :=
  match delivery.phase with
  | .building => { delivery with phase := .over }
  | .sending => { delivery with phase := .over, handing := .unknown }
  | _ => delivery

structure Mailing where
  jobs : OrderedMap JobKey MailingJob
  /-- every claim so far, in order -/
  deliveries : List Delivery

namespace Mailing

def start : Mailing := ⟨OrderedMap.empty, []⟩

inductive Act
  | plan (facts : List PlannedFact)
  /-- the due rows with whether their scenario applies; an unanswered claim has no sender -/
  | claim (now : ℕ) (due : List (JobKey × Bool)) (answered : Bool)
  | notBuilt (index : ℕ) (lastError : String)
  | hand (index : ℕ)
  | answer (index : ℕ) (answer : SendAnswer)
  | crash (index : ℕ)
  | settle (index : ℕ) (now : ℕ)
  | settleFailed (index : ℕ)
  /-- the level off, a block: the user's pending jobs but those of the kinds left out -/
  | cancel (userId : ℕ) (except : List String)

variable (config : MailingConfig)

def planOne (m : OrderedMap JobKey MailingJob) (fact : PlannedFact) : OrderedMap JobKey MailingJob :=
  m.set fact.key (planJobRow config.replansCanceled fact (m.get? fact.key))

/-- One change of a row that is there. -/
def changeRow (f : MailingJob → MailingJob) (key : JobKey) (m : OrderedMap JobKey MailingJob) :
    OrderedMap JobKey MailingJob :=
  match m.get? key with
  | some job => m.set key (f job)
  | none => m

def setDelivery (s : Mailing) (index : ℕ) (delivery : Delivery) : Mailing :=
  { s with deliveries := s.deliveries.set index delivery }

/-- The pending rows due now. -/
def IsDue (s : Mailing) (now : ℕ) (key : JobKey) : Prop :=
  ∃ job, s.jobs.get? key = some job ∧ job.status = .pending ∧ job.scheduledAt ≤ now

instance (s : Mailing) (now : ℕ) (key : JobKey) : Decidable (s.IsDue now key) :=
  match h : s.jobs.get? key with
  | none => isFalse (fun ⟨job, hjob, _⟩ => by rw [h] at hjob; cases hjob)
  | some job =>
    decidable_of_iff (job.status = .pending ∧ job.scheduledAt ≤ now)
      ⟨fun hdue => ⟨job, h, hdue⟩, fun ⟨job', hjob, hdue⟩ => by
        rw [h] at hjob
        injection hjob with hjob
        rw [hjob]
        exact hdue⟩

/-- One event; what is not enabled changes nothing. -/
def act (s : Mailing) : Act → Mailing
  | .plan facts => { s with jobs := facts.foldl (planOne config) s.jobs }
  | .claim now due answered =>
    if (due.map Prod.fst).Nodup ∧ ∀ d ∈ due, s.IsDue now d.1 then
      let canceled := (due.filter (fun d => d.2 = false)).foldl
        (fun jobs d => changeRow cancelJobRow d.1 jobs) s.jobs
      match due.find? (fun d => d.2 = true) with
      | none => { s with jobs := canceled }
      | some d =>
        { jobs := changeRow (claimJobRow now) d.1 canceled
          deliveries := s.deliveries ++ [⟨d.1, if answered then .building else .over, .none⟩] }
    else s
  | .notBuilt index lastError =>
    match s.deliveries[index]? with
    | some delivery =>
      if delivery.phase = .building then
        s.setDelivery index { delivery with phase := .settling (.retry lastError config.retryMs) }
      else s
    | none => s
  | .hand index =>
    match s.deliveries[index]? with
    | some delivery =>
      if delivery.phase = .building then
        s.setDelivery index { delivery with phase := .sending, handing := .inWork }
      else s
    | none => s
  | .answer index answer =>
    match s.deliveries[index]? with
    | some delivery =>
      if delivery.phase = .sending then s.setDelivery index (answeredDelivery config delivery answer)
      else s
    | none => s
  | .crash index =>
    match s.deliveries[index]? with
    | some delivery => s.setDelivery index (crashedDelivery delivery)
    | none => s
  | .settle index now =>
    match s.deliveries[index]? with
    | some delivery =>
      match delivery.phase with
      | .settling outcome =>
        { jobs := changeRow (settleJobRow config.maxAttempts now outcome) delivery.key s.jobs
          deliveries := s.deliveries.set index { delivery with phase := .over } }
      | _ => s
    | none => s
  | .settleFailed index =>
    match s.deliveries[index]? with
    | some delivery =>
      match delivery.phase with
      | .settling _ => s.setDelivery index { delivery with phase := .over }
      | _ => s
    | none => s
  | .cancel userId except =>
    { s with jobs := s.jobs.mapVal (fun key job =>
        if key.userId = userId ∧ job.kind ∉ except then cancelJobRow job else job) }

end Mailing

end Binarius
