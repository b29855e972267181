import Mathlib.Tactic

/-!
# BrokerRest.Rest — what a call of the broker's REST API ends with (packages/broker-rest: rest.ts)

The code of a failure comes from the HTTP status or from how the transport failed, never from the body.

* `send`: one call, inside its deadline.
* `send_refused`: **only a 4xx is read as refused**; `send_ok`: only a 2xx that parses is an answer.
-/

namespace Binarius

inductive BrokerRestErrorCode
  | unauthorized
  | rateLimited
  | rejected
  | unavailable
  | contractViolation
  | aborted
  deriving DecidableEq, Repr

/-- The broker refused before it acted (docs/broker-rest.md, Errors). -/
def BrokerRestErrorCode.refused : BrokerRestErrorCode → Bool
  | unauthorized => true
  | rateLimited => true
  | rejected => true
  | _ => false

structure BrokerRestError where
  code : BrokerRestErrorCode
  status : Option ℕ := none
  retryAfterSec : Option ℕ := none
  detail : Option String := none
  deriving DecidableEq, Repr

/-- What a call throws: a `BrokerRestError`, or anything else (a bad URL, a bug). -/
inductive RestThrown
  | rest (error : BrokerRestError)
  | other
  deriving DecidableEq, Repr

/-- The body of a 2xx. -/
inductive Body (α : Type)
  /-- cut mid-flight; `callerFirst`: the caller's own signal aborted first -/
  | cut (callerFirst : Bool)
  | tooLong
  | notJson
  | refusedByParse
  | parsed (value : α)
  deriving DecidableEq, Repr

inductive FetchOutcome (α : Type)
  | threw (callerFirst : Bool)
  | response (status : ℕ) (retryAfterSec : Option ℕ) (detail : Option String) (body : Body α)
  deriving DecidableEq, Repr

inductive DeadlineKind
  | timeout
  | aborted
  deriving DecidableEq, Repr

/-- How `withinDeadline` ends: the attempt settled, it was abandoned, or it threw before its fetch. -/
inductive CallEnd (α : Type)
  | settled (outcome : FetchOutcome α)
  | abandoned (kind : DeadlineKind)
  | broke
  deriving DecidableEq, Repr

variable {α : Type}

def statusCode (status : ℕ) : BrokerRestErrorCode :=
  if status = 401 then .unauthorized
  else if status = 429 then .rateLimited
  else if 400 ≤ status ∧ status < 500 then .rejected
  else .unavailable

def failure (callerFirst : Bool) (status : Option ℕ) : BrokerRestError :=
  if callerFirst then { code := .aborted } else { code := .unavailable, status := status }

def attempt : FetchOutcome α → Except BrokerRestError α
  | .threw callerFirst => .error (failure callerFirst none)
  | .response status retryAfterSec detail body =>
    if 300 ≤ status ∧ status < 400 then .error { code := .contractViolation, status := some status }
    else if status < 200 ∨ 400 ≤ status then
      .error
        { code := statusCode status, status := some status
          retryAfterSec := if statusCode status = .rateLimited then retryAfterSec else none
          detail := detail }
    else
      match body with
      | .cut callerFirst => .error (failure callerFirst (some status))
      | .tooLong => .error { code := .contractViolation, status := some status }
      | .notJson => .error { code := .contractViolation, status := some status }
      | .refusedByParse => .error { code := .contractViolation, status := some status }
      | .parsed value => .ok value

def abandonedError : DeadlineKind → BrokerRestError
  | .aborted => { code := .aborted }
  | .timeout => { code := .unavailable }

def send : CallEnd α → Except RestThrown α
  | .settled outcome =>
    match attempt outcome with
    | .ok value => .ok value
    | .error e => .error (.rest e)
  | .abandoned kind => .error (.rest (abandonedError kind))
  | .broke => .error .other

/-- The broker answered with a 4xx. -/
def CallEnd.refused : CallEnd α → Bool
  | .settled (.response status _ _ _) => decide (400 ≤ status) && decide (status < 500)
  | _ => false

/-- The broker answered with a 2xx that parses. -/
def CallEnd.answered : CallEnd α → Bool
  | .settled (.response status _ _ (.parsed _)) => decide (200 ≤ status) && decide (status < 300)
  | _ => false

theorem statusCode_refused {status : ℕ} :
    (statusCode status).refused = true ↔ 400 ≤ status ∧ status < 500 := by
  unfold statusCode
  split
  · subst status
    simp [BrokerRestErrorCode.refused]
  split
  · subst status
    simp [BrokerRestErrorCode.refused]
  split
  · rename_i h
    simp [BrokerRestErrorCode.refused, h]
  · rename_i h
    simp [BrokerRestErrorCode.refused, h]

theorem failure_not_refused (callerFirst : Bool) (status : Option ℕ) :
    (failure callerFirst status).code.refused = false := by
  cases callerFirst <;> rfl

theorem attempt_refused {outcome : FetchOutcome α} {e : BrokerRestError}
    (h : attempt outcome = .error e) (hcode : e.code.refused = true) :
    (CallEnd.settled outcome).refused = true := by
  cases outcome with
  | threw callerFirst =>
    obtain rfl := Except.error.inj h
    rw [failure_not_refused] at hcode
    simp at hcode
  | response status retryAfterSec detail body =>
    simp only [attempt] at h
    split at h
    · obtain rfl := Except.error.inj h
      simp [BrokerRestErrorCode.refused] at hcode
    split at h
    · obtain rfl := Except.error.inj h
      have hstatus := statusCode_refused.mp hcode
      simp [CallEnd.refused, hstatus.1, hstatus.2]
    · cases body with
      | cut callerFirst =>
        obtain rfl := Except.error.inj h
        rw [failure_not_refused] at hcode
        simp at hcode
      | parsed value => simp at h
      | _ =>
        obtain rfl := Except.error.inj h
        simp [BrokerRestErrorCode.refused] at hcode

/-- **Only a 4xx is read as refused before acting.** -/
theorem send_refused {call : CallEnd α} {e : BrokerRestError} (h : send call = .error (.rest e))
    (hcode : e.code.refused = true) : call.refused = true := by
  cases call with
  | settled outcome =>
    simp only [send] at h
    split at h
    · simp at h
    · rename_i e' he
      obtain rfl := RestThrown.rest.inj (Except.error.inj h)
      exact attempt_refused he hcode
  | abandoned kind =>
    obtain rfl := RestThrown.rest.inj (Except.error.inj h)
    cases kind <;> simp [abandonedError, BrokerRestErrorCode.refused] at hcode
  | broke => simp [send] at h

theorem send_ok {call : CallEnd α} {value : α} (h : send call = .ok value) :
    call.answered = true := by
  cases call with
  | settled outcome =>
    cases outcome with
    | threw callerFirst => simp [send, attempt] at h
    | response status retryAfterSec detail body =>
      simp only [send, attempt] at h
      by_cases hredirect : 300 ≤ status ∧ status < 400
      · simp [hredirect] at h
      by_cases hbad : status < 200 ∨ 400 ≤ status
      · simp [hredirect, hbad] at h
      simp only [if_neg hredirect, if_neg hbad] at h
      cases body with
      | parsed v =>
        simp only [CallEnd.answered, Bool.and_eq_true, decide_eq_true_eq]
        omega
      | _ => simp at h
  | abandoned kind => simp [send] at h
  | broke => simp [send] at h

end Binarius
