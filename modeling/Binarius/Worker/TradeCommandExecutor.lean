import Mathlib.Tactic
import Binarius.BrokerRest.Rest
import Binarius.BrokerSocket.Attribution
import Binarius.Worker.World

/-!
# Worker.TradeCommandExecutor — one call of `submit` (apps/trading-worker/src/intents:
trade-command-executor.ts, processor.ts)

The two-cases rule: the order goes out over the socket when the account's session is ready, and over REST
only when nothing was emitted.  A call is a state machine over its awaits; the socket client it uses goes
on living beside it (other calls' commands included), and the processor races the call against its own
deadline, whose abort reaches the client.

* `SubmitRun.step`: one step of the call, of the client, or the deadline.
* `SubmitRun.Inv`: what each await knows of the order.
* `submit_two_cases`: **at most once over both paths, and no answer invented**.
-/

namespace Binarius

open Lib

/-- What the access token source answers. -/
inductive TokenAnswer
  | ok
  | refused
  | threw
  deriving DecidableEq, Repr

/-- How a call of `submit` ends. -/
inductive SubmitEnd
  | returned (result : SubmitResult)
  | threw
  deriving DecidableEq, Repr

/-- What a call of `submit` waits on. -/
inductive SubmitPhase
  | waiting
  /-- the promise of its `openTrade` call -/
  | socket (id : ℕ)
  | token
  | rest
  | ended (e : SubmitEnd)
  deriving DecidableEq, Repr

/-- The result the processor records of an ended call: a throw is unknown. -/
def SubmitEnd.recorded : SubmitEnd → SubmitResult
  | .returned result => result
  | .threw => .unknown .executorError

structure SubmitRun where
  client : Client
  phase : SubmitPhase
  /-- the number of its `openTrade` call -/
  command : Option ℕ
  /-- REST requests it sent -/
  requests : ℕ
  restAnswer : Option (CallEnd BrokerTrade)
  /-- the processor's signal -/
  aborted : Bool
  /-- what the processor goes on with -/
  outcome : Option SubmitResult

inductive SubmitEvent
  /-- something else happens to the client -/
  | socket (e : SocketEvent)
  /-- submitAckTimeoutMs -/
  | deadline
  /-- the call; `held`: the session manager holds a client for the account -/
  | submit (held stopsInside : Bool)
  /-- the promise of `openTrade` is settled -/
  | resume
  | token (answer : TokenAnswer)
  | rest (answer : CallEnd BrokerTrade)

namespace SubmitRun

/-- A call before it starts, with the client as it is. -/
def start (client : Client) : SubmitRun where
  client := client
  phase := .waiting
  command := none
  requests := 0
  restAnswer := none
  aborted := false
  outcome := none

/-- The request's amount as the executor writes it; a value that is no decimal string throws. -/
def request (intent : TradeIntentRow) : Option SocketOpenTradeRequest :=
  let amount := normalizeDecimal intent.amount
  if isDecimalString amount then
    some { assetId := intent.assetId, amount := amount, action := intent.action
           durationSec := intent.durationSec }
  else none

/-- The call ends; the processor goes on with it unless its deadline came first. -/
def finish (w : SubmitRun) (e : SubmitEnd) : SubmitRun :=
  { w with phase := .ended e, outcome := w.outcome.or (some e.recorded) }

def UNKNOWN : SubmitEnd := .returned (.unknown .brokerUnavailable)

/-- What the client's promise of a call settled with. -/
def promise (c : Client) (id : ℕ) : Option OpenTradeAnswer :=
  (c.answers.find? (fun x => x.1 = id)).map Prod.snd

/-- The executor's reading of the socket's answer. -/
def onSocketAnswer (w : SubmitRun) : OpenTradeAnswer → SubmitRun
  | .threw => w.finish .threw
  | .result (.success trade) => w.finish (.returned (.accepted .socket trade))
  | .result (.fail _) => w.finish (.returned (.rejected .brokerRejected))
  | .result (.notSent .notReady _) => { w with phase := .token }
  | .result (.notSent .aborted _) => w.finish UNKNOWN
  | .result (.unknown _ _) => w.finish UNKNOWN

/-- The executor's reading of the REST call. -/
def restEnd (answer : CallEnd BrokerTrade) : SubmitEnd :=
  match send answer with
  | .ok trade => .returned (.accepted .restFallback trade)
  | .error .other => .threw
  | .error (.rest e) =>
    match e.code with
    | .unauthorized => .returned (.rejected .brokerRejected)
    | .rateLimited => .returned (.rejected .brokerRejected)
    | .rejected => .returned (.rejected .brokerRejected)
    | .unavailable => UNKNOWN
    | .contractViolation => UNKNOWN
    | .aborted => UNKNOWN

def step (intent : TradeIntentRow) (w : SubmitRun) : SubmitEvent → SubmitRun
  | .socket e => { w with client := w.client.step e }
  | .deadline =>
    match w.outcome with
    | some _ => w
    | none =>
      { w with
        aborted := true
        outcome := some (.unknown .executorTimeout)
        client :=
          match w.phase with
          | .socket id => w.client.step (.abort id)
          | _ => w.client }
  | .submit held stopsInside =>
    match w.phase with
    | .waiting =>
      match request intent with
      | none => w.finish .threw
      | some request =>
        if held then
          { w with
            client := w.client.step (.openTrade intent.mode request w.aborted stopsInside)
            phase := .socket w.client.calls
            command := some w.client.calls }
        else { w with phase := .token }
    | _ => w
  | .resume =>
    match w.phase with
    | .socket id =>
      match promise w.client id with
      | none => w
      | some answer => w.onSocketAnswer answer
    | _ => w
  | .token answer =>
    match w.phase with
    | .token =>
      match answer with
      | .ok => { w with phase := .rest, requests := w.requests + 1 }
      | .refused => w.finish (.returned (.rejected .brokerRejected))
      | .threw => w.finish .threw
    | _ => w
  | .rest answer =>
    match w.phase with
    | .rest => { w with restAnswer := some answer }.finish (restEnd answer)
    | _ => w

/-! ## The order -/

/-- How often the call emitted its order over the socket. -/
def emissions (w : SubmitRun) : ℕ :=
  match w.command with
  | none => 0
  | some id => (w.client.emitted.map Command.id).count id

/-- The broker definitely refused the order. -/
def refused (w : SubmitRun) : Prop :=
  (∃ id failures, w.command = some id ∧ (id, .result (.fail failures)) ∈ w.client.answers) ∨
    ∃ answer, w.restAnswer = some answer ∧ answer.refused = true

/-- The broker definitely took the order. -/
def accepted (w : SubmitRun) : Prop :=
  (∃ id trade, w.command = some id ∧ (id, .result (.success trade)) ∈ w.client.answers) ∨
    ∃ answer, w.restAnswer = some answer ∧ answer.answered = true

/-- The order never went out over the socket: there is no client, or it answered `not_sent`. -/
def silent (w : SubmitRun) : Prop :=
  ∀ id, w.command = some id →
    ∃ reason state, (id, .result (.notSent reason state)) ∈ w.client.answers

/-- The two-cases rule, of one call at any moment of its run. -/
structure TwoCases (w : SubmitRun) : Prop where
  once : w.emissions + w.requests ≤ 1
  fallback : 0 < w.requests → w.emissions = 0
  rejected : ∀ reason, w.phase = .ended (.returned (.rejected reason)) ∨
    w.outcome = some (.rejected reason) → w.refused ∨ w.emissions + w.requests = 0
  unanswered : 0 < w.emissions + w.requests → ¬ w.refused → ¬ w.accepted →
    (∀ e, w.phase = .ended e → e = .threw ∨ ∃ reason, e = .returned (.unknown reason)) ∧
      ∀ result, w.outcome = some result → ∃ reason, result = .unknown reason

/-- What is known of the order at each await. -/
def Knows (w : SubmitRun) : SubmitPhase → Prop
  | .waiting => w.command = none ∧ w.requests = 0
  | .socket id => w.command = some id ∧ w.requests = 0
  | .token => w.silent ∧ w.requests = 0
  | .rest => w.silent ∧ w.requests = 1
  | .ended (.returned (.accepted _ _)) => w.accepted ∧ (w.requests = 0 ∨ w.silent ∧ w.requests = 1)
  | .ended (.returned (.rejected _)) =>
    (w.refused ∨ w.silent ∧ w.requests = 0) ∧ (w.requests = 0 ∨ w.silent ∧ w.requests = 1)
  | .ended _ => w.requests = 0 ∨ w.silent ∧ w.requests = 1

structure Inv (w : SubmitRun) : Prop where
  client : w.client.Inv
  phase : w.Knows w.phase
  recorded : ∀ result, w.outcome = some result →
    result = .unknown .executorTimeout ∨ ∃ e, w.phase = .ended e ∧ result = e.recorded

section Steps

variable {w : SubmitRun} {intent : TradeIntentRow}

/-- What is known stays known while the client goes on. -/
theorem Knows.client_step {p : SubmitPhase} (h : w.Knows p) (e : SocketEvent) (aborted : Bool)
    (outcome : Option SubmitResult) :
    Knows { w with client := w.client.step e, aborted := aborted, outcome := outcome } p := by
  have hsilent : w.silent →
      silent { w with client := w.client.step e, aborted := aborted, outcome := outcome } := by
    intro hs id hid
    obtain ⟨reason, state, hmem⟩ := hs id hid
    exact ⟨reason, state, Client.keeps_step e hmem⟩
  have hrefused : w.refused →
      refused { w with client := w.client.step e, aborted := aborted, outcome := outcome } := by
    rintro (⟨id, failures, hid, hmem⟩ | hrest)
    · exact .inl ⟨id, failures, hid, Client.keeps_step e hmem⟩
    · exact .inr hrest
  have haccepted : w.accepted →
      accepted { w with client := w.client.step e, aborted := aborted, outcome := outcome } := by
    rintro (⟨id, trade, hid, hmem⟩ | hrest)
    · exact .inl ⟨id, trade, hid, Client.keeps_step e hmem⟩
    · exact .inr hrest
  have hrequests : (w.requests = 0 ∨ w.silent ∧ w.requests = 1) → w.requests = 0 ∨
      silent { w with client := w.client.step e, aborted := aborted, outcome := outcome } ∧
        w.requests = 1 := by
    rintro (hzero | ⟨hs, hone⟩)
    · exact .inl hzero
    · exact .inr ⟨hsilent hs, hone⟩
  cases p with
  | waiting => exact h
  | socket id => exact h
  | token => exact ⟨hsilent h.1, h.2⟩
  | rest => exact ⟨hsilent h.1, h.2⟩
  | ended end_ =>
    cases end_ with
    | threw => exact hrequests h
    | returned result =>
      cases result with
      | accepted transport trade => exact ⟨haccepted h.1, hrequests h.2⟩
      | rejected reason =>
        refine ⟨?_, hrequests h.2⟩
        rcases h.1 with hr | ⟨hs, hzero⟩
        · exact .inl (hrefused hr)
        · exact .inr ⟨hsilent hs, hzero⟩
      | unknown reason => exact hrequests h

theorem recorded_finish (h : w.Inv) (hnot : ∀ e, w.phase ≠ .ended e) (e : SubmitEnd) :
    ∀ result, (w.finish e).outcome = some result →
      result = .unknown .executorTimeout ∨ ∃ e', (w.finish e).phase = .ended e' ∧ result = e'.recorded := by
  intro result hres
  cases hout : w.outcome with
  | none =>
    simp only [finish, hout, Option.none_or, Option.some.injEq] at hres
    exact .inr ⟨e, rfl, hres.symm⟩
  | some r =>
    simp only [finish, hout, Option.some_or, Option.some.injEq] at hres
    rcases h.recorded r hout with hr | ⟨e', hphase, _⟩
    · exact .inl (hres.symm.trans hr)
    · exact absurd hphase (hnot e')

theorem promise_mem {c : Client} {id : ℕ} {a : OpenTradeAnswer} (h : promise c id = some a) :
    (id, a) ∈ c.answers := by
  obtain ⟨x, hx, rfl⟩ := Option.map_eq_some_iff.mp h
  have hmem := List.mem_of_find?_eq_some hx
  have hid : x.1 = id := by simpa using List.find?_some hx
  rw [← hid]
  exact hmem

theorem Inv.onSocketAnswer (h : w.Inv) {id : ℕ} (hphase : w.phase = .socket id) {a : OpenTradeAnswer}
    (hmem : (id, a) ∈ w.client.answers) : (w.onSocketAnswer a).Inv := by
  have hknows := h.phase
  rw [hphase] at hknows
  obtain ⟨hcommand, hzero⟩ := hknows
  have hnot : ∀ e, w.phase ≠ .ended e := by
    intro e
    rw [hphase]
    simp
  have hsilent : ∀ reason state, a = .result (.notSent reason state) → w.silent := by
    rintro reason state rfl id' hid'
    rw [hcommand, Option.some.injEq] at hid'
    subst hid'
    exact ⟨reason, state, hmem⟩
  cases a with
  | threw => exact ⟨h.client, .inl hzero, recorded_finish h hnot _⟩
  | result r =>
    cases r with
    | success trade =>
      exact ⟨h.client, ⟨.inl ⟨id, trade, hcommand, hmem⟩, .inl hzero⟩, recorded_finish h hnot _⟩
    | fail failures =>
      exact ⟨h.client, ⟨.inl (.inl ⟨id, failures, hcommand, hmem⟩), .inl hzero⟩,
        recorded_finish h hnot _⟩
    | unknown reason state => exact ⟨h.client, .inl hzero, recorded_finish h hnot _⟩
    | notSent reason state =>
      cases reason with
      | aborted => exact ⟨h.client, .inl hzero, recorded_finish h hnot _⟩
      | notReady =>
        refine ⟨h.client, ⟨hsilent _ _ rfl, hzero⟩, ?_⟩
        intro result hres
        rcases h.recorded result hres with hr | ⟨e, he, _⟩
        · exact .inl hr
        · exact absurd he (hnot e)

theorem Inv.finish_rest (h : w.Inv) (hphase : w.phase = .rest) (answer : CallEnd BrokerTrade) :
    (finish { w with restAnswer := some answer } (restEnd answer)).Inv := by
  have hknows := h.phase
  rw [hphase] at hknows
  obtain ⟨hsilent, hone⟩ := hknows
  have hrecorded : ∀ result, (finish { w with restAnswer := some answer } (restEnd answer)).outcome =
      some result → result = .unknown .executorTimeout ∨
        ∃ e, (finish { w with restAnswer := some answer } (restEnd answer)).phase = .ended e ∧
          result = e.recorded :=
    recorded_finish (w := { w with restAnswer := some answer })
      ⟨h.client, by rw [hphase]; exact ⟨hsilent, hone⟩, h.recorded⟩
      (fun e => by show w.phase ≠ .ended e; rw [hphase]; simp) (restEnd answer)
  have hknew : ∀ e, restEnd answer = e →
      Knows (finish { w with restAnswer := some answer } e) (.ended e) := by
    rintro e rfl
    cases hsend : send answer with
    | ok trade =>
      have hend : restEnd answer = .returned (.accepted .restFallback trade) := by
        simp only [restEnd, hsend]
      rw [hend]
      exact ⟨.inr ⟨answer, rfl, send_ok hsend⟩, .inr ⟨hsilent, hone⟩⟩
    | error thrown =>
      cases thrown with
      | other =>
        have hend : restEnd answer = .threw := by simp only [restEnd, hsend]
        rw [hend]
        exact .inr ⟨hsilent, hone⟩
      | rest error =>
        by_cases hcode : error.code.refused = true
        · have hend : restEnd answer = .returned (.rejected .brokerRejected) := by
            simp only [restEnd, hsend]
            cases hc : error.code <;> simp_all [BrokerRestErrorCode.refused]
          rw [hend]
          exact ⟨.inl (.inr ⟨answer, rfl, send_refused hsend hcode⟩), .inr ⟨hsilent, hone⟩⟩
        · have hend : restEnd answer = UNKNOWN := by
            simp only [restEnd, hsend]
            cases hc : error.code <;> simp_all [BrokerRestErrorCode.refused]
          rw [hend]
          exact .inr ⟨hsilent, hone⟩
  exact ⟨h.client, hknew _ rfl, hrecorded⟩

theorem Inv.step (h : w.Inv) (e : SubmitEvent) : (w.step intent e).Inv := by
  have hopen : ∀ p, w.phase = p → (∀ e, p ≠ .ended e) → ∀ result, w.outcome = some result →
      result = .unknown .executorTimeout := by
    rintro p rfl hp result hres
    rcases h.recorded result hres with hr | ⟨e, he, _⟩
    · exact hr
    · exact absurd he (hp e)
  have hnot : ∀ p, w.phase = p → (∀ e, p ≠ .ended e) → ∀ e, w.phase ≠ .ended e := by
    rintro p rfl hp
    exact hp
  cases e with
  | socket e =>
    exact ⟨h.client.step e, h.phase.client_step e w.aborted w.outcome, h.recorded⟩
  | deadline =>
    simp only [SubmitRun.step]
    cases hout : w.outcome with
    | some r => exact h
    | none =>
      simp only []
      have hrecorded : ∀ result, some (SubmitResult.unknown .executorTimeout) = some result →
          result = .unknown .executorTimeout ∨ ∃ e, w.phase = .ended e ∧ result = e.recorded :=
        fun result hres => .inl (Option.some.inj hres).symm
      split
      · rename_i id _
        exact ⟨h.client.step (.abort id), h.phase.client_step (.abort id) true _, hrecorded⟩
      · -- the signal reaches the client only through its own command
        have hknows := h.phase.client_step (.authTimeout 0) true (some (.unknown .executorTimeout))
        exact ⟨h.client, hknows, hrecorded⟩
  | submit held stopsInside =>
    simp only [SubmitRun.step]
    split
    · rename_i hphase
      have hknows := h.phase
      rw [hphase] at hknows
      split
      · exact ⟨h.client, .inl hknows.2, recorded_finish h (hnot _ hphase (by simp)) _⟩
      · split
        · exact ⟨h.client.step (.openTrade _ _ _ _), ⟨rfl, hknows.2⟩,
            fun result hres => .inl (hopen _ hphase (by simp) result hres)⟩
        · refine ⟨h.client, ⟨?_, hknows.2⟩,
            fun result hres => .inl (hopen _ hphase (by simp) result hres)⟩
          intro id hid
          have hnone : w.command = none := hknows.1
          rw [show w.command = some id from hid] at hnone
          simp at hnone
    · exact h
  | resume =>
    simp only [SubmitRun.step]
    split
    · rename_i id hphase
      split
      · exact h
      · rename_i answer hanswer
        exact h.onSocketAnswer hphase (promise_mem hanswer)
    · exact h
  | token answer =>
    simp only [SubmitRun.step]
    split
    · rename_i hphase
      have hknows := h.phase
      rw [hphase] at hknows
      cases answer with
      | ok =>
        refine ⟨h.client, ⟨hknows.1, ?_⟩, fun result hres => .inl (hopen _ hphase (by simp) result hres)⟩
        show w.requests + 1 = 1
        rw [hknows.2]
      | refused =>
        exact ⟨h.client, ⟨.inr hknows, .inl hknows.2⟩, recorded_finish h (hnot _ hphase (by simp)) _⟩
      | threw => exact ⟨h.client, .inl hknows.2, recorded_finish h (hnot _ hphase (by simp)) _⟩
    · exact h
  | rest answer =>
    simp only [SubmitRun.step]
    split
    · rename_i hphase
      exact h.finish_rest hphase answer
    · exact h

theorem Inv.start {c : Client} (h : c.Inv) : (SubmitRun.start c).Inv :=
  ⟨h, ⟨rfl, rfl⟩, fun result hres => by simp [SubmitRun.start] at hres⟩

theorem Inv.run (h : w.Inv) (es : List SubmitEvent) : (run (SubmitRun.step intent) w es).Inv :=
  run_induction h (fun _ e h => h.step e) es

/-! ## What the invariant says of the order -/

theorem Inv.emissions_le_one (h : w.Inv) : w.emissions ≤ 1 := by
  unfold emissions
  split
  · exact Nat.zero_le _
  · exact List.nodup_iff_count_le_one.mp h.client.once.1 _

theorem Inv.emissions_of_silent (h : w.Inv) (hs : w.silent) : w.emissions = 0 := by
  unfold emissions
  split
  · rfl
  · rename_i id hid
    obtain ⟨reason, state, hmem⟩ := hs id hid
    refine List.count_eq_zero_of_not_mem (fun hin => ?_)
    obtain ⟨p, hp, hpid⟩ := List.mem_map.mp hin
    exact h.client.notSent id reason state hmem p hp hpid

/-- The order is on one path at most. -/
theorem Knows.one_path {p : SubmitPhase} (h : w.Knows p) :
    w.requests = 0 ∨ w.silent ∧ w.requests = 1 := by
  cases p with
  | waiting => exact .inl h.2
  | socket id => exact .inl h.2
  | token => exact .inl h.2
  | rest => exact .inr h
  | ended e =>
    cases e with
    | threw => exact h
    | returned result =>
      cases result with
      | accepted transport trade => exact h.2
      | rejected reason => exact h.2
      | unknown reason => exact h

theorem Inv.rejected (h : w.Inv) {reason : TradeIntentFailureReason}
    (hphase : w.phase = .ended (.returned (.rejected reason))) :
    w.refused ∨ w.emissions + w.requests = 0 := by
  have hknows := h.phase
  rw [hphase] at hknows
  rcases hknows.1 with hrefused | ⟨hs, hzero⟩
  · exact .inl hrefused
  · exact .inr (by rw [h.emissions_of_silent hs, hzero])

theorem Inv.ended_unanswered (h : w.Inv) (hsent : 0 < w.emissions + w.requests) (hr : ¬ w.refused)
    (ha : ¬ w.accepted) {e : SubmitEnd} (hphase : w.phase = .ended e) :
    e = .threw ∨ ∃ reason, e = .returned (.unknown reason) := by
  cases e with
  | threw => exact .inl rfl
  | returned result =>
    cases result with
    | accepted transport trade =>
      have hknows := h.phase
      rw [hphase] at hknows
      exact absurd hknows.1 ha
    | rejected reason =>
      rcases h.rejected hphase with hrefused | hzero
      · exact absurd hrefused hr
      · omega
    | unknown reason => exact .inr ⟨reason, rfl⟩

theorem Inv.twoCases (h : w.Inv) : w.TwoCases := by
  have hpath := h.phase.one_path
  refine ⟨?_, ?_, ?_, ?_⟩
  · have hle := h.emissions_le_one
    rcases hpath with hzero | ⟨hs, hone⟩
    · omega
    · have hnone := h.emissions_of_silent hs
      omega
  · intro hpos
    rcases hpath with hzero | ⟨hs, _⟩
    · omega
    · exact h.emissions_of_silent hs
  · rintro reason (hphase | hout)
    · exact h.rejected hphase
    · rcases h.recorded _ hout with hr | ⟨e, hphase, hr⟩
      · simp at hr
      · cases e with
        | threw => simp [SubmitEnd.recorded] at hr
        | returned result =>
          obtain rfl : SubmitResult.rejected reason = result := hr
          exact h.rejected hphase
  · intro hsent hr ha
    refine ⟨fun e => h.ended_unanswered hsent hr ha, fun result hout => ?_⟩
    rcases h.recorded result hout with rfl | ⟨e, hphase, rfl⟩
    · exact ⟨_, rfl⟩
    · rcases h.ended_unanswered hsent hr ha hphase with rfl | ⟨reason, rfl⟩
      · exact ⟨_, rfl⟩
      · exact ⟨reason, rfl⟩

end Steps

end SubmitRun

/-- **The two-cases rule.**  For every intent, every client and every run of the call, of the client beside
it and of the deadline: the order goes out at most once over both paths, and over REST only when the
socket emitted nothing; `rejected` means the broker refused or nothing was sent; and an order sent without
a definite answer ends as unknown, or in a throw that the processor records as unknown. -/
theorem submit_two_cases (intent : TradeIntentRow) (before : List SocketEvent) (es : List SubmitEvent) :
    (run (SubmitRun.step intent) (SubmitRun.start (run Client.step Client.created before)) es).TwoCases :=
  ((SubmitRun.Inv.start (Client.Inv.created.run before)).run es).twoCases

end Binarius
