import Mathlib.Tactic
import Binarius.BrokerSocket.Socket

/-!
# BrokerSocket.Attribution — which answer a command may take

The broker's answers carry no id.  What tells them apart is the connection: a command is answered only
on the connection it was emitted on, and a connection where a command ended in silence is never used
again.

* `Client.Inv`: the invariant, over the commands and the live connection.
* `Inv.transition`, `Inv.settle`, `Inv.endWithoutAnswer`, `Inv.openTrade`: the primitives keep it.
* `Inv.answered`: **where a success or a fail comes from**.
* `answer_attribution`: all of it, over every run.
-/

namespace Binarius

open Lib

/-- A success or a fail. -/
def OpenTradeAnswer.definite : OpenTradeAnswer → Bool
  | .result (.success _) => true
  | .result (.fail _) => true
  | _ => false

namespace Client

variable {c : Client}

/-- The calls whose promise is settled. -/
def answered (c : Client) : List ℕ := c.answers.map Prod.fst

/-- The command ended without an answer of its own. -/
def silent (c : Client) (id : ℕ) : Prop :=
  ∃ reason state, (id, .result (.unknown reason state)) ∈ c.answers

@[simp] theorem answer_answers (id : ℕ) (a : OpenTradeAnswer) :
    (c.answer id a).answers = (id, a) :: c.answers := rfl

@[simp] theorem answer_answered (id : ℕ) (a : OpenTradeAnswer) :
    (c.answer id a).answered = id :: c.answered := rfl

theorem silent_answer {id i : ℕ} {a : OpenTradeAnswer} :
    (c.answer id a).silent i ↔
      (i = id ∧ ∃ reason state, a = .result (.unknown reason state)) ∨ c.silent i := by
  unfold silent
  simp only [answer_answers, List.mem_cons, Prod.mk.injEq]
  constructor
  · rintro ⟨reason, state, ⟨rfl, ha⟩ | hmem⟩
    · exact .inl ⟨rfl, reason, state, ha.symm⟩
    · exact .inr ⟨reason, state, hmem⟩
  · rintro (⟨rfl, reason, state, rfl⟩ | ⟨reason, state, hmem⟩)
    · exact ⟨reason, state, .inl ⟨rfl, rfl⟩⟩
    · exact ⟨reason, state, .inr hmem⟩

/-- A command in flight: its socket is the current one, ready, and its connection is not tainted. -/
structure InFlight (c : Client) (p : Command) : Prop where
  emitted : p ∈ c.emitted
  unanswered : p.id ∉ c.answered
  ready : c.state = .ready
  session : ∃ s, c.session = some s ∧ s.number = p.session ∧
    ∀ k, s.connection = some k → k.ordinal = p.connection ∧ k.tainted = false

/-- The invariant of a client. -/
structure Inv (c : Client) : Prop where
  calls : (∀ p ∈ c.emitted, p.id < c.calls) ∧ ∀ id ∈ c.answered, id < c.calls
  once : (c.emitted.map Command.id).Nodup ∧ c.answered.Nodup
  inFlight : ∀ p, c.pending = some p → c.InFlight p
  settled : ∀ p ∈ c.emitted, c.pending = some p ∨ p.id ∈ c.answered
  session : ∀ s, c.session = some s →
    s.number < c.sockets ∧ ∀ k, s.connection = some k → k.ordinal = s.connectionCount
  commands : ∀ p ∈ c.emitted, p.session < c.sockets ∧
    ∀ s, c.session = some s → p.session = s.number → p.connection ≤ s.connectionCount
  /-- a live connection where a command ended in silence takes no command -/
  silence : ∀ p ∈ c.emitted, c.silent p.id → ∀ s k, c.session = some s → s.connection = some k →
    p.sentOn s k → k.tainted = true ∨ c.state.isTerminal = true
  notSent : ∀ id reason state, (id, .result (.notSent reason state)) ∈ c.answers →
    ∀ p ∈ c.emitted, p.id ≠ id

theorem eq_of_id {l : List Command} (h : (l.map Command.id).Nodup) {p q : Command} (hp : p ∈ l)
    (hq : q ∈ l) (hid : p.id = q.id) : p = q :=
  List.inj_on_of_nodup_map h hp hq hid

/-! ### Settling -/

/-- What the rest of a client must be for its pending command to be settled by `r`: a new silence must
leave no usable connection behind. -/
theorem Inv.settle (h : c.Inv) (state : BrokerSocketState) (session : Option Session) (sockets : ℕ)
    (r : SocketOpenTradeResult) (hr : ∀ reason state, r ≠ .notSent reason state)
    (hsockets : c.sockets ≤ sockets)
    (hsession : ∀ s, session = some s →
      s.number < sockets ∧ ∀ k, s.connection = some k → k.ordinal = s.connectionCount)
    (hcommands : ∀ p ∈ c.emitted, ∀ s, session = some s → p.session = s.number →
      p.connection ≤ s.connectionCount)
    (hsilence : ∀ p ∈ c.emitted,
      c.silent p.id ∨ (c.pending = some p ∧ ∃ reason state, r = .unknown reason state) →
      ∀ s k, session = some s → s.connection = some k → p.sentOn s k →
      k.tainted = true ∨ state.isTerminal = true) :
    (settleCommand { c with state := state, session := session, sockets := sockets } r).Inv := by
  obtain ⟨⟨hid, hans⟩, ⟨honce, hnodup⟩, hfly, hsettled, _, hcmd, _, hnotSent⟩ := h
  unfold settleCommand
  simp only []
  cases hp : c.pending with
  | none =>
    refine ⟨⟨hid, hans⟩, ⟨honce, hnodup⟩, fun p h => by simp at h, ?_, hsession, ?_, ?_, hnotSent⟩
    · intro p hmem
      rcases hsettled p hmem with h | h
      · simp [hp] at h
      · exact .inr h
    · exact fun p hmem => ⟨(hcmd p hmem).1.trans_le hsockets, hcommands p hmem⟩
    · exact fun p hmem hs => hsilence p hmem (.inl hs)
  | some p =>
    have hp' := hfly p hp
    refine ⟨⟨hid, ?_⟩, ⟨honce, ?_⟩, fun p h => by simp [answer] at h, ?_, hsession, ?_, ?_, ?_⟩
    · intro id hmem
      rcases List.mem_cons.mp hmem with rfl | hmem
      · exact hid p hp'.emitted
      · exact hans id hmem
    · exact List.nodup_cons.mpr ⟨hp'.unanswered, hnodup⟩
    · intro q hmem
      rcases hsettled q hmem with h | h
      · rw [hp, Option.some.injEq] at h
        exact .inr (List.mem_cons.mpr (.inl (by rw [h])))
      · exact .inr (List.mem_cons_of_mem _ h)
    · exact fun q hmem => ⟨(hcmd q hmem).1.trans_le hsockets, hcommands q hmem⟩
    · intro q hmem hs
      refine hsilence q hmem ?_
      rcases silent_answer.mp hs with ⟨hqid, reason, st, hunknown⟩ | hold
      · refine .inr ⟨?_, reason, st, OpenTradeAnswer.result.inj hunknown⟩
        rw [eq_of_id honce hmem hp'.emitted hqid]
        exact hp
      · exact .inl hold
    · intro id reason st hmem q hq
      rcases List.mem_cons.mp hmem with heq | hold
      · obtain ⟨_, hres⟩ := Prod.mk.injEq _ _ _ _ ▸ heq
        exact absurd (OpenTradeAnswer.result.inj hres).symm (hr reason st)
      · exact hnotSent id reason st hold q hq

theorem settleCommand_of_none (h : c.pending = none) (r : SocketOpenTradeResult) :
    c.settleCommand r = c := by
  unfold settleCommand
  rw [h]

/-- A client that leaves `ready` or was not ready loses no attribution: its connection is gone, new,
unused or closed for good. -/
theorem Inv.transition (h : c.Inv) (session : Option Session) (sockets : ℕ)
    (toState : BrokerSocketState) (hready : toState = .ready → c.pending = none)
    (hsockets : c.sockets ≤ sockets)
    (hsession : ∀ s, session = some s →
      s.number < sockets ∧ ∀ k, s.connection = some k → k.ordinal = s.connectionCount)
    (hcommands : ∀ p ∈ c.emitted, ∀ s, session = some s → p.session = s.number →
      p.connection ≤ s.connectionCount)
    (hsilence : ∀ p ∈ c.emitted, c.silent p.id ∨ c.pending = some p →
      ∀ s k, session = some s → s.connection = some k → p.sentOn s k →
      k.tainted = true ∨ toState.isTerminal = true) :
    (transition { c with session := session, sockets := sockets } toState).Inv := by
  have hsettle := h.settle toState session sockets (.unknown .stateChanged toState) (by simp) hsockets
    hsession hcommands (fun p hp hs => hsilence p hp (hs.imp id And.left))
  unfold Client.transition
  simp only []
  by_cases hstate : c.state = toState
  · -- no change of state: nothing was pending
    have hnone : c.pending = none := by
      cases hp : c.pending with
      | none => rfl
      | some p =>
        have hr := (h.inFlight p hp).ready
        rw [hready (hstate.symm.trans hr)] at hp
        simp at hp
    rw [if_pos hstate]
    rw [settleCommand_of_none (show
      ({ c with state := toState, session := session, sockets := sockets } : Client).pending = none
      from hnone), ← hstate] at hsettle
    exact hsettle
  · rw [if_neg hstate]
    exact hsettle

/-- Forgetting the connection keeps everything: nothing is in doubt on a connection that is gone. -/
theorem Inv.dropConnection (h : c.Inv) {s : Session} (hs : c.session = some s) :
    (c.withSession { s with connection := none }).Inv := by
  obtain ⟨hcalls, honce, hfly, hsettled, hsession, hcmd, _, hnotSent⟩ := h
  refine ⟨hcalls, honce, ?_, hsettled, ?_, ?_, ?_, hnotSent⟩
  · intro p hp
    obtain ⟨hemitted, hun, hready, s', hs', hnumber, _⟩ := hfly p hp
    rw [hs, Option.some.injEq] at hs'
    subst hs'
    exact ⟨hemitted, hun, hready, _, rfl, hnumber, fun k hk => by simp at hk⟩
  · intro s' hs'
    rw [withSession, Option.some.injEq] at hs'
    subst hs'
    exact ⟨(hsession s hs).1, fun k hk => by simp at hk⟩
  · intro p hp
    refine ⟨(hcmd p hp).1, fun s' hs' hnumber => ?_⟩
    rw [withSession, Option.some.injEq] at hs'
    subst hs'
    exact (hcmd p hp).2 s hs hnumber
  · intro p hp _ s' k hs' hk
    rw [withSession, Option.some.injEq] at hs'
    subst hs'
    simp at hk

/-! ### The entry points -/

theorem Inv.start (h : c.Inv) : c.start.Inv := by
  unfold Client.start
  split
  · exact h
  · refine h.transition _ _ .connecting (by simp) (Nat.le_succ _) ?_ ?_ ?_
    · rintro s ⟨rfl⟩
      exact ⟨Nat.lt_succ_self _, fun k hk => by simp at hk⟩
    · rintro p hp s ⟨rfl⟩ hnumber
      have hlt := (h.commands p hp).1
      rw [hnumber] at hlt
      exact absurd hlt (Nat.lt_irrefl _)
    · rintro p _ _ s k ⟨rfl⟩ hk
      simp at hk

theorem Inv.stop (h : c.Inv) : c.stop.Inv := by
  unfold Client.stop
  split
  · exact h
  · exact h.transition none c.sockets .idle (by simp) le_rfl (by simp) (by simp) (by simp)

theorem Inv.onConnect (h : c.Inv) {s : Session} (hs : c.session = some s) : (c.onConnect s).Inv := by
  unfold Client.onConnect
  split
  · exact h
  · refine h.transition _ c.sockets .authenticating (by simp) le_rfl ?_ ?_ ?_
    · rintro s' ⟨rfl⟩
      refine ⟨(h.session s hs).1, ?_⟩
      rintro k ⟨rfl⟩
      rfl
    · rintro p hp s' ⟨rfl⟩ hnumber
      exact ((h.commands p hp).2 s hs hnumber).trans (Nat.le_succ _)
    · -- no command was emitted on the new connection
      rintro p hp _ s' k ⟨rfl⟩ ⟨rfl⟩ ⟨hnumber, hconnection⟩
      have hle := (h.commands p hp).2 s hs hnumber
      have heq : p.connection = s.connectionCount + 1 := hconnection
      omega

/-- A transition that leaves the session without a connection. -/
theorem Inv.transition_dropped (h : c.Inv) {s : Session} (hs : c.session = some s)
    {toState : BrokerSocketState} (hready : toState ≠ .ready) :
    (Client.transition (c.withSession { s with connection := none }) toState).Inv := by
  refine h.transition _ c.sockets toState (fun hr => absurd hr hready) le_rfl ?_ ?_ ?_
  · rintro s' ⟨rfl⟩
    exact ⟨(h.session s hs).1, fun k hk => by simp at hk⟩
  · rintro p hp s' ⟨rfl⟩ hnumber
    exact (h.commands p hp).2 s hs hnumber
  · rintro p _ _ s' k ⟨rfl⟩ hk
    simp at hk

theorem Inv.onDisconnect (h : c.Inv) {s : Session} (hs : c.session = some s)
    (reason : DisconnectReason) : (c.onDisconnect s reason).Inv := by
  unfold Client.onDisconnect
  simp only []
  split
  · exact h.dropConnection hs
  · split
    · exact h.transition_dropped hs (by simp)
    · exact h.transition_dropped hs (by simp)

/-- A transition that keeps the session. -/
theorem Inv.transition_kept (h : c.Inv) {toState : BrokerSocketState}
    (hto : toState.isTerminal = true ∨ (c.pending = none ∧ c.state.isTerminal = false)) :
    (Client.transition c toState).Inv := by
  refine h.transition c.session c.sockets toState ?_ le_rfl h.session
    (fun p hp s hs => (h.commands p hp).2 s hs) ?_
  · rintro rfl
    rcases hto with hto | hto
    · simp [BrokerSocketState.isTerminal] at hto
    · exact hto.1
  · intro p hp hsilent s k hs hk hsent
    rcases hto with hto | ⟨hnone, hlive⟩
    · exact .inr hto
    · rcases hsilent with hsilent | hpending
      · rcases h.silence p hp hsilent s k hs hk hsent with htainted | hterminal
        · exact .inl htainted
        · rw [hlive] at hterminal
          simp at hterminal
      · rw [hnone] at hpending
        simp at hpending

theorem Inv.onConnectError (h : c.Inv) (active : Bool) : (c.onConnectError active).Inv := by
  unfold Client.onConnectError
  split
  · exact h
  split
  · exact h
  · exact h.transition_kept (.inl rfl)

/-- Nothing is pending before `ready`. -/
theorem Inv.pending_of_not_ready (h : c.Inv) (hstate : c.state ≠ .ready) : c.pending = none := by
  cases hp : c.pending with
  | none => rfl
  | some p => exact absurd (h.inFlight p hp).ready hstate

theorem Inv.onAuthSuccess (h : c.Inv) : c.onAuthSuccess.Inv := by
  unfold Client.onAuthSuccess
  split
  · exact h
  · rename_i hstate
    have hauth : c.state = .authenticating := by simpa using hstate
    refine h.transition_kept (.inr ⟨h.pending_of_not_ready (by rw [hauth]; simp), ?_⟩)
    rw [hauth]
    rfl

theorem Inv.onTerminalEvent (h : c.Inv) {s : Session} (hs : c.session = some s)
    {toState : BrokerSocketState} (hready : toState ≠ .ready) : (c.onTerminalEvent s toState).Inv := by
  unfold Client.onTerminalEvent
  split
  · exact h
  · exact h.transition_dropped hs hready

theorem settleCommand_session (r : SocketOpenTradeResult) :
    (c.settleCommand r).session = c.session := by
  unfold settleCommand
  split <;> rfl

theorem settleCommand_withSession (r : SocketOpenTradeResult) (s : Session) :
    (c.settleCommand r).withSession s = (c.withSession s).settleCommand r := by
  obtain ⟨_, _, pending, _, _, _, _⟩ := c
  cases pending <;> rfl

theorem Inv.settleCommand (h : c.Inv) {r : SocketOpenTradeResult}
    (hr : ∀ reason state, r ≠ .notSent reason state) (hu : ∀ reason state, r ≠ .unknown reason state) :
    (c.settleCommand r).Inv := by
  refine h.settle c.state c.session c.sockets r hr le_rfl h.session
    (fun p hp s hs => (h.commands p hp).2 s hs) ?_
  rintro p hp (hsilent | ⟨_, reason, state, rfl⟩)
  · exact h.silence p hp hsilent
  · exact absurd rfl (hu reason state)

/-- What an event does to the command in flight: nothing, or it answers it. -/
theorem answerCommand_cases (c : Client) (s : Session) (event : BrokerEvent) :
    c.answerCommand s event = c ∨ ∃ p, c.pending = some p ∧ p.session = s.number ∧
      s.connection.map (·.ordinal) = some p.connection ∧
      ((∃ trade, event = .openTradeSuccess p.mode trade ∧ mismatchedField trade p.request = none ∧
          c.answerCommand s event = c.settleCommand (.success trade)) ∨
        ∃ failures, event = .openTradeFail p.mode failures ∧
          c.answerCommand s event = c.settleCommand (.fail failures)) := by
  unfold answerCommand
  cases hp : c.pending with
  | none => exact .inl rfl
  | some p =>
    simp only []
    split
    · exact .inl rfl
    rename_i hhere
    simp only [ne_eq, not_or, not_not] at hhere
    cases event with
    | openTradeSuccess mode trade =>
      simp only []
      split
      · rename_i hmatch
        exact .inr ⟨p, rfl, hhere.1, hhere.2, .inl ⟨trade, by rw [hmatch.1], hmatch.2, rfl⟩⟩
      · exact .inl rfl
    | openTradeFail mode failures =>
      simp only []
      split
      · rename_i hmode
        exact .inr ⟨p, rfl, hhere.1, hhere.2, .inr ⟨failures, by rw [hmode], rfl⟩⟩
      · exact .inl rfl
    | _ => exact .inl rfl

theorem Inv.answerCommand (h : c.Inv) (s : Session) (event : BrokerEvent) :
    (c.answerCommand s event).Inv := by
  rcases answerCommand_cases c s event with heq | ⟨p, _, _, _, ⟨trade, _, _, heq⟩ | ⟨failures, _, heq⟩⟩
  · rw [heq]
    exact h
  · rw [heq]
    exact h.settleCommand (by simp) (by simp)
  · rw [heq]
    exact h.settleCommand (by simp) (by simp)

theorem answerCommand_session (s : Session) (event : BrokerEvent) :
    (c.answerCommand s event).session = c.session := by
  rcases answerCommand_cases c s event with heq | ⟨p, _, _, _, ⟨trade, _, _, heq⟩ | ⟨failures, _, heq⟩⟩
  · rw [heq]
  · rw [heq, settleCommand_session]
  · rw [heq, settleCommand_session]

theorem Inv.onAnyEvent (h : c.Inv) {s : Session} (hs : c.session = some s) (event : BrokerEvent) :
    (c.onAnyEvent s event).Inv := by
  have hanswered := h.answerCommand s event
  have hsession : (c.answerCommand s event).session = some s := (answerCommand_session s event).trans hs
  cases event with
  | authSuccess => exact hanswered.onAuthSuccess
  | authError => exact hanswered.onTerminalEvent hsession (by simp)
  | tokenExpired => exact hanswered.onTerminalEvent hsession (by simp)
  | _ => exact hanswered

/-- A command that ends without an answer while its connection is live taints the connection. -/
theorem Inv.endWithoutAnswer (h : c.Inv) (id : ℕ) (reason : UnknownReason) :
    (c.endWithoutAnswer id reason).Inv := by
  unfold Client.endWithoutAnswer
  cases hp : c.pending with
  | none => exact h
  | some p =>
    simp only []
    split
    · exact h
    obtain ⟨hemitted, _, hready, s, hs, hnumber, hlive⟩ := h.inFlight p hp
    simp only [hs]
    split
    · -- still live: the connection is tainted
      rename_i hhere
      rw [settleCommand_withSession]
      refine h.settle c.state (some _) c.sockets (.unknown reason c.state) (by simp) le_rfl ?_ ?_ ?_
      · rintro s' ⟨rfl⟩
        refine ⟨(h.session s hs).1, ?_⟩
        rintro k ⟨rfl⟩
        obtain ⟨k₀, hk₀, hord⟩ := Option.map_eq_some_iff.mp hhere.2
        exact hord.symm.trans ((h.session s hs).2 k₀ hk₀)
      · rintro q hq s' ⟨rfl⟩ hn
        exact (h.commands q hq).2 s hs hn
      · rintro q _ _ s' k ⟨rfl⟩ ⟨rfl⟩ _
        exact .inl rfl
    · -- the connection is gone already
      rename_i hgone
      refine h.settle c.state c.session c.sockets (.unknown reason c.state) (by simp) le_rfl h.session
        (fun q hq s hs => (h.commands q hq).2 s hs) ?_
      intro q hq hsilent s' k hs' hk hsent
      rcases hsilent with hsilent | ⟨hpq, _⟩
      · exact h.silence q hq hsilent s' k hs' hk hsent
      · rw [hs, Option.some.injEq] at hs'
        subst hs'
        rw [hp, Option.some.injEq] at hpq
        subst hpq
        exact absurd ⟨hnumber, by rw [hk, Option.map_some, (hlive k hk).1]⟩ hgone

/-- A call that emits nothing. -/
theorem Inv.refuse (h : c.Inv) {a : OpenTradeAnswer}
    (ha : ∀ reason state, a ≠ .result (.unknown reason state)) :
    (answer { c with calls := c.calls + 1 } c.calls a).Inv := by
  obtain ⟨⟨hid, hans⟩, ⟨honce, hnodup⟩, hfly, hsettled, hsession, hcmd, hsilence, hnotSent⟩ := h
  refine ⟨⟨fun p hp => (hid p hp).trans (Nat.lt_succ_self _), ?_⟩, ⟨honce, ?_⟩, ?_, ?_, hsession, hcmd,
    ?_, ?_⟩
  · intro id hmem
    rcases List.mem_cons.mp hmem with rfl | hmem
    · exact Nat.lt_succ_self _
    · exact (hans id hmem).trans (Nat.lt_succ_self _)
  · exact List.nodup_cons.mpr ⟨fun hmem => Nat.lt_irrefl _ (hans _ hmem), hnodup⟩
  · intro p hp
    obtain ⟨hemitted, hun, hready, hs⟩ := hfly p hp
    refine ⟨hemitted, ?_, hready, hs⟩
    intro hmem
    rcases List.mem_cons.mp hmem with heq | hmem
    · exact Nat.lt_irrefl _ (heq ▸ hid p hemitted)
    · exact hun hmem
  · intro p hp
    exact (hsettled p hp).imp id (List.mem_cons_of_mem _)
  · intro p hp hs
    rcases silent_answer.mp hs with ⟨_, reason, state, hunknown⟩ | hold
    · exact absurd hunknown (ha reason state)
    · exact hsilence p hp hold
  · intro id reason state hmem p hp
    rcases List.mem_cons.mp hmem with heq | hold
    · obtain ⟨rfl, _⟩ := Prod.mk.injEq _ _ _ _ ▸ heq
      exact (hid p hp).ne
    · exact hnotSent id reason state hold p hp

/-- The emitted command waits for its answer, on an untainted connection. -/
theorem Inv.emit (h : c.Inv) {s : Session} {k : Connection} (hs : c.session = some s)
    (hk : s.connection = some k) (htaint : k.tainted = false) (hready : c.state = .ready)
    (hnone : c.pending = none) {p : Command} (hid : p.id = c.calls) (hsent : p.sentOn s k) :
    Inv { c with calls := c.calls + 1, emitted := p :: c.emitted, pending := some p } := by
  obtain ⟨⟨hids, hans⟩, ⟨honce, hnodup⟩, _, hsettled, hsession, hcmd, hsilence, hnotSent⟩ := h
  have hfresh : ∀ q ∈ c.emitted, q.id ≠ p.id := by
    intro q hq heq
    have hlt := hids q hq
    omega
  have hnew : p.id ∉ c.answered := by
    intro hmem
    have hlt := hans _ hmem
    omega
  refine ⟨⟨?_, fun id hmem => (hans id hmem).trans (Nat.lt_succ_self _)⟩, ⟨?_, hnodup⟩, ?_, ?_, hsession,
    ?_, ?_, ?_⟩
  · intro q hq
    rcases List.mem_cons.mp hq with rfl | hq
    · show q.id < c.calls + 1
      omega
    · exact (hids q hq).trans (Nat.lt_succ_self _)
  · refine List.nodup_cons.mpr ⟨?_, honce⟩
    intro hmem
    obtain ⟨q, hq, heq⟩ := List.mem_map.mp hmem
    exact hfresh q hq heq
  · rintro q ⟨rfl⟩
    refine ⟨List.mem_cons_self, hnew, hready, s, hs, hsent.1.symm, ?_⟩
    intro k' hk'
    rw [hk, Option.some.injEq] at hk'
    subst hk'
    exact ⟨hsent.2.symm, htaint⟩
  · intro q hq
    rcases List.mem_cons.mp hq with rfl | hq
    · exact .inl rfl
    · rcases hsettled q hq with hpending | hanswered
      · rw [hnone] at hpending
        simp at hpending
      · exact .inr hanswered
  · intro q hq
    rcases List.mem_cons.mp hq with rfl | hq
    · refine ⟨?_, ?_⟩
      · rw [hsent.1]
        exact (hsession s hs).1
      · intro s' hs' _
        rw [show c.session = some s' from hs', Option.some.injEq] at hs
        subst hs
        rw [hsent.2]
        exact ((hsession s' hs').2 k hk).le
    · exact hcmd q hq
  · intro q hq hsilent
    rcases List.mem_cons.mp hq with rfl | hq
    · obtain ⟨reason, state, hmem⟩ := hsilent
      exact absurd (List.mem_map.mpr ⟨_, hmem, rfl⟩) hnew
    · exact hsilence q hq hsilent
  · intro id reason state hmem q hq
    rcases List.mem_cons.mp hq with rfl | hq
    · rintro rfl
      exact hnew (List.mem_map.mpr ⟨_, hmem, rfl⟩)
    · exact hnotSent id reason state hmem q hq

/-- The command whose `emit` stopped the client. -/
theorem Inv.emit_stopped (h : c.Inv) {s : Session} {k : Connection} (hs : c.session = some s)
    (hk : s.connection = some k) (htaint : k.tainted = false) (hready : c.state = .ready)
    (hnone : c.pending = none) {p : Command} (hid : p.id = c.calls) (hsent : p.sentOn s k) :
    Inv (emitCommand { c with calls := c.calls + 1 } p true) := by
  have hpending := (h.emit hs hk htaint hready hnone hid hsent).settle .idle none c.sockets
    (.unknown .stateChanged .idle) (by simp) le_rfl (by simp) (by simp) (by simp)
  have hstop : Client.stop { c with calls := c.calls + 1, emitted := p :: c.emitted } =
      { c with calls := c.calls + 1, emitted := p :: c.emitted, session := none, state := .idle } := by
    unfold Client.stop Client.transition
    simp only [hs, hready]
    rw [if_neg (by simp)]
    simp only [Client.settleCommand, hnone]
  unfold emitCommand
  simp only [if_true, hstop]
  rw [if_pos (by simp)]
  obtain ⟨_, _, pending, _, _, _, _⟩ := c
  obtain rfl : pending = none := hnone
  exact hpending

theorem Inv.openTrade (h : c.Inv) (mode : TradeMode) (request : SocketOpenTradeRequest)
    (aborted stopsInside : Bool) : (c.openTrade mode request aborted stopsInside).Inv := by
  unfold Client.openTrade
  simp only []
  split
  · exact h.refuse (by simp)
  split
  · exact h.refuse (by simp)
  rename_i s hs
  split
  · exact h.refuse (by simp)
  rename_i k hk
  split
  · exact h.refuse (by simp)
  rename_i hopen
  simp only [ne_eq, not_or, not_not, Bool.not_eq_true] at hopen
  split
  · exact h.refuse (by simp)
  rename_i hfree
  have hnone : c.pending = none := by simpa using hfree
  split
  · exact h.refuse (by simp)
  · cases stopsInside with
    | true => exact h.emit_stopped hs hk hopen.1 hopen.2 hnone rfl ⟨rfl, rfl⟩
    | false =>
      have hemit := h.emit hs hk hopen.1 hopen.2 hnone
        (p := { id := c.calls, session := s.number, connection := k.ordinal, mode := mode
                request := request }) rfl ⟨rfl, rfl⟩
      unfold emitCommand
      simp only [Bool.false_eq_true, if_false]
      rw [if_neg (by simp [hs, hopen.2])]
      exact hemit

theorem Inv.step (h : c.Inv) (e : SocketEvent) : (c.step e).Inv := by
  have hsocket : ∀ n (handler : Session → Client),
      (∀ s, c.session = some s → (handler s).Inv) → (c.ofSocket n handler).Inv := by
    intro n handler hh
    unfold Client.ofSocket
    split
    · exact h
    · rename_i s hs
      split
      · exact hh s hs
      · exact h
  cases e with
  | start => exact h.start
  | stop => exact h.stop
  | connect n => exact hsocket n _ (fun s hs => h.onConnect hs)
  | disconnect n reason => exact hsocket n _ (fun s hs => h.onDisconnect hs reason)
  | connectError n active => exact hsocket n _ (fun s hs => h.onConnectError active)
  | broker n event => exact hsocket n _ (fun s hs => h.onAnyEvent hs event)
  | authTimeout n => exact h
  | openTrade mode request aborted stopsInside => exact h.openTrade mode request aborted stopsInside
  | abort id => exact h.endWithoutAnswer id .aborted
  | timeout id => exact h.endWithoutAnswer id .timeout

theorem Inv.created : Client.created.Inv := by
  refine ⟨⟨?_, ?_⟩, ⟨List.nodup_nil, List.nodup_nil⟩, ?_, ?_, ?_, ?_, ?_, ?_⟩ <;>
    simp [Client.created, answered]

theorem Inv.run (h : c.Inv) (es : List SocketEvent) : (run Client.step c es).Inv :=
  run_induction h (fun _ e h => h.step e) es

/-! ## Where an answer comes from -/

section Definite

variable {x : ℕ × OpenTradeAnswer}

theorem mem_settleCommand {r : SocketOpenTradeResult} (h : x ∈ (c.settleCommand r).answers) :
    x ∈ c.answers ∨ ∃ p, c.pending = some p ∧ x = (p.id, .result r) := by
  unfold Client.settleCommand at h
  cases hp : c.pending with
  | none =>
    rw [hp] at h
    exact .inl h
  | some p =>
    rw [hp] at h
    rcases List.mem_cons.mp h with rfl | h
    · exact .inr ⟨p, rfl, rfl⟩
    · exact .inl h

theorem definite_of_transition {state : BrokerSocketState} (hx : x.2.definite = true)
    (h : x ∈ (Client.transition c state).answers) : x ∈ c.answers := by
  unfold Client.transition at h
  split at h
  · exact h
  · rcases mem_settleCommand h with h | ⟨p, _, rfl⟩
    · exact h
    · simp [OpenTradeAnswer.definite] at hx

theorem definite_of_stop (hx : x.2.definite = true) (h : x ∈ c.stop.answers) : x ∈ c.answers := by
  unfold Client.stop at h
  split at h
  · exact h
  · exact (definite_of_transition hx h :)

theorem definite_of_endWithoutAnswer {id : ℕ} {reason : UnknownReason} (hx : x.2.definite = true)
    (h : x ∈ (c.endWithoutAnswer id reason).answers) : x ∈ c.answers := by
  have hsettled : x ∈ (c.settleCommand (.unknown reason c.state)).answers → x ∈ c.answers := by
    intro h
    rcases mem_settleCommand h with h | ⟨p, _, rfl⟩
    · exact h
    · simp [OpenTradeAnswer.definite] at hx
  unfold Client.endWithoutAnswer at h
  split at h
  · exact h
  split at h
  · exact h
  simp only [] at h
  split at h
  · exact hsettled h
  · split at h
    · exact hsettled h
    · exact hsettled h

theorem definite_of_answer {id : ℕ} {a : OpenTradeAnswer} (ha : a.definite = false)
    (hx : x.2.definite = true) (h : x ∈ (c.answer id a).answers) : x ∈ c.answers := by
  rcases List.mem_cons.mp h with rfl | h
  · rw [ha] at hx
    simp at hx
  · exact h

theorem definite_of_emitCommand {p : Command} {stopsInside : Bool} (hx : x.2.definite = true)
    (h : x ∈ (c.emitCommand p stopsInside).answers) : x ∈ c.answers := by
  cases stopsInside with
  | false =>
    simp only [emitCommand, Bool.false_eq_true, if_false] at h
    split at h
    · exact (definite_of_answer rfl hx h :)
    · exact h
  | true =>
    -- the emit itself stops the client
    simp only [emitCommand, if_true] at h
    split at h
    · have hstop := definite_of_answer rfl hx h
      exact (definite_of_stop hx hstop :)
    · exact (definite_of_stop hx h :)

theorem definite_of_openTrade {mode : TradeMode} {request : SocketOpenTradeRequest}
    {aborted stopsInside : Bool} (hx : x.2.definite = true)
    (h : x ∈ (c.openTrade mode request aborted stopsInside).answers) : x ∈ c.answers := by
  have hrefuse : ∀ {a : OpenTradeAnswer} {id : ℕ}, a.definite = false →
      x ∈ (answer { c with calls := c.calls + 1 } id a).answers → x ∈ c.answers :=
    fun ha h => definite_of_answer (c := { c with calls := c.calls + 1 }) ha hx h
  unfold Client.openTrade at h
  simp only [] at h
  split at h
  · exact hrefuse rfl h
  split at h
  · exact hrefuse rfl h
  split at h
  · exact hrefuse rfl h
  split at h
  · exact hrefuse rfl h
  split at h
  · exact hrefuse rfl h
  split at h
  · exact hrefuse rfl h
  · exact (definite_of_emitCommand hx h :)

/-- **Where a success or a fail comes from**: an event, on the connection of the command in flight. -/
theorem definite_of_step {e : SocketEvent} (hx : x.2.definite = true) (h : x ∈ (c.step e).answers) :
    x ∈ c.answers ∨ ∃ p s event, e = .broker p.session event ∧ c.pending = some p ∧ x.1 = p.id ∧
      c.session = some s ∧ s.number = p.session ∧ s.connection.map (·.ordinal) = some p.connection ∧
      ((∃ trade, event = .openTradeSuccess p.mode trade ∧ mismatchedField trade p.request = none ∧
          x.2 = .result (.success trade) ∧ c.step e = c.settleCommand (.success trade)) ∨
        ∃ failures, event = .openTradeFail p.mode failures ∧ x.2 = .result (.fail failures) ∧
          c.step e = c.settleCommand (.fail failures)) := by
  have hsocket : ∀ n (handler : Session → Client),
      (∀ s, c.session = some s → s.number = n → x ∈ (handler s).answers → x ∈ c.answers) →
      x ∈ (c.ofSocket n handler).answers → x ∈ c.answers := by
    intro n handler hh h
    unfold Client.ofSocket at h
    split at h
    · exact h
    · rename_i s hs
      split at h
      · rename_i hn
        exact hh s hs hn h
      · exact h
  cases e with
  | start =>
    refine .inl ?_
    simp only [Client.step, Client.start] at h
    split at h
    · exact h
    · exact (definite_of_transition hx h :)
  | stop => exact .inl (definite_of_stop hx h)
  | connect n =>
    refine .inl (hsocket n _ (fun s _ _ h => ?_) h)
    unfold Client.onConnect at h
    split at h
    · exact h
    · exact (definite_of_transition hx h :)
  | disconnect n reason =>
    refine .inl (hsocket n _ (fun s _ _ h => ?_) h)
    unfold Client.onDisconnect at h
    simp only [] at h
    split at h
    · exact h
    split at h
    · exact (definite_of_transition hx h :)
    · exact (definite_of_transition hx h :)
  | connectError n active =>
    refine .inl (hsocket n _ (fun s _ _ h => ?_) h)
    unfold Client.onConnectError at h
    split at h
    · exact h
    split at h
    · exact h
    · exact (definite_of_transition hx h :)
  | authTimeout n => exact .inl h
  | openTrade mode request aborted stopsInside => exact .inl (definite_of_openTrade hx h)
  | abort id => exact .inl (definite_of_endWithoutAnswer hx h)
  | timeout id => exact .inl (definite_of_endWithoutAnswer hx h)
  | broker n event =>
    cases hs : c.session with
    | none =>
      simp only [Client.step, Client.ofSocket, hs] at h
      exact .inl h
    | some s =>
      by_cases hn : s.number = n
      · have hstep : c.step (.broker n event) = c.onAnyEvent s event := by
          simp only [Client.step, Client.ofSocket, hs, if_pos hn]
        rw [hstep] at h
        have hafter : x ∈ (c.answerCommand s event).answers := by
          unfold Client.onAnyEvent at h
          simp only [] at h
          split at h
          · unfold Client.onAuthSuccess at h
            split at h
            · exact h
            · exact (definite_of_transition hx h :)
          · unfold Client.onTerminalEvent at h
            split at h
            · exact h
            · exact (definite_of_transition hx h :)
          · unfold Client.onTerminalEvent at h
            split at h
            · exact h
            · exact (definite_of_transition hx h :)
          · exact h
        rcases answerCommand_cases c s event with heq | ⟨p, hp, hsession, hconn, hanswer⟩
        · rw [heq] at hafter
          exact .inl hafter
        · rcases hanswer with ⟨trade, rfl, hfield, heq⟩ | ⟨failures, rfl, heq⟩
          · rw [heq] at hafter
            rcases mem_settleCommand hafter with hold | ⟨p', hp', rfl⟩
            · exact .inl hold
            · rw [hp, Option.some.injEq] at hp'
              subst hp'
              exact .inr ⟨p, s, _, by rw [hsession, hn], hp, rfl, rfl, hsession.symm, hconn,
                .inl ⟨trade, rfl, hfield, rfl, hstep.trans heq⟩⟩
          · rw [heq] at hafter
            rcases mem_settleCommand hafter with hold | ⟨p', hp', rfl⟩
            · exact .inl hold
            · rw [hp, Option.some.injEq] at hp'
              subst hp'
              exact .inr ⟨p, s, _, by rw [hsession, hn], hp, rfl, rfl, hsession.symm, hconn,
                .inr ⟨failures, rfl, rfl, hstep.trans heq⟩⟩
      · simp only [Client.step, Client.ofSocket, hs, if_neg hn] at h
        exact .inl h

end Definite

/-! ## Answers stay -/

section Answers

variable {x : ℕ × OpenTradeAnswer}

theorem keeps_settleCommand (r : SocketOpenTradeResult) (h : x ∈ c.answers) :
    x ∈ (c.settleCommand r).answers := by
  unfold Client.settleCommand
  split
  · exact h
  · exact List.mem_cons_of_mem _ h

theorem keeps_transition (state : BrokerSocketState) (h : x ∈ c.answers) :
    x ∈ (Client.transition c state).answers := by
  unfold Client.transition
  split
  · exact h
  · exact keeps_settleCommand _ h

theorem keeps_stop (h : x ∈ c.answers) : x ∈ c.stop.answers := by
  unfold Client.stop
  split
  · exact h
  · exact keeps_transition _ h

theorem keeps_onTerminalEvent (s : Session) (state : BrokerSocketState) (h : x ∈ c.answers) :
    x ∈ (c.onTerminalEvent s state).answers := by
  unfold Client.onTerminalEvent
  split
  · exact h
  · exact keeps_transition _ h

theorem keeps_endWithoutAnswer (id : ℕ) (reason : UnknownReason) (h : x ∈ c.answers) :
    x ∈ (c.endWithoutAnswer id reason).answers := by
  unfold Client.endWithoutAnswer
  split
  · exact h
  split
  · exact h
  simp only []
  split
  · exact keeps_settleCommand _ h
  · split
    · exact keeps_settleCommand _ h
    · exact keeps_settleCommand _ h

theorem keeps_answerCommand (s : Session) (event : BrokerEvent) (h : x ∈ c.answers) :
    x ∈ (c.answerCommand s event).answers := by
  rcases answerCommand_cases c s event with heq | ⟨p, _, _, _, ⟨trade, _, _, heq⟩ | ⟨failures, _, heq⟩⟩
  · rw [heq]
    exact h
  · rw [heq]
    exact keeps_settleCommand _ h
  · rw [heq]
    exact keeps_settleCommand _ h

theorem keeps_onAnyEvent (s : Session) (event : BrokerEvent) (h : x ∈ c.answers) :
    x ∈ (c.onAnyEvent s event).answers := by
  have hanswered := keeps_answerCommand s event h
  unfold Client.onAnyEvent
  simp only []
  split
  · unfold Client.onAuthSuccess
    split
    · exact hanswered
    · exact keeps_transition _ hanswered
  · exact keeps_onTerminalEvent s _ hanswered
  · exact keeps_onTerminalEvent s _ hanswered
  · exact hanswered

theorem keeps_openTrade (mode : TradeMode) (request : SocketOpenTradeRequest)
    (aborted stopsInside : Bool) (h : x ∈ c.answers) :
    x ∈ (c.openTrade mode request aborted stopsInside).answers := by
  have hcons : ∀ y, x ∈ y :: c.answers := fun _ => List.mem_cons_of_mem _ h
  unfold Client.openTrade
  simp only []
  split
  · exact hcons _
  split
  · exact hcons _
  split
  · exact hcons _
  split
  · exact hcons _
  split
  · exact hcons _
  split
  · exact hcons _
  · cases stopsInside with
    | false =>
      simp only [emitCommand, Bool.false_eq_true, if_false]
      split
      · exact hcons _
      · exact h
    | true =>
      simp only [emitCommand, if_true]
      split
      · exact List.mem_cons_of_mem _ (keeps_stop h)
      · exact keeps_stop h

/-- **A settled call stays settled with its answer.** -/
theorem keeps_step (e : SocketEvent) (h : x ∈ c.answers) : x ∈ (c.step e).answers := by
  have hsocket : ∀ n (handler : Session → Client), (∀ s, x ∈ (handler s).answers) →
      x ∈ (c.ofSocket n handler).answers := by
    intro n handler hh
    unfold Client.ofSocket
    split
    · exact h
    · split
      · exact hh _
      · exact h
  cases e with
  | start =>
    simp only [Client.step, Client.start]
    split
    · exact h
    · exact keeps_transition _ h
  | stop => exact keeps_stop h
  | connect n =>
    refine hsocket n _ (fun s => ?_)
    unfold Client.onConnect
    split
    · exact h
    · exact keeps_transition _ h
  | disconnect n reason =>
    refine hsocket n _ (fun s => ?_)
    unfold Client.onDisconnect
    simp only []
    split
    · exact h
    split
    · exact keeps_transition _ h
    · exact keeps_transition _ h
  | connectError n active =>
    refine hsocket n _ (fun s => ?_)
    unfold Client.onConnectError
    split
    · exact h
    split
    · exact h
    · exact keeps_transition _ h
  | broker n event => exact hsocket n _ (fun s => keeps_onAnyEvent s event h)
  | authTimeout n => exact h
  | openTrade mode request aborted stopsInside =>
    exact keeps_openTrade mode request aborted stopsInside h
  | abort id => exact keeps_endWithoutAnswer id _ h
  | timeout id => exact keeps_endWithoutAnswer id _ h

end Answers

/-! ## The whole -/

/-- The event that settles a command with a success or a fail: of its mode, on its own connection, and for
a success with its terms. -/
def Attributed (c : Client) (e : SocketEvent) (p : Command) (a : OpenTradeAnswer) : Prop :=
  c.pending = some p ∧ ∃ event s, e = .broker p.session event ∧ c.session = some s ∧
    s.number = p.session ∧ s.connection.map (·.ordinal) = some p.connection ∧
    ((∃ trade, event = .openTradeSuccess p.mode trade ∧ mismatchedField trade p.request = none ∧
        a = .result (.success trade)) ∨
      ∃ failures, event = .openTradeFail p.mode failures ∧ a = .result (.fail failures))

/-- What holds of the answers of a client. -/
structure AnswersAttributed (c : Client) : Prop where
  one_pending : ∀ p ∈ c.emitted, ∀ q ∈ c.emitted, p.id ∉ c.answered → q.id ∉ c.answered → p = q
  settled_once : ∀ p ∈ c.emitted, c.answered.count p.id = if c.pending = some p then 0 else 1
  timer_settles : ∀ p, c.pending = some p → (c.step (.timeout p.id)).answered.count p.id = 1
  attributed : ∀ e id a, (id, a) ∈ (c.step e).answers → (id, a) ∉ c.answers → a.definite = true →
    ∃ p ∈ c.emitted, p.id = id ∧ c.Attributed e p a ∧
      ∀ q ∈ c.emitted, q.session = p.session → q.connection = p.connection → ¬ (c.step e).silent q.id
  not_sent : ∀ id reason state, (id, .result (.notSent reason state)) ∈ c.answers →
    ∀ p ∈ c.emitted, p.id ≠ id

theorem Inv.settled_once (h : c.Inv) {p : Command} (hp : p ∈ c.emitted) :
    c.answered.count p.id = if c.pending = some p then 0 else 1 := by
  split
  · rename_i hpending
    exact List.count_eq_zero_of_not_mem (h.inFlight p hpending).unanswered
  · rename_i hpending
    rcases h.settled p hp with hpending' | hanswered
    · exact absurd hpending' hpending
    · exact List.count_eq_one_of_mem h.once.2 hanswered

theorem endWithoutAnswer_emitted (id : ℕ) (reason : UnknownReason) :
    (c.endWithoutAnswer id reason).emitted = c.emitted := by
  have hsettle : ∀ r, (c.settleCommand r).emitted = c.emitted := by
    intro r
    unfold Client.settleCommand
    split <;> rfl
  unfold Client.endWithoutAnswer
  split
  · rfl
  split
  · rfl
  simp only []
  split
  · exact hsettle _
  · split
    · exact hsettle _
    · exact hsettle _

theorem endWithoutAnswer_pending {p : Command} (hp : c.pending = some p) (reason : UnknownReason) :
    (c.endWithoutAnswer p.id reason).pending = none := by
  have hsettle : ∀ r, (c.settleCommand r).pending = none := by
    intro r
    unfold Client.settleCommand
    rw [hp]
    rfl
  unfold Client.endWithoutAnswer
  rw [hp]
  simp only [ne_eq, not_true_eq_false, if_false]
  split
  · exact hsettle _
  · split
    · exact hsettle _
    · exact hsettle _

/-- The silence of a command survives in no usable connection: it is not the one a command waits on. -/
theorem Inv.not_silent (h : c.Inv) {p q : Command} {s : Session} (hp : c.pending = some p)
    (hq : q ∈ c.emitted) (hs : c.session = some s)
    (hconn : s.connection.map (·.ordinal) = some p.connection) (hsession : q.session = p.session)
    (hconnection : q.connection = p.connection) : ¬ c.silent q.id := by
  intro hsilent
  obtain ⟨_, _, hready, s', hs', hnumber, hlive⟩ := h.inFlight p hp
  rw [hs, Option.some.injEq] at hs'
  subst hs'
  obtain ⟨k, hk, hord⟩ := Option.map_eq_some_iff.mp hconn
  have hsent : q.sentOn s k := ⟨hsession.trans hnumber.symm, hconnection.trans hord.symm⟩
  rcases h.silence q hq hsilent s k hs hk hsent with htainted | hterminal
  · rw [(hlive k hk).2] at htainted
    simp at htainted
  · rw [hready] at hterminal
    simp [BrokerSocketState.isTerminal] at hterminal

theorem silent_settleCommand {r : SocketOpenTradeResult} (hr : OpenTradeAnswer.definite (.result r) = true)
    {id : ℕ} (h : (c.settleCommand r).silent id) : c.silent id := by
  obtain ⟨reason, state, hmem⟩ := h
  rcases mem_settleCommand hmem with hold | ⟨p, _, heq⟩
  · exact ⟨reason, state, hold⟩
  · rw [Prod.mk.injEq] at heq
    rw [← heq.2] at hr
    simp [OpenTradeAnswer.definite] at hr

theorem Inv.attributed (h : c.Inv) {e : SocketEvent} {id : ℕ} {a : OpenTradeAnswer}
    (hmem : (id, a) ∈ (c.step e).answers) (hnew : (id, a) ∉ c.answers) (ha : a.definite = true) :
    ∃ p ∈ c.emitted, p.id = id ∧ c.Attributed e p a ∧
      ∀ q ∈ c.emitted, q.session = p.session → q.connection = p.connection →
        ¬ (c.step e).silent q.id := by
  rcases definite_of_step (x := (id, a)) ha hmem with hold |
    ⟨p, s, event, rfl, hp, hid, hs, hn, hconn, hanswer⟩
  · exact absurd hold hnew
  have hsilent : ∀ r, OpenTradeAnswer.definite (.result r) = true →
      c.step (.broker p.session event) = c.settleCommand r →
      ∀ q ∈ c.emitted, q.session = p.session → q.connection = p.connection →
        ¬ (c.step (.broker p.session event)).silent q.id := by
    intro r hr hstep q hq hsession hconnection hsilent
    rw [hstep] at hsilent
    exact h.not_silent hp hq hs hconn hsession hconnection (silent_settleCommand hr hsilent)
  have hemitted := (h.inFlight p hp).emitted
  rcases hanswer with ⟨trade, rfl, hfield, rfl, hstep⟩ | ⟨failures, rfl, rfl, hstep⟩
  · exact ⟨p, hemitted, hid.symm, ⟨hp, _, s, rfl, hs, hn, hconn, .inl ⟨trade, rfl, hfield, rfl⟩⟩,
      hsilent _ rfl hstep⟩
  · exact ⟨p, hemitted, hid.symm, ⟨hp, _, s, rfl, hs, hn, hconn, .inr ⟨failures, rfl, rfl⟩⟩,
      hsilent _ rfl hstep⟩

theorem Inv.answersAttributed (h : c.Inv) : AnswersAttributed c := by
  refine ⟨?_, fun p hp => h.settled_once hp, ?_, fun e id a => h.attributed, h.notSent⟩
  · intro p hp q hq hnp hnq
    have hpending := (h.settled p hp).resolve_right hnp
    have hpending' := (h.settled q hq).resolve_right hnq
    rw [hpending] at hpending'
    exact Option.some.inj hpending'
  · intro p hp
    have hstep := h.step (.timeout p.id)
    have hemitted : p ∈ (c.step (.timeout p.id)).emitted := by
      show p ∈ (c.endWithoutAnswer p.id .timeout).emitted
      rw [endWithoutAnswer_emitted]
      exact (h.inFlight p hp).emitted
    have hcount := hstep.settled_once hemitted
    rw [show (c.step (.timeout p.id)).pending = none from endWithoutAnswer_pending hp .timeout] at hcount
    simpa using hcount

end Client

/-- **Socket answer attribution.**  After any sequence of entry points: at most one emitted command waits;
every other one settled once, and the timer of the waiting one settles it; a success or a fail comes from
an event of the command's mode on its own connection, where no command ended in silence; and a call that
answered `not_sent` emitted nothing. -/
theorem answer_attribution (es : List SocketEvent) :
    Client.AnswersAttributed (run Client.step Client.created es) :=
  (Client.Inv.created.run es).answersAttributed

/-- A timeout, then the late answer of the command that timed out, before and after the reconnect. -/
def lateAnswer : List SocketEvent :=
  let request : SocketOpenTradeRequest := { assetId := 3, amount := ['1'], action := .up, durationSec := 5 }
  [.start, .connect 0, .broker 0 .authSuccess, .openTrade .demo request false false, .timeout 0,
   .openTrade .demo request false false, .broker 0 (.openTradeFail .demo []), .disconnect 0 .transport,
   .connect 0, .broker 0 .authSuccess, .openTrade .demo request false false]

example : (run Client.step Client.created lateAnswer).answers =
    [(1, .result (.notSent .notReady .ready)), (0, .result (.unknown .timeout .ready))] := by decide

end Binarius
