import Mathlib.Tactic
import Binarius.Backend.SessionTrades

/-!
# Backend.SessionWorld — the sessions' trades over runs, under the database's clock

The world of `StepWorld` with the clock its rows are stamped by: a transaction's `now()` is the time it
began at, and every beginning has a later time than the one before it.

* `StepWorld.act_trades`: an action advances every session's intents, or is one session's creation.
* `SessionWorld.Inv.act`: a creation is stamped later than every intent of its session, as its call read
  them before its transaction began.
* `SessionWorld.TradesStep`: **what an action does to a session's trades.**
-/

namespace Binarius

open Lib

/-! ## Actions and trades -/

/-- The intents of every session are untouched. -/
theorem Advances.of_sessionIntents {db db' : Db} (hintents : ∀ s, db'.sessionIntents s = db.sessionIntents s)
    (htrades : db'.brokerTrades = db.brokerTrades) : Advances db db' := by
  intro s
  refine ⟨id, by rw [hintents, List.map_id], fun r _ => ⟨rfl, rfl, rfl, rfl, fun _ => ⟨rfl, ?_⟩⟩⟩
  rw [Db.linked, htrades, Db.linked]

theorem Advances.createTradeIntent {now : UnixMs} {id : IntentId} {input : CreateTradeIntentRequest}
    {options : CreateTradeIntentOptions} {res : CreateTradeIntentResult} {db db' : Db}
    (h : (createInTransaction now id input none options).run db = .ok (res, db')) : Advances db db' := by
  obtain ⟨_, _, _, rfl⟩ | ⟨user, account, t, e, _, _, _, hrow, ht, _, rfl, _⟩ := createInTransaction_ok h
  · exact .refl _
  · refine Advances.of_sessionIntents (fun s => ?_) rfl
    have hrows := (Table.insert?_eq_some.mp ht).2
    have hno : ¬ decide (res.intent.tradingSessionId = some s) = true := by
      rw [hrow]
      exact Bool.false_ne_true
    show t.rows.filter _ = _
    rw [hrows, List.filter_cons, if_neg hno]
    rfl

/-- What the last part of a session's creation stamps. -/
theorem createsAt_of_writeIntent {now : UnixMs} {id : IntentId} {input : CreateSessionIntentInput}
    {decision : Except Unit ℕ} {userId : UserId} {account : AccountId} {res : CreateTradeIntentResult}
    {db db' : Db} (howner : ∃ row, db.brokerAccounts.find? account = some row ∧ row.userId = userId)
    (h : (writeIntent now id input.request (some (input.session decision)) userId account).run db =
      .ok (res, db')) : CreatesAt db db' input.sessionId input.step now := by
  obtain ⟨t, session, hinsert, ht, _⟩ := writeIntent_ok h
  refine ⟨creates_of_writeIntent howner h, fun r hr => ?_, ?_⟩
  · rw [ht, (Table.insert?_eq_some.mp hinsert).2] at hr
    obtain ⟨rfl, -⟩ := List.cons.inj hr
    exact ⟨rfl, rfl⟩
  · simp only [writeIntent, Tx.run_bind_eq_ok] at h
    obtain ⟨_, _, hreserve, _, _, hlock, _, _, hsession, queued, _, hqueued, h⟩ := h
    obtain ⟨user, _, _, rfl⟩ := reserveTokens_ok hreserve
    obtain rfl := lockAccount_ok hlock
    obtain rfl := lockSession_ok hsession
    obtain ⟨_, _, _, _, _, rfl, _⟩ := insertQueued_ok (by rfl) (by rfl) (by rfl) hqueued
    simp only [StateT.run_pure, Tx.run_pure_eq_ok] at h
    obtain ⟨-, rfl⟩ := h
    rfl

namespace StepWorld

variable {w : StepWorld}

/-- **What an action does to the trades**: it advances every session's intents, or it is the commit of one
session's creation. -/
theorem act_trades (hw : w.Inv) (a : StepAct)
    (htables : ∀ tables, a = .otherTables tables → tables.brokerTrades = w.db.brokerTrades) :
    (Advances w.db (w.act a).db ∧ Keeps w.db (w.act a).db) ∨
      ∃ c now id decision input userId account, a = .commit c now id decision ∧
        w.calls c = .writing input userId account ∧
        CreatesAt w.db (w.act a).db input.sessionId input.step now := by
  have hsame : (w.act a).db = w.db → Advances w.db (w.act a).db ∧ Keeps w.db (w.act a).db := by
    intro hdb
    rw [hdb]
    exact ⟨.refl _, .refl _⟩
  cases a with
  | launch c state plan =>
    refine .inl (hsame ?_)
    simp only [StepWorld.act]
    split <;> rfl
  | readOwner c clock => exact .inl (hsame ((calls_db w c).1 clock))
  | readIntents c reads => exact .inl (hsame ((calls_db w c).2.1 reads))
  | begin c => exact .inl (hsame (calls_db w c).2.2.1)
  | check c demoOnly => exact .inl (hsame ((calls_db w c).2.2.2 demoOnly))
  | commit c now id decision =>
    have hphase := hw.calls c
    simp only [StepWorld.act, StepWorld.commit] at hsame ⊢
    split at hsame
    · rename_i input userId account hcall
      rw [hcall] at hphase
      split at hsame
      · rename_i res db hwrite
        exact .inr ⟨c, now, id, decision, input, userId, account, rfl, hcall,
          createsAt_of_writeIntent hphase.2 hwrite⟩
      · exact .inl (hsame rfl)
    · exact .inl (hsame rfl)
  | lookup c =>
    refine .inl (hsame ?_)
    simp only [StepWorld.act]
    split <;> rfl
  | crash c => exact .inl (hsame rfl)
  | other t =>
    exact .inl ⟨advances_of_other t.property w.db, Keeps.of_sameSteps (sameSteps_of_other t.property w.db)⟩
  | createTradeIntent now id input options =>
    exact .inl (Tx.commit_induction (P := fun db : Db => Advances w.db db ∧ Keeps w.db db)
      ⟨.refl _, .refl _⟩ (fun _ _ hrun => ⟨.createTradeIntent hrun, .createTradeIntent hrun⟩))
  | createSession session =>
    simp only [StepWorld.act] at hsame ⊢
    split at hsame
    · rename_i t ht
      exact .inl ⟨.of_tables rfl rfl, .createSession ht⟩
    · exact .inl (hsame rfl)
  | stopSession id =>
    refine .inl ⟨?_, .stopSession id w.db⟩
    show Advances w.db (stopTradingSession id w.db)
    unfold stopTradingSession
    split
    · exact .of_tables rfl rfl
    · exact .refl _
  | linkAccount account =>
    simp only [StepWorld.act] at hsame ⊢
    split at hsame
    · rename_i t ht
      exact .inl ⟨.of_tables rfl rfl, .linkAccount ht⟩
    · exact .inl (hsame rfl)
  | editAccount id status tradingHalted haltedReason =>
    simp only [StepWorld.act] at hsame ⊢
    split at hsame
    · rename_i row t ht
      obtain ⟨account, hfind, _, rfl, rfl⟩ := Table.updateAt_eq_some.mp ht
      exact .inl ⟨.of_tables rfl rfl, .editAccount { account with
        status := status, tradingHalted := tradingHalted, haltedReason := haltedReason } hfind rfl rfl⟩
    · exact .inl (hsame rfl)
  | otherTables tables =>
    exact .inl ⟨.of_tables rfl (htables tables rfl), .of_sameSteps (.of_tables rfl rfl rfl)⟩

end StepWorld

/-! ## The clock -/

/-- The transaction of a call that has begun. -/
def TradePhase.begun : TradePhase → Option CreateSessionIntentInput
  | .checking input _ => some input
  | .writing input _ _ => some input
  | _ => none

structure SessionWorld where
  steps : StepWorld
  /-- the database's clock -/
  clock : UnixMs
  /-- `now()` of a call's transaction -/
  began : ℕ → UnixMs

inductive SessionAct
  | step (a : StepAct)
  /-- time passes -/
  | tick (ms : ℕ)

namespace SessionWorld

def start (db : Db) (clock : UnixMs) : SessionWorld where
  steps := .start db
  clock := clock
  began := fun _ => clock

/-- A creation is stamped by its transaction's time.  Nothing else writes broker trades. -/
def timed (w : SessionWorld) : StepAct → StepAct
  | .commit c _ id decision => .commit c (w.began c) id decision
  | .otherTables tables => .otherTables { tables with brokerTrades := w.steps.db.brokerTrades }
  | a => a

def act (w : SessionWorld) : SessionAct → SessionWorld
  | .step (.begin c) =>
    { steps := w.steps.act (.begin c)
      clock := w.clock + 1
      began := fun c' => if c' = c then w.clock + 1 else w.began c' }
  | .step a => { w with steps := w.steps.act (w.timed a) }
  | .tick ms => { w with clock := w.clock + ms }

/-- What calls hold under the clock: a begun creation is later than its session's earlier steps. -/
structure Inv (w : SessionWorld) : Prop where
  steps : w.steps.Inv
  trades : SessionTrades w.steps.db
  past : ∀ s, ∀ r ∈ w.steps.db.sessionIntents s, r.createdAt ≤ w.clock
  began : ∀ c, w.began c ≤ w.clock
  later : ∀ c input, (w.steps.calls c).begun = some input →
    ∀ r ∈ w.steps.db.sessionIntents input.sessionId, ∀ k < input.step,
      r.clientRequestId = sessionRequestId input.sessionId k → r.createdAt < w.began c

/-- What an action does to a session's trades: the settled ones grow at the end, a finished session keeps
them, an intent stays, a terminal one as it is, and a session changes its status only while active. -/
structure TradesStep (db db' : Db) : Prop where
  settled : ∀ s, db.settledTrades s <+: db'.settledTrades s
  finished : ∀ s, db.sessionFinished s = true →
    db'.sessionFinished s = true ∧ db'.settledTrades s = db.settledTrades s
  terminal : ∀ s, ∀ r ∈ db.sessionIntents s, r.status.terminal = true → r ∈ db'.sessionIntents s
  kept : ∀ s, ∀ r ∈ db.sessionIntents s, ∃ r' ∈ db'.sessionIntents s, r'.id = r.id
  sessions : ∀ s session, db.tradingSessions.find? s = some session → session.status ≠ .active →
    ∃ session', db'.tradingSessions.find? s = some session' ∧ session'.status = session.status

namespace TradesStep

variable {db db' db'' : Db}

theorem refl (db : Db) : TradesStep db db :=
  ⟨fun _ => List.prefix_rfl, fun _ h => ⟨h, rfl⟩, fun _ _ h _ => h, fun _ r h => ⟨r, h, rfl⟩,
    fun _ session h _ => ⟨session, h, rfl⟩⟩

theorem of_advances (hdb : SessionTrades db) (h : Advances db db') (hkeeps : Keeps db db') :
    TradesStep db db' := by
  refine ⟨hdb.settledTrades_grow h hkeeps, fun s => hdb.finished_stays h hkeeps, fun s r hr hterm => ?_,
    fun s r hr => ?_, fun s session hfind hne => ?_⟩
  · obtain ⟨f, hf, hmoved⟩ := h s
    rw [hf, ← ((hmoved r hr).terminal hterm).1]
    exact List.mem_map_of_mem hr
  · obtain ⟨f, hf, hmoved⟩ := h s
    refine ⟨f r, ?_, (hmoved r hr).id⟩
    rw [hf]
    exact List.mem_map_of_mem hr
  · obtain ⟨session', hfind', _, hstays⟩ := hkeeps.sessions s session hfind
    exact ⟨session', hfind', hstays hne⟩

theorem of_create {s' : SessionId} {step : ℕ} {now : UnixMs} (hdb : SessionTrades db)
    (hdb' : SessionTrades db') (h : CreatesAt db db' s' step now) : TradesStep db db' := by
  obtain ⟨r, _, hself, hother, _⟩ := SessionTrades.sessionIntents_creates h
  obtain ⟨_, _, _, _, ⟨active, _, hactive, hstatus, _⟩, _⟩ := h.creates.row
  have hkept : ∀ s, ∀ x ∈ db.sessionIntents s, x ∈ db'.sessionIntents s := by
    intro s x hx
    by_cases hs : s = s'
    · subst hs
      rw [hself]
      exact List.mem_cons_of_mem r hx
    · rw [hother s hs]
      exact hx
  refine ⟨fun s => by rw [hdb.settledTrades_create hdb' h], fun s hfin => ?_, fun s x hx _ => hkept s x hx,
    fun s x hx => ⟨x, hkept s x hx, rfl⟩, fun s session hfind _ => ?_⟩
  · refine ⟨?_, hdb.settledTrades_create hdb' h s⟩
    have hne : s ≠ s' := by
      rintro rfl
      rw [Db.sessionFinished, hactive, Option.any_some, hstatus] at hfin
      exact absurd hfin Bool.false_ne_true
    rw [Db.sessionFinished, h.creates.sessions, Db.allTerminal, hother s hne]
    exact hfin
  · rw [h.creates.sessions]
    exact ⟨session, hfind, rfl⟩

end TradesStep

/-! ## Steps and runs -/

theorem begun_setCall {w : StepWorld} {c c' : ℕ} {phase : TradePhase} {input : CreateSessionIntentInput}
    (h : ((w.setCall c phase).calls c').begun = some input) :
    (c' = c ∧ phase.begun = some input) ∨ (w.calls c').begun = some input := by
  have hcalls : (w.setCall c phase).calls c' = if c' = c then phase else w.calls c' := rfl
  rw [hcalls] at h
  by_cases hc : c' = c
  · rw [if_pos hc] at h
    exact .inl ⟨hc, h⟩
  · rw [if_neg hc] at h
    exact .inr h

/-- A call has begun before an action, or begins by it. -/
theorem begun_act {w : StepWorld} {a : StepAct} {c : ℕ} {input : CreateSessionIntentInput}
    (h : ((w.act a).calls c).begun = some input) :
    (w.calls c).begun = some input ∨ (a = .begin c ∧ w.calls c = .creating input) := by
  have hidle : ∀ {w' : StepWorld} {c₀ : ℕ} {phase : TradePhase}, phase.begun = none →
      w'.calls = (w.setCall c₀ phase).calls → (w'.calls c).begun = some input →
      (w.calls c).begun = some input := by
    intro w' c₀ phase hnone hcalls hbegun
    rw [hcalls] at hbegun
    rcases begun_setCall hbegun with ⟨_, hsome⟩ | hkept
    · rw [hnone] at hsome
      exact nomatch hsome
    · exact hkept
  cases a with
  | launch c₀ state plan =>
    simp only [StepWorld.act] at h
    split at h
    · exact .inl (hidle rfl rfl h)
    · exact .inl h
  | readOwner c₀ clock =>
    simp only [StepWorld.act, StepWorld.readOwner] at h
    split at h
    · split at h
      · exact .inl (hidle rfl rfl h)
      · exact .inl (hidle rfl rfl h)
    · exact .inl h
  | readIntents c₀ reads =>
    simp only [StepWorld.act, StepWorld.readIntents] at h
    split at h
    · split at h
      · exact .inl (hidle rfl rfl h)
      · exact .inl (hidle rfl rfl h)
    · exact .inl h
  | begin c₀ =>
    simp only [StepWorld.act, StepWorld.begin] at h
    split at h
    · rename_i input' hcall
      split at h
      · rcases begun_setCall h with ⟨rfl, hsome⟩ | hkept
        · obtain rfl : input' = input := Option.some.inj hsome
          exact .inr ⟨rfl, hcall⟩
        · exact .inl hkept
      · exact .inl (hidle rfl rfl h)
    · exact .inl h
  | check c₀ demoOnly =>
    simp only [StepWorld.act, StepWorld.check] at h
    split at h
    · rename_i input' userId hcall
      split at h
      · rcases begun_setCall h with ⟨rfl, hsome⟩ | hkept
        · refine .inl ?_
          rw [hcall]
          exact hsome
        · exact .inl hkept
      · exact .inl (hidle rfl rfl h)
    · exact .inl h
  | commit c₀ now id decision =>
    simp only [StepWorld.act, StepWorld.commit] at h
    split at h
    · split at h
      · exact .inl (hidle rfl rfl h)
      · split at h
        · exact .inl (hidle rfl rfl h)
        · exact .inl (hidle rfl rfl h)
    · exact .inl h
  | lookup c₀ =>
    simp only [StepWorld.act] at h
    split at h
    · exact .inl (hidle rfl rfl h)
    · exact .inl h
  | crash c₀ => exact .inl (hidle rfl rfl h)
  | other t => exact .inl h
  | createTradeIntent now id input options => exact .inl h
  | createSession session =>
    simp only [StepWorld.act] at h
    split at h <;> exact .inl h
  | stopSession id => exact .inl h
  | linkAccount account =>
    simp only [StepWorld.act] at h
    split at h <;> exact .inl h
  | editAccount id status tradingHalted haltedReason =>
    simp only [StepWorld.act] at h
    split at h <;> exact .inl h
  | otherTables tables => exact .inl h

variable {w : SessionWorld}

theorem Inv.start (db : Db) (clock : UnixMs) : (SessionWorld.start db clock).Inv := by
  have hnone : ∀ s, (SessionWorld.start db clock).steps.db.sessionIntents s = [] := fun _ => rfl
  refine ⟨.start db, ⟨fun s r hr => ?_, fun s => ?_, fun s r hr => ?_⟩, fun s r hr => ?_, fun _ => le_refl _,
    fun c input h => nomatch h⟩
  · rw [hnone] at hr
    exact nomatch hr
  · rw [hnone]
    exact List.Pairwise.nil
  · rw [hnone] at hr
    exact nomatch hr
  · rw [hnone] at hr
    exact nomatch hr

theorem bound_of_begun {db : Db} {phase : TradePhase} {input : CreateSessionIntentInput}
    (hok : phase.Ok db) (h : phase.begun = some input) : StepBound db input := by
  cases phase with
  | checking input' userId =>
    obtain rfl : input' = input := Option.some.inj h
    exact hok
  | writing input' userId account =>
    obtain rfl : input' = input := Option.some.inj h
    exact hok.1
  | idle => exact nomatch h
  | launched state plan => exact nomatch h
  | ownerRead state plan owner => exact nomatch h
  | creating input' => exact nomatch h
  | violated input' => exact nomatch h

/-- Every intent of a session is one of its steps so far. -/
theorem exists_step {db : Db} (hdb : StepInv db) {s : SessionId} {r : TradeIntentRow}
    (hr : r ∈ db.sessionIntents s) :
    ∃ k, k ≤ (db.stepTerms s).length ∧ r.clientRequestId = sessionRequestId s k := by
  have hterms : r.terms ∈ db.stepTerms s := by
    rw [Db.stepTerms_eq]
    exact List.mem_map_of_mem hr
  have hid : r.clientRequestId ∈ stepIds s (db.stepTerms s).length :=
    (hdb.perm s).mem_iff.mp (List.mem_map_of_mem (f := IntentTerms.clientRequestId) hterms)
  obtain ⟨k, hk, hkey⟩ := List.mem_map.mp hid
  exact ⟨k + 1, List.mem_range.mp hk, hkey.symm⟩

theorem timed_commit {a : StepAct} {c : ℕ} {now : UnixMs} {id : IntentId} {decision : Except Unit ℕ}
    (h : w.timed a = .commit c now id decision) : now = w.began c := by
  cases a with
  | commit c' now' id' decision' =>
    obtain ⟨rfl, rfl, _, _⟩ := StepAct.commit.inj h
    rfl
  | otherTables tables => exact nomatch h
  | launch c' state plan => exact nomatch h
  | readOwner c' clock => exact nomatch h
  | readIntents c' reads => exact nomatch h
  | begin c' => exact nomatch h
  | check c' demoOnly => exact nomatch h
  | lookup c' => exact nomatch h
  | crash c' => exact nomatch h
  | other t => exact nomatch h
  | createTradeIntent now' id' input options => exact nomatch h
  | createSession session => exact nomatch h
  | stopSession id' => exact nomatch h
  | linkAccount account => exact nomatch h
  | editAccount id' status tradingHalted haltedReason => exact nomatch h

/-- A creation is stamped later than its session's intents. -/
theorem Inv.stamp_later (hw : w.Inv) {c : ℕ} {input : CreateSessionIntentInput} {db : Db}
    (hbegun : (w.steps.calls c).begun = some input) (h : Creates w.steps.db db input.sessionId input.step) :
    ∀ r ∈ w.steps.db.sessionIntents input.sessionId, r.createdAt < w.began c := by
  intro r hr
  obtain ⟨hpos, hle⟩ := bound_of_begun (hw.steps.calls c) hbegun
  have hstep := h.step_eq hw.steps.db hpos hle
  obtain ⟨k, hk, hkey⟩ := exists_step hw.steps.db hr
  exact hw.later c input hbegun r hr k (by omega) hkey

/-- The actions that begin no transaction. -/
theorem Inv.step (hw : w.Inv) {a : StepAct} (ha : ∀ c, w.timed a ≠ .begin c) :
    ({ w with steps := w.steps.act (w.timed a) } : SessionWorld).Inv ∧
      TradesStep w.steps.db (w.steps.act (w.timed a)).db := by
  have hsteps := (hw.steps.act (w.timed a)).1
  have hbegun : ∀ c input, ((w.steps.act (w.timed a)).calls c).begun = some input →
      (w.steps.calls c).begun = some input := by
    intro c input h
    rcases begun_act h with h | ⟨hbegin, _⟩
    · exact h
    · exact absurd hbegin (ha c)
  have htables : ∀ tables, w.timed a = .otherTables tables →
      tables.brokerTrades = w.steps.db.brokerTrades := by
    intro tables h
    cases a with
    | otherTables tables' =>
      obtain rfl := StepAct.otherTables.inj h
      rfl
    | _ => exact nomatch h
  rcases StepWorld.act_trades hw.steps (w.timed a) htables with
    ⟨hadv, hkeeps⟩ | ⟨c, now, id, decision, input, userId, account, hact, hcall, hcreates⟩
  · refine ⟨⟨hsteps, hw.trades.advances hadv hkeeps, fun s r' hr' => ?_, hw.began, fun c input hc r' hr' => ?_⟩,
      .of_advances hw.trades hadv hkeeps⟩
    · obtain ⟨f, hf, hmoved⟩ := hadv s
      rw [hf] at hr'
      obtain ⟨r, hr, rfl⟩ := List.mem_map.mp hr'
      rw [(hmoved r hr).createdAt]
      exact hw.past s r hr
    · obtain ⟨f, hf, hmoved⟩ := hadv input.sessionId
      rw [hf] at hr'
      obtain ⟨r, hr, rfl⟩ := List.mem_map.mp hr'
      rw [(hmoved r hr).createdAt, (hmoved r hr).requestId]
      exact hw.later c input (hbegun c input hc) r hr
  · have hcallbegun : (w.steps.calls c).begun = some input := by
      rw [hcall]
      rfl
    obtain rfl := timed_commit hact
    have hnow := hw.stamp_later hcallbegun hcreates.creates
    have htrades := hw.trades.create hcreates hnow
    obtain ⟨x, ⟨hstamp, _, hrequest⟩, hself, hother, _⟩ := SessionTrades.sessionIntents_creates hcreates
    refine ⟨⟨hsteps, htrades, fun s r hr => ?_, hw.began, fun c' input' hc' r hr k hk hkey => ?_⟩,
      .of_create hw.trades htrades hcreates⟩
    · by_cases hs : s = input.sessionId
      · subst hs
        rw [hself] at hr
        rcases List.mem_cons.mp hr with rfl | hr
        · rw [hstamp]
          exact hw.began c
        · exact hw.past _ r hr
      · rw [hother s hs] at hr
        exact hw.past s r hr
    · have hold := hw.later c' input' (hbegun c' input' hc')
      by_cases hs : input'.sessionId = input.sessionId
      · rw [hs, hself] at hr
        rcases List.mem_cons.mp hr with rfl | hr
        · -- the new step is one past the session's, which no other call is beyond
          obtain ⟨hpos, hle⟩ := bound_of_begun (hw.steps.calls c) hcallbegun
          have hstep := hcreates.creates.step_eq hw.steps.db hpos hle
          have hle' := (bound_of_begun (hw.steps.calls c') (hbegun c' input' hc')).2
          rw [hs] at hle'
          rw [hrequest] at hkey
          have hk' := (sessionRequestId_injective hkey).2
          omega
        · rw [← hs] at hr
          exact hold r hr k hk hkey
      · rw [hother _ hs] at hr
        exact hold r hr k hk hkey

/-- A transaction begins: its time is later than every row. -/
theorem Inv.begin (hw : w.Inv) (c : ℕ) :
    (w.act (.step (.begin c))).Inv ∧ TradesStep w.steps.db (w.act (.step (.begin c))).steps.db := by
  have hdb : (w.steps.act (.begin c)).db = w.steps.db := (StepWorld.calls_db w.steps c).2.2.1
  have htrades : TradesStep w.steps.db (w.steps.act (.begin c)).db := by
    rw [hdb]
    exact .refl _
  refine ⟨⟨(hw.steps.act (.begin c)).1, ?_, fun s r hr => ?_, fun c' => ?_, fun c' input hc' r hr k hk hkey => ?_⟩,
    htrades⟩
  · show SessionTrades (w.steps.act (.begin c)).db
    rw [hdb]
    exact hw.trades
  · have hr' : r ∈ (w.steps.act (.begin c)).db.sessionIntents s := hr
    rw [hdb] at hr'
    exact (hw.past s r hr').trans (Int.le_add_one (le_refl _))
  · show (if c' = c then w.clock + 1 else w.began c') ≤ w.clock + 1
    split
    · exact le_refl _
    · exact (hw.began c').trans (Int.le_add_one (le_refl _))
  · have hr' : r ∈ (w.steps.act (.begin c)).db.sessionIntents input.sessionId := hr
    rw [hdb] at hr'
    show r.createdAt < if c' = c then w.clock + 1 else w.began c'
    by_cases hc : c' = c
    · rw [if_pos hc]
      exact Int.lt_add_one_of_le (hw.past _ r hr')
    · rw [if_neg hc]
      rcases begun_act hc' with hbegun | ⟨hbegin, _⟩
      · exact hw.later c' input hbegun r hr' k hk hkey
      · exact absurd (StepAct.begin.inj hbegin).symm hc

/-- **The step lemma.** -/
theorem Inv.act (hw : w.Inv) (a : SessionAct) :
    (w.act a).Inv ∧ TradesStep w.steps.db (w.act a).steps.db := by
  cases a with
  | tick ms =>
    have hle : w.clock ≤ w.clock + ms := Int.le_add_of_nonneg_right (Int.natCast_nonneg ms)
    refine ⟨⟨hw.steps, hw.trades, fun s r hr => (hw.past s r hr).trans hle, fun c => (hw.began c).trans hle,
      hw.later⟩, .refl _⟩
  | step a =>
    cases a with
    | begin c => exact hw.begin c
    | _ => exact hw.step (fun c h => nomatch h)

theorem Inv.run (db : Db) (clock : UnixMs) (acts : List SessionAct) :
    (Lib.run SessionWorld.act (.start db clock) acts).Inv :=
  run_induction (.start db clock) (fun _ a hw => (hw.act a).1) acts

end SessionWorld

end Binarius
