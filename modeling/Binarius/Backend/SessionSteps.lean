import Mathlib.Tactic
import Binarius.Lib.Runs
import Binarius.Db.Ledger
import Binarius.Backend.Driver

/-!
# Backend.SessionSteps — the steps of a session over every interleaving of its creators

Any number of calls of `trade`, in any number of processes and started at any time with any tracked
state, each cut where other transactions may come between: its two reads, the parts of the creation,
the look-up after a violation.  Beside them every other transaction: the worker's, the one-off trades of
the bot, the starts and stops of sessions, the changes of accounts.

* `StepWorld.creation_alone`: the parts of a creation, with nobody between them, are `createSessionIntent`.
* `SameSteps`: what those others keep; `sameSteps_of_other` proves it transaction by transaction.
* `StepInv`: a session's step keys are 1 to n, and its intents are its owner's; `StepWorld.Inv.act` is
  the step lemma.
* `session_steps_contiguous`: **session steps are contiguous and single.**
-/

namespace Binarius

open Lib

/-! ## What other transactions keep -/

/-- The columns of an intent no update writes. -/
structure IntentTerms where
  id : IntentId
  userId : UserId
  tradingSessionId : Option SessionId
  clientRequestId : String
  deriving DecidableEq, Repr

def TradeIntentRow.terms (r : TradeIntentRow) : IntentTerms where
  id := r.id
  userId := r.userId
  tradingSessionId := r.tradingSessionId
  clientRequestId := r.clientRequestId

def Db.terms (db : Db) : List IntentTerms := db.tradeIntents.rows.map TradeIntentRow.terms

/-- No intent is new, no term of one changes, no session changes, no account changes its owner. -/
structure SameSteps (db db' : Db) : Prop where
  terms : db'.terms = db.terms
  sessions : db'.tradingSessions = db.tradingSessions
  owners : ∀ id account, db.brokerAccounts.find? id = some account →
    ∃ account', db'.brokerAccounts.find? id = some account' ∧ account'.userId = account.userId

namespace SameSteps

variable {db db' db'' : Db}

theorem refl (db : Db) : SameSteps db db := ⟨rfl, rfl, fun _ account h => ⟨account, h, rfl⟩⟩

theorem trans (h : SameSteps db db') (h' : SameSteps db' db'') : SameSteps db db'' := by
  refine ⟨h'.terms.trans h.terms, h'.sessions.trans h.sessions, fun id account hacc => ?_⟩
  obtain ⟨account', hacc', howner⟩ := h.owners id account hacc
  obtain ⟨account'', hacc'', howner'⟩ := h'.owners id account' hacc'
  exact ⟨account'', hacc'', howner'.trans howner⟩

/-- The tables of intents, sessions and accounts are untouched. -/
theorem of_tables (hintents : db'.tradeIntents = db.tradeIntents)
    (hsessions : db'.tradingSessions = db.tradingSessions)
    (haccounts : db'.brokerAccounts = db.brokerAccounts) : SameSteps db db' := by
  refine ⟨by rw [Db.terms, hintents, Db.terms], hsessions, fun id account h => ⟨account, ?_, rfl⟩⟩
  rw [haccounts]
  exact h

/-- An intent's row written over itself with its terms. -/
theorem of_put {id : IntentId} {row : TradeIntentRow} (row' : TradeIntentRow) (hf : db.find id = some row)
    (hterms : row'.terms = row.terms) : SameSteps db (db.setIntent row') := by
  refine ⟨?_, rfl, fun _ account h => ⟨account, h, rfl⟩⟩
  show (db.tradeIntents.rows.map _).map _ = db.tradeIntents.rows.map _
  rw [List.map_map]
  refine List.map_congr_left (fun r hr => ?_)
  show (if key r = key row' then row' else r).terms = r.terms
  split
  · rename_i hkey
    have hid : key row' = key row := congrArg IntentTerms.id hterms
    have hrow : r = row := Table.eq_of_key hr (Table.mem_of_find? hf) (hkey.trans hid)
    rw [hterms, hrow]
  · rfl

theorem of_tokenMove {userId : UserId} {tokens : ℤ} {entry : TokenLedgerRow}
    (h : TokenMove db userId tokens entry db') : SameSteps db db' := by
  rcases h with ⟨_, rfl⟩ | ⟨_, user, _, _, rfl⟩
  · exact refl _
  · exact of_tables rfl rfl rfl

theorem of_commit {α : Type} {t : DbTx α} (h : ∀ a db', t.run db = .ok (a, db') → SameSteps db db') :
    SameSteps db (t.commit db) :=
  Tx.commit_induction (P := fun db' : Db => SameSteps db db') (refl db) h

theorem markIntentAccepted {now : UnixMs} {o : MarkAcceptedOptions} {res : Option TradeIntentRow}
    (h : (markIntentAccepted now o).run db = .ok (res, db')) : SameSteps db db' := by
  obtain ⟨_, rfl⟩ | ⟨row, t, hf, _, _, _, _, _, _, rfl⟩ := markIntentAccepted_ok h
  · exact refl _
  · exact (of_put (acceptedRow now o.transport row) hf rfl).trans
      (of_tables rfl rfl rfl)

theorem settleIntent {now : UnixMs} {o : SettleIntentOptions} {res : Option TradeIntentRow}
    (h : (settleIntent now o).run db = .ok (res, db')) : SameSteps db db' := by
  obtain ⟨_, rfl⟩ | ⟨row, db₁, t, hf, _, _, _, _, hmove, rfl⟩ := settleIntent_ok h
  · exact refl _
  · exact ((of_put (settledRow now row) hf rfl).trans (of_tokenMove hmove)).trans
      (of_tables rfl rfl rfl)

end SameSteps

/-- A transaction that creates no intent and is not a bare change of the other tables. -/
def Txn.Other : Txn → Prop
  | .createTradeIntent .. => False
  | .elsewhere _ => False
  | _ => True

/-- **Every other transaction keeps the steps.** -/
theorem sameSteps_of_other {t : Txn} (ht : t.Other) (db : Db) : SameSteps db (t.commit db) := by
  cases t with
  | createTradeIntent now id input session options => exact ht.elim
  | elsewhere s => exact ht.elim
  | takeIntent now o =>
    refine SameSteps.of_commit (fun _ db' h => ?_)
    obtain ⟨_, rfl⟩ | ⟨row, row', hf, _, _, _, _, rfl, rfl⟩ := takeIntent_ok h
    · exact .refl _
    · exact .of_put _ hf rfl
  | rejectIntent now o =>
    refine SameSteps.of_commit (fun _ db' h => ?_)
    obtain ⟨_, rfl⟩ | ⟨row, hf, _, _, _, _, _, hmove⟩ := rejectIntent_ok h
    · exact .refl _
    · exact (SameSteps.of_put (rejectedRow now o.reason row) hf rfl).trans
        (.of_tokenMove hmove)
  | markIntentUnknown now o =>
    refine SameSteps.of_commit (fun _ db' h => ?_)
    obtain ⟨_, rfl⟩ | ⟨row, row', hf, _, _, _, hrow, rfl⟩ := markIntentUnknown_ok h
    · exact .refl _
    · refine (SameSteps.of_put row' hf (by rw [hrow]; rfl)).trans ?_
      have hkeep : ∀ (e : OutboxEventRow) (db : Db), SameSteps db (insertEventOrIgnore e db) := by
        intro e db
        unfold insertEventOrIgnore
        split
        · exact .of_tables rfl rfl rfl
        · exact .refl _
      exact hkeep _ _
  | markIntentAccepted now o => exact SameSteps.of_commit (fun _ _ h => .markIntentAccepted h)
  | settleIntent now o => exact SameSteps.of_commit (fun _ _ h => .settleIntent h)
  | startReconciling now id v =>
    refine SameSteps.of_commit (fun _ db' h => ?_)
    obtain ⟨_, rfl⟩ | ⟨row, row', hf, _, _, _, rfl, rfl⟩ := startReconciling_ok h
    · exact .refl _
    · exact .of_put _ hf rfl
  | claimReconciling now id retryMs =>
    refine SameSteps.of_commit (fun _ db' h => ?_)
    obtain ⟨_, rfl⟩ | ⟨row, hf, _, _, _, rfl⟩ := claimReconciling_ok h
    · exact .refl _
    · exact .of_put (claimed now row) hf rfl
  | concludeReconciled now id v trade =>
    refine SameSteps.of_commit (fun _ db' h => ?_)
    obtain ⟨_, rfl⟩ | ⟨accepted, db₁, ⟨_, hacc⟩, ⟨_, _, rfl⟩ | ⟨closed, settled, _, _, hset⟩⟩ :=
      concludeReconciled_ok h
    · exact .refl _
    · exact .markIntentAccepted hacc
    · exact (SameSteps.markIntentAccepted hacc).trans (.settleIntent hset)
  | markIntentManualReview now id v reason =>
    refine SameSteps.of_commit (fun res db' h => ?_)
    cases res with
    | none =>
      rw [transitionIntent_none h]
      exact .refl _
    | some row' =>
      obtain ⟨row, hf, _, _, rfl, rfl⟩ := transitionIntent_some h
      exact .of_put _ hf rfl
  | haltAccountForManualReview now id v reason =>
    refine SameSteps.of_commit (fun _ db' h => ?_)
    obtain ⟨_, rfl⟩ | ⟨row, account, row', hf, _, _, haccount, _, hrow, rfl⟩ :=
      haltAccountForManualReview_ok h
    · exact .refl _
    · refine (SameSteps.of_put row' hf (by rw [hrow]; rfl)).trans ⟨rfl, rfl, fun id' account' h' => ?_⟩
      have hself : db.brokerAccounts.find? (key (halted reason account)) = some account := by
        show db.brokerAccounts.find? (key account) = some account
        rw [Table.key_of_find? haccount]
        exact haccount
      rcases Table.find?_put_or hself h' with ⟨rfl, hput⟩ | hput
      · exact ⟨_, hput, rfl⟩
      · exact ⟨account', hput, rfl⟩
  | adjustTokens isControl input =>
    refine SameSteps.of_commit (fun _ db' h => ?_)
    obtain rfl | ⟨user, _, _, rfl⟩ := adjustTokens_ok h
    · exact .refl _
    · exact .of_tables rfl rfl rfl
  | creditStarPayment payment =>
    refine SameSteps.of_commit (fun _ db' h => ?_)
    obtain rfl | ⟨t, rfl | ⟨user, tokens, _, _, rfl⟩⟩ := creditStarPayment_ok h
    · exact .refl _
    · exact .of_tables rfl rfl rfl
    · exact .of_tables rfl rfl rfl
  | recordStarRefund now input =>
    refine SameSteps.of_commit (fun _ db' h => ?_)
    obtain rfl | ⟨t, rfl | ⟨payment, user, taken, _, _, _, rfl⟩⟩ := recordStarRefund_ok h
    · exact .refl _
    · exact .of_tables rfl rfl rfl
    · exact .of_tables rfl rfl rfl
  | addUser id telegramUserId =>
    refine SameSteps.of_commit (fun _ db' h => ?_)
    simp only [addUser, Tx.run_bind_eq_ok, Tx.run_get_eq_ok, DbTx.run_demand_eq_ok, Tx.run_set_eq_ok] at h
    obtain ⟨_, _, ⟨rfl, rfl⟩, t, _, ⟨_, rfl⟩, rfl⟩ := h
    exact .of_tables rfl rfl rfl
  | editUser id status mode =>
    refine SameSteps.of_commit (fun _ db' h => ?_)
    simp only [editUser, Tx.run_bind_eq_ok, Tx.run_get_eq_ok, DbTx.run_demand_eq_ok, Tx.run_set_eq_ok] at h
    obtain ⟨_, _, ⟨rfl, rfl⟩, ⟨_, t⟩, _, ⟨_, rfl⟩, rfl⟩ := h
    exact .of_tables rfl rfl rfl

/-! ## Calls of `trade` and everything else -/

/-- Where a call of `trade` stands: each phase is left at a statement of its own. -/
inductive TradePhase
  | idle
  | launched (state : Tracked) (plan : Option H1TradePlan)
  | ownerRead (state : Tracked) (plan : Option H1TradePlan) (owner : SessionOwnerRead)
  | creating (input : CreateSessionIntentInput)
  | checking (input : CreateSessionIntentInput) (userId : UserId)
  | writing (input : CreateSessionIntentInput) (userId : UserId) (account : AccountId)
  | violated (input : CreateSessionIntentInput)

structure StepWorld where
  db : Db
  calls : ℕ → TradePhase

/-- The tables the steps do not read but by their account's balance and the switch. -/
structure OtherTables where
  brokerBalanceSnapshots : Table BalanceSnapshotRow
  tradingSwitch : Option Bool
  outboxEvents : Table OutboxEventRow
  brokerTrades : Table BrokerTradeRow

inductive StepAct
  /-- a driver starts a call: a signal, a notice, a pending repeat, an adopted start, after any restart -/
  | launch (c : ℕ) (state : Tracked) (plan : Option H1TradePlan)
  | readOwner (c : ℕ) (clock : SessionClockRead)
  | readIntents (c : ℕ) (reads : DriverReads)
  | begin (c : ℕ)
  | check (c : ℕ) (demoOnly : Bool)
  | commit (c : ℕ) (now : UnixMs) (id : IntentId) (decision : Except Unit ℕ)
  | lookup (c : ℕ)
  | crash (c : ℕ)
  /-- any other transaction of the intents, the users and the ledger -/
  | other (t : {t : Txn // t.Other})
  /-- an intent of no session -/
  | createTradeIntent (now : UnixMs) (id : IntentId) (input : CreateTradeIntentRequest)
      (options : CreateTradeIntentOptions)
  | createSession (session : TradingSessionRow)
  | stopSession (id : SessionId)
  | linkAccount (account : BrokerAccountRow)
  | editAccount (id : AccountId) (status : BrokerAccountStatus) (tradingHalted : Bool)
      (haltedReason : Option AccountHaltReason)
  | otherTables (tables : OtherTables)

namespace StepWorld

def start (db : Db) : StepWorld where
  db := { db with tradeIntents := .empty }
  calls := fun _ => .idle

def setCall (w : StepWorld) (c : ℕ) (phase : TradePhase) : StepWorld :=
  { w with calls := fun c' => if c' = c then phase else w.calls c' }

/-- The two statements of the read, put together. -/
def batchRead (db : Db) (id : SessionId) (owner : SessionOwnerRead) : SessionBatchRead where
  history := {
    telegramUserId := owner.telegramUserId
    expired := owner.expired
    waitExpired := owner.waitExpired
    intents := readSessionIntents db id }
  balance := owner.balance

def readOwner (w : StepWorld) (c : ℕ) (clock : SessionClockRead) : StepWorld :=
  match w.calls c with
  | .launched state plan =>
    match readSessionOwner w.db state.session.id clock with
    | some owner => w.setCall c (.ownerRead state plan owner)
    | none => w.setCall c .idle
  | _ => w

def readIntents (w : StepWorld) (c : ℕ) (reads : DriverReads) : StepWorld :=
  match w.calls c with
  | .ownerRead state plan owner =>
    match planTrade state plan reads (some (batchRead w.db state.session.id owner)) with
    | .ok (.create input) => w.setCall c (.creating input)
    | _ => w.setCall c .idle
  | _ => w

/-- The creation's first reads: a replay answers it. -/
def begin (w : StepWorld) (c : ℕ) : StepWorld :=
  match w.calls c with
  | .creating input =>
    match (findIntentReplay input.request).run w.db with
    | .ok ((user, none), _) => w.setCall c (.checking input user.id)
    | _ => w.setCall c .idle
  | _ => w

def check (w : StepWorld) (c : ℕ) (demoOnly : Bool) : StepWorld :=
  match w.calls c with
  | .checking input userId =>
    match (checkIntent input.request { demoOnly } userId).run w.db with
    | .ok (account, _) => w.setCall c (.writing input userId account)
    | .error _ => w.setCall c .idle
  | _ => w

def commit (w : StepWorld) (c : ℕ) (now : UnixMs) (id : IntentId) (decision : Except Unit ℕ) : StepWorld :=
  match w.calls c with
  | .writing input userId account =>
    match (writeIntent now id input.request (some (input.session decision)) userId account).run w.db with
    | .ok (_, db) => { w.setCall c .idle with db := db }
    | .error e => w.setCall c (if isReplayConstraint e then .violated input else .idle)
  | _ => w

def act (w : StepWorld) : StepAct → StepWorld
  | .launch c state plan =>
    match w.calls c with
    | .idle => w.setCall c (.launched state plan)
    | _ => w
  | .readOwner c clock => w.readOwner c clock
  | .readIntents c reads => w.readIntents c reads
  | .begin c => w.begin c
  | .check c demoOnly => w.check c demoOnly
  | .commit c now id decision => w.commit c now id decision
  | .lookup c =>
    match w.calls c with
    | .violated _ => w.setCall c .idle
    | _ => w
  | .crash c => w.setCall c .idle
  | .other t => { w with db := t.val.commit w.db }
  | .createTradeIntent now id input options =>
    { w with db := (createInTransaction now id input none options).commit w.db }
  | .createSession session =>
    match w.db.tradingSessions.insert? { session with status := .active } with
    | some tradingSessions => { w with db := { w.db with tradingSessions := tradingSessions } }
    | none => w
  | .stopSession id => { w with db := stopTradingSession id w.db }
  | .linkAccount account =>
    match w.db.brokerAccounts.insert? account with
    | some brokerAccounts => { w with db := { w.db with brokerAccounts := brokerAccounts } }
    | none => w
  | .editAccount id status tradingHalted haltedReason =>
    match w.db.brokerAccounts.updateAt id (fun _ => true) (fun a =>
        { a with status := status, tradingHalted := tradingHalted, haltedReason := haltedReason }) with
    | some (_, brokerAccounts) => { w with db := { w.db with brokerAccounts := brokerAccounts } }
    | none => w
  | .otherTables tables =>
    { w with db := { w.db with
        brokerBalanceSnapshots := tables.brokerBalanceSnapshots
        tradingSwitch := tables.tradingSwitch
        outboxEvents := tables.outboxEvents
        brokerTrades := tables.brokerTrades } }

/-- **The three parts of a creation, with nobody between them, are the source's transaction.** -/
theorem creation_alone (w : StepWorld) {c : ℕ} {input : CreateSessionIntentInput}
    (hphase : w.calls c = .creating input) (demoOnly : Bool) (now : UnixMs) (id : IntentId)
    (decision : Except Unit ℕ) :
    (((w.begin c).check c demoOnly).commit c now id decision).db =
      (createSessionIntent now id input decision { demoOnly }).commit w.db := by
  have hset : ∀ (v : StepWorld) phase, (v.setCall c phase).calls c = phase := fun v phase => if_pos rfl
  have hcommitIdle : ∀ v : StepWorld, ((v.setCall c .idle).commit c now id decision).db = v.db := by
    intro v
    unfold commit
    rw [hset]
    rfl
  have hcheckIdle : (w.setCall c .idle).check c demoOnly = w.setCall c .idle := by
    unfold check
    rw [hset]
  rw [createSessionIntent_eq]
  unfold begin
  rw [hphase]
  dsimp only
  cases hfind : (findIntentReplay input.request).run w.db with
  | error e =>
    rw [Tx.commit_bind_of_error hfind, hcheckIdle]
    exact hcommitIdle w
  | ok found =>
    obtain ⟨⟨user, replay⟩, db⟩ := found
    obtain rfl := findIntentReplay_ok hfind
    rw [Tx.commit_bind_of_ok hfind]
    cases replay with
    | some result =>
      rw [hcheckIdle]
      exact hcommitIdle w
    | none =>
      dsimp only
      unfold check
      rw [hset]
      dsimp only
      cases hcheck : (checkIntent input.request { demoOnly } user.id).run w.db with
      | error e =>
        rw [Tx.commit_bind_of_error hcheck,
          show (checkIntent input.request { demoOnly } user.id).run
            (w.setCall c (.checking input user.id)).db = .error e from hcheck]
        exact hcommitIdle _
      | ok checked =>
        obtain ⟨account, db⟩ := checked
        obtain rfl := checkIntent_ok hcheck
        rw [Tx.commit_bind_of_ok hcheck,
          show (checkIntent input.request { demoOnly } user.id).run
            (w.setCall c (.checking input user.id)).db = .ok (account, w.db) from hcheck]
        dsimp only
        unfold commit
        rw [hset]
        dsimp only
        cases hwrite : (writeIntent now id input.request (some (input.session decision)) user.id account).run
            w.db with
        | error e =>
          rw [Tx.commit_eq_of_error hwrite,
            show (writeIntent now id input.request (some (input.session decision)) user.id account).run
              ((w.setCall c (.checking input user.id)).setCall c (.writing input user.id account)).db =
                .error e from hwrite]
          rfl
        | ok written =>
          obtain ⟨result, db⟩ := written
          rw [Tx.commit_eq_of_ok hwrite,
            show (writeIntent now id input.request (some (input.session decision)) user.id account).run
              ((w.setCall c (.checking input user.id)).setCall c (.writing input user.id account)).db =
                .ok (result, db) from hwrite]

end StepWorld

/-! ## What a step can do to a session's intents -/

/-- The terms of a session's intents. -/
def Db.stepTerms (db : Db) (id : SessionId) : List IntentTerms :=
  db.terms.filter (fun x => x.tradingSessionId = some id)

/-- No session gets an intent, a session stays on its account and changes its status only while active, an
account stays its owner's. -/
structure Keeps (db db' : Db) : Prop where
  steps : ∀ s, db'.stepTerms s = db.stepTerms s
  sessions : ∀ s session, db.tradingSessions.find? s = some session →
    ∃ session', db'.tradingSessions.find? s = some session' ∧
      session'.brokerAccountId = session.brokerAccountId ∧
      (session.status ≠ .active → session'.status = session.status)
  owners : ∀ id account, db.brokerAccounts.find? id = some account →
    ∃ account', db'.brokerAccounts.find? id = some account' ∧ account'.userId = account.userId

/-- One intent of one active session: the step no other intent of its account is live at. -/
structure Creates (db db' : Db) (s : SessionId) (step : ℕ) : Prop where
  row : ∃ r, db'.tradeIntents.rows = r :: db.tradeIntents.rows ∧ r.tradingSessionId = some s ∧
    r.clientRequestId = sessionRequestId s step ∧
    (∃ session account, db.tradingSessions.find? s = some session ∧ session.status = .active ∧
      session.brokerAccountId = r.brokerAccountId ∧
      db.brokerAccounts.find? r.brokerAccountId = some account ∧ account.userId = r.userId) ∧
    (∀ other ∈ db.tradeIntents, other.brokerAccountId = r.brokerAccountId → other.status.terminal = true) ∧
    ∀ other ∈ db.tradeIntents, other.userId = r.userId → other.clientRequestId ≠ r.clientRequestId
  sessions : db'.tradingSessions = db.tradingSessions
  accounts : db'.brokerAccounts = db.brokerAccounts

section Keeping

variable {db db' : Db}

theorem Keeps.refl (db : Db) : Keeps db db :=
  ⟨fun _ => rfl, fun _ session h => ⟨session, h, rfl, fun _ => rfl⟩, fun _ account h => ⟨account, h, rfl⟩⟩

theorem Keeps.of_sameSteps (h : SameSteps db db') : Keeps db db' := by
  refine ⟨fun s => by rw [Db.stepTerms, h.terms, Db.stepTerms], fun s session hs => ?_, h.owners⟩
  rw [h.sessions]
  exact ⟨session, hs, rfl, fun _ => rfl⟩

/-- An intent of no session is no step. -/
theorem Keeps.createTradeIntent {now : UnixMs} {id : IntentId} {input : CreateTradeIntentRequest}
    {options : CreateTradeIntentOptions} {res : CreateTradeIntentResult}
    (h : (createInTransaction now id input none options).run db = .ok (res, db')) : Keeps db db' := by
  obtain ⟨_, _, _, rfl⟩ | ⟨user, account, t, e, _, _, _, hrow, ht, _, rfl, _⟩ := createInTransaction_ok h
  · exact .refl _
  · refine ⟨fun s => ?_, fun _ session h => ⟨session, h, rfl, fun _ => rfl⟩,
      fun _ account h => ⟨account, h, rfl⟩⟩
    have hnone : res.intent.terms.tradingSessionId = none := by
      rw [hrow]
      rfl
    have hrows := (Table.insert?_eq_some.mp ht).2
    show (t.rows.map TradeIntentRow.terms).filter _ = _
    rw [hrows, List.map_cons, List.filter_cons_of_neg (by simp [hnone])]
    rfl

theorem Keeps.createSession {session : TradingSessionRow} {t : Table TradingSessionRow}
    (h : db.tradingSessions.insert? session = some t) : Keeps db { db with tradingSessions := t } := by
  exact ⟨fun _ => rfl, fun s old hold => ⟨old, Table.find?_of_insert?_of_find? h hold, rfl, fun _ => rfl⟩,
    fun _ account h => ⟨account, h, rfl⟩⟩

theorem Keeps.stopSession (id : SessionId) (db : Db) : Keeps db (stopTradingSession id db) := by
  unfold stopTradingSession
  split
  · rename_i row t hupdate
    obtain ⟨session, hfind, hguard, rfl, rfl⟩ := Table.updateAt_eq_some.mp hupdate
    refine ⟨fun _ => rfl, fun s old hold => ?_, fun _ account h => ⟨account, h, rfl⟩⟩
    have hid : session.id = id := Table.key_of_find? hfind
    have hself : db.tradingSessions.find? (key { session with status := .stopped }) = some session := by
      show db.tradingSessions.find? session.id = some session
      rw [hid]
      exact hfind
    rcases Table.find?_put_or hself hold with ⟨rfl, hput⟩ | hput
    · exact ⟨_, hput, rfl, fun hne => absurd (of_decide_eq_true hguard) hne⟩
    · exact ⟨old, hput, rfl, fun _ => rfl⟩
  · exact .refl _

theorem Keeps.linkAccount {account : BrokerAccountRow} {t : Table BrokerAccountRow}
    (h : db.brokerAccounts.insert? account = some t) : Keeps db { db with brokerAccounts := t } := by
  exact ⟨fun _ => rfl, fun _ session h => ⟨session, h, rfl, fun _ => rfl⟩,
    fun id old hold => ⟨old, Table.find?_of_insert?_of_find? h hold, rfl⟩⟩

theorem Keeps.editAccount {account : BrokerAccountRow} (account' : BrokerAccountRow) {id : AccountId}
    (hfind : db.brokerAccounts.find? id = some account) (hid : account'.id = account.id)
    (howner : account'.userId = account.userId) :
    Keeps db { db with brokerAccounts := db.brokerAccounts.put account' } := by
  refine ⟨fun _ => rfl, fun _ session h => ⟨session, h, rfl, fun _ => rfl⟩, fun id' old hold => ?_⟩
  have hself : db.brokerAccounts.find? (key account') = some account := by
    show db.brokerAccounts.find? account'.id = some account
    rw [hid]
    exact (congrArg db.brokerAccounts.find? (Table.key_of_find? hfind)).trans hfind
  rcases Table.find?_put_or hself hold with ⟨rfl, hput⟩ | hput
  · exact ⟨_, hput, howner⟩
  · exact ⟨old, hput, rfl⟩

/-- The last part of a session's creation, on an account that is its user's. -/
theorem creates_of_writeIntent {now : UnixMs} {id : IntentId} {input : CreateSessionIntentInput}
    {decision : Except Unit ℕ} {userId : UserId} {account : AccountId} {res : CreateTradeIntentResult}
    (howner : ∃ row, db.brokerAccounts.find? account = some row ∧ row.userId = userId)
    (h : (writeIntent now id input.request (some (input.session decision)) userId account).run db =
      .ok (res, db')) : Creates db db' input.sessionId input.step := by
  obtain ⟨t, session, hinsert, ht, hsessions, haccounts, hfind, hacc, _, hactive, hterminal, hfresh⟩ :=
    writeIntent_ok h
  obtain ⟨row, hrow, huser⟩ := howner
  refine ⟨⟨queuedIntent now id input.request (some (input.session decision)) userId account, ?_, rfl, rfl,
    ⟨session, row, hfind, hactive, hacc, hrow, huser⟩, hterminal, hfresh⟩, hsessions, haccounts⟩
  rw [ht]
  exact (Table.insert?_eq_some.mp hinsert).2

theorem Creates.stepTerms {s : SessionId} {step : ℕ} (h : Creates db db' s step) :
    ∃ x : IntentTerms, x.clientRequestId = sessionRequestId s step ∧
      (∃ session account, db.tradingSessions.find? s = some session ∧
        db.brokerAccounts.find? session.brokerAccountId = some account ∧ x.userId = account.userId) ∧
      db'.stepTerms s = x :: db.stepTerms s ∧ ∀ s', s' ≠ s → db'.stepTerms s' = db.stepTerms s' := by
  obtain ⟨r, hrows, hsession, hrequest, ⟨session, account, hfind, _, hacc, haccount, huser⟩, _⟩ := h.row
  rw [← hacc] at haccount
  refine ⟨r.terms, hrequest, ⟨session, account, hfind, haccount, huser.symm⟩, ?_, fun s' hne => ?_⟩
  · show (db'.tradeIntents.rows.map TradeIntentRow.terms).filter _ = _
    have hpos : r.terms.tradingSessionId = some s := hsession
    rw [hrows, List.map_cons, List.filter_cons, if_pos (decide_eq_true hpos)]
    rfl
  · show (db'.tradeIntents.rows.map TradeIntentRow.terms).filter _ = _
    rw [hrows, List.map_cons, List.filter_cons_of_neg]
    · rfl
    · intro hs'
      have hs : r.tradingSessionId = some s' := of_decide_eq_true hs'
      exact hne (Option.some.inj (hs.symm.trans hsession))

end Keeping

/-! ## The invariant -/

/-- The ids `session:<s>:1` to `session:<s>:n`. -/
def stepIds (s : SessionId) (n : ℕ) : List String :=
  (List.range n).map (fun k => sessionRequestId s (k + 1))

theorem mem_stepIds {s : SessionId} {n step : ℕ} (hpos : 1 ≤ step) (hle : step ≤ n) :
    sessionRequestId s step ∈ stepIds s n := by
  refine List.mem_map.mpr ⟨step - 1, List.mem_range.mpr (by omega), ?_⟩
  rw [Nat.sub_add_cancel hpos]

theorem stepIds_nodup (s : SessionId) (n : ℕ) : (stepIds s n).Nodup := by
  refine List.Nodup.map (fun a b hab => ?_) List.nodup_range
  have hsucc : a + 1 = b + 1 := (sessionRequestId_injective hab).2
  omega

theorem stepIds_succ (s : SessionId) (n : ℕ) :
    stepIds s (n + 1) = stepIds s n ++ [sessionRequestId s (n + 1)] := by
  rw [stepIds, List.range_succ, List.map_append]
  rfl

/-- The intents of a session carry the step ids 1 to n, and are its account's owner's. -/
structure StepInv (db : Db) : Prop where
  numbered : ∀ s, ∃ n, ((db.stepTerms s).map IntentTerms.clientRequestId).Perm (stepIds s n)
  owned : ∀ s, ∀ x ∈ db.stepTerms s, ∃ session account, db.tradingSessions.find? s = some session ∧
    db.brokerAccounts.find? session.brokerAccountId = some account ∧ x.userId = account.userId

/-- The number of a session's steps is the number of its intents. -/
theorem StepInv.perm {db : Db} (h : StepInv db) (s : SessionId) :
    ((db.stepTerms s).map IntentTerms.clientRequestId).Perm (stepIds s (db.stepTerms s).length) := by
  obtain ⟨n, hperm⟩ := h.numbered s
  have hn : (db.stepTerms s).length = n := by
    have hlen := hperm.length_eq
    simpa [stepIds] using hlen
  rw [hn]
  exact hperm

section Invariant

variable {db db' : Db}

/-- The owner of a session's account, over a change that keeps sessions and accounts. -/
theorem Keeps.owned (h : Keeps db db') {s : SessionId} {userId : UserId}
    (howned : ∃ session account, db.tradingSessions.find? s = some session ∧
      db.brokerAccounts.find? session.brokerAccountId = some account ∧ userId = account.userId) :
    ∃ session account, db'.tradingSessions.find? s = some session ∧
      db'.brokerAccounts.find? session.brokerAccountId = some account ∧ userId = account.userId := by
  obtain ⟨session, account, hsession, haccount, huser⟩ := howned
  obtain ⟨session', hsession', hacc, -⟩ := h.sessions s session hsession
  obtain ⟨account', haccount', howner⟩ := h.owners _ account haccount
  rw [← hacc] at haccount'
  exact ⟨session', account', hsession', haccount', huser.trans howner.symm⟩

theorem StepInv.keeps (h : Keeps db db') (hinv : StepInv db) : StepInv db' := by
  refine ⟨fun s => ?_, fun s x hx => ?_⟩
  · rw [h.steps s]
    exact hinv.numbered s
  · rw [h.steps s] at hx
    exact h.owned (hinv.owned s x hx)

/-- **The step of a new intent is one past the session's intents**: an earlier one would carry the id of
an intent of the same user. -/
theorem Creates.step_eq {s : SessionId} {step : ℕ} (h : Creates db db' s step) (hinv : StepInv db)
    (hpos : 1 ≤ step) (hle : step ≤ (db.stepTerms s).length + 1) : step = (db.stepTerms s).length + 1 := by
  by_contra hne
  have hin : sessionRequestId s step ∈ (db.stepTerms s).map IntentTerms.clientRequestId :=
    (hinv.perm s).mem_iff.mpr (mem_stepIds hpos (by omega))
  obtain ⟨x, hx, hid⟩ := List.mem_map.mp hin
  obtain ⟨session', account', hsession', haccount', hxuser⟩ := hinv.owned s x hx
  obtain ⟨r, _, _, hrequest, ⟨session, account, hsession, _, hacc, haccount, huser⟩, _, hfresh⟩ := h.row
  -- the earlier intent is of the new one's user: both are the owner of the session's account
  obtain rfl : session' = session := Option.some.inj (hsession'.symm.trans hsession)
  rw [hacc] at haccount'
  obtain rfl : account' = account := Option.some.inj (haccount'.symm.trans haccount)
  have hmem : x ∈ db.terms := List.mem_of_mem_filter hx
  obtain ⟨other, hother, rfl⟩ := List.mem_map.mp hmem
  exact hfresh other hother (hxuser.trans huser) (hid.trans hrequest.symm)

theorem StepInv.creates {s : SessionId} {step : ℕ} (h : Creates db db' s step) (hinv : StepInv db)
    (hpos : 1 ≤ step) (hle : step ≤ (db.stepTerms s).length + 1) : StepInv db' := by
  obtain ⟨x, hxrequest, hxuser, hsteps, hother⟩ := h.stepTerms
  have hstep := h.step_eq hinv hpos hle
  constructor
  · intro s'
    by_cases hs : s' = s
    · subst hs
      refine ⟨step, ?_⟩
      rw [hsteps, List.map_cons, hxrequest, hstep, stepIds_succ]
      exact ((hinv.perm s').cons _).trans (List.perm_append_singleton _ _).symm
    · rw [hother s' hs]
      exact hinv.numbered s'
  · intro s' y hy
    rw [h.sessions, h.accounts]
    by_cases hs : s' = s
    · subst hs
      rw [hsteps] at hy
      rcases List.mem_cons.mp hy with rfl | hy
      · exact hxuser
      · exact hinv.owned s' y hy
    · rw [hother s' hs] at hy
      exact hinv.owned s' y hy

end Invariant

/-! ## What a call holds -/

theorem Db.stepTerms_eq (db : Db) (s : SessionId) :
    db.stepTerms s = (db.sessionIntents s).map TradeIntentRow.terms := by
  show (db.tradeIntents.rows.map TradeIntentRow.terms).filter _ = _
  rw [List.filter_map]
  rfl

theorem Db.stepTerms_length (db : Db) (s : SessionId) :
    (db.stepTerms s).length = (readSessionIntents db s).length := by
  rw [db.stepTerms_eq, readSessionIntents_length, List.length_map]

/-- The account the second part answers is its user's. -/
theorem checkIntent_owner {input : CreateSessionIntentInput} {options : CreateTradeIntentOptions}
    {userId : UserId} {account : AccountId} {db db' : Db}
    (h : (checkIntent input.request options userId).run db = .ok (account, db')) :
    ∃ row, db.brokerAccounts.find? account = some row ∧ row.userId = userId := by
  simp only [checkIntent, Tx.run_bind_eq_ok, Tx.run_get_eq_ok, DbTx.run_require_eq_ok] at h
  obtain ⟨_, _, ⟨_, rfl⟩, _, _, ⟨rfl, rfl⟩, _, _, ⟨_, rfl⟩, id, _, hresolve, _, _, _, hpure⟩ := h
  simp only [StateT.run_pure, Tx.run_pure_eq_ok] at hpure
  obtain ⟨rfl, -⟩ := hpure
  have haccount := (resolveAccount_ok hresolve).2
  simp only [resolveTradingAccount, CreateSessionIntentInput.request] at haccount
  split at haccount
  · rename_i row hrow
    obtain rfl := Except.ok.inj haccount
    have hkey := List.find?_some hrow
    simp only [Bool.and_eq_true, decide_eq_true_eq] at hkey
    exact ⟨row, Table.find?_of_mem (List.mem_of_find?_eq_some hrow), hkey.2⟩
  · cases haccount

/-- The step a call asks for is at most one past the session's intents. -/
def StepBound (db : Db) (input : CreateSessionIntentInput) : Prop :=
  1 ≤ input.step ∧ input.step ≤ (db.stepTerms input.sessionId).length + 1

def TradePhase.Ok (db : Db) : TradePhase → Prop
  | .creating input => StepBound db input
  | .checking input _ => StepBound db input
  | .writing input userId account =>
    StepBound db input ∧ ∃ row, db.brokerAccounts.find? account = some row ∧ row.userId = userId
  | _ => True

/-- A change that loses no intent of a session and keeps every account's owner keeps what calls hold. -/
theorem TradePhase.Ok.of_grows {db db' : Db} {phase : TradePhase}
    (hsteps : ∀ s, (db.stepTerms s).length ≤ (db'.stepTerms s).length)
    (howners : ∀ id account, db.brokerAccounts.find? id = some account →
      ∃ account', db'.brokerAccounts.find? id = some account' ∧ account'.userId = account.userId)
    (h : phase.Ok db) : phase.Ok db' := by
  have hbound : ∀ input, StepBound db input → StepBound db' input := by
    intro input hb
    have hgrow := hsteps input.sessionId
    exact ⟨hb.1, by have := hb.2; omega⟩
  cases phase with
  | creating input => exact hbound input h
  | checking input userId => exact hbound input h
  | writing input userId account =>
    obtain ⟨hb, row, hrow, huser⟩ := h
    obtain ⟨row', hrow', howner⟩ := howners account row hrow
    exact ⟨hbound input hb, row', hrow', howner.trans huser⟩
  | idle => trivial
  | launched state plan => trivial
  | ownerRead state plan owner => trivial
  | violated input => trivial

/-! ## Steps and runs -/

namespace StepWorld

variable {w : StepWorld}

structure Inv (w : StepWorld) : Prop where
  db : StepInv w.db
  calls : ∀ c, (w.calls c).Ok w.db

theorem Inv.start (db : Db) : (StepWorld.start db).Inv := by
  refine ⟨⟨fun s => ⟨0, List.Perm.refl _⟩, fun s x hx => ?_⟩, fun _ => trivial⟩
  exact absurd (List.mem_of_mem_filter hx) List.not_mem_nil

/-- A call moves to a phase it may hold. -/
theorem Inv.setCall (hw : w.Inv) (c : ℕ) {phase : TradePhase} (hphase : phase.Ok w.db) :
    (w.setCall c phase).Inv := by
  refine ⟨hw.db, fun c' => ?_⟩
  show (if c' = c then phase else w.calls c').Ok w.db
  split
  · exact hphase
  · exact hw.calls c'

/-- A change of the database that creates no step. -/
theorem Inv.setDb (hw : w.Inv) {db : Db} (h : Keeps w.db db) : ({ w with db := db } : StepWorld).Inv := by
  refine ⟨hw.db.keeps h, fun c => ?_⟩
  exact (hw.calls c).of_grows (fun s => by rw [h.steps s]) h.owners

/-- The commit of a creation. -/
theorem Inv.create (hw : w.Inv) (c : ℕ) {db : Db} {s : SessionId} {step : ℕ} (h : Creates w.db db s step)
    (hpos : 1 ≤ step) (hle : step ≤ (w.db.stepTerms s).length + 1) :
    ({ w.setCall c .idle with db := db } : StepWorld).Inv := by
  refine ⟨hw.db.creates h hpos hle, fun c' => ?_⟩
  have hgrow : ∀ s', (w.db.stepTerms s').length ≤ (db.stepTerms s').length := by
    intro s'
    obtain ⟨x, _, _, hsteps, hother⟩ := h.stepTerms
    by_cases hs : s' = s
    · subst hs
      rw [hsteps, List.length_cons]
      omega
    · rw [hother s' hs]
  have howners : ∀ id account, w.db.brokerAccounts.find? id = some account →
      ∃ account', db.brokerAccounts.find? id = some account' ∧ account'.userId = account.userId := by
    intro id account hacc
    rw [h.accounts]
    exact ⟨account, hacc, rfl⟩
  have hidle : (w.setCall c .idle).Inv := hw.setCall c trivial
  exact (hidle.calls c').of_grows hgrow howners

/-- A commit that writes: what its part did, by what its call holds. -/
theorem commit_creates (hw : w.Inv) {c : ℕ} {now : UnixMs} {id : IntentId} {decision : Except Unit ℕ} :
    (w.commit c now id decision).Inv ∧
      (Keeps w.db (w.commit c now id decision).db ∨
        ∃ s step, Creates w.db (w.commit c now id decision).db s step) := by
  unfold StepWorld.commit
  have hphase := hw.calls c
  split
  · rename_i input userId account hcall
    rw [hcall] at hphase
    obtain ⟨⟨hpos, hle⟩, howner⟩ := hphase
    split
    · rename_i res db hwrite
      have hcreates := creates_of_writeIntent howner hwrite
      exact ⟨hw.create c hcreates hpos hle, .inr ⟨_, _, hcreates⟩⟩
    · refine ⟨hw.setCall c ?_, .inl (.refl _)⟩
      split <;> trivial
  · exact ⟨hw, .inl (.refl _)⟩

theorem Inv.readIntents (hw : w.Inv) (c : ℕ) (reads : DriverReads) : (w.readIntents c reads).Inv := by
  unfold StepWorld.readIntents
  split
  · rename_i state plan owner hcall
    split
    · rename_i input hplan
      obtain ⟨batch, hbatch, hsession, hstep, -⟩ := planTrade_step hplan
      obtain rfl := Option.some.inj hbatch
      refine hw.setCall c ⟨by omega, ?_⟩
      rw [hsession, w.db.stepTerms_length]
      exact hstep.le
    · exact hw.setCall c trivial
  · exact hw

theorem Inv.begin (hw : w.Inv) (c : ℕ) : (w.begin c).Inv := by
  unfold StepWorld.begin
  have hphase := hw.calls c
  split
  · rename_i input hcall
    rw [hcall] at hphase
    split
    · exact hw.setCall c hphase
    · exact hw.setCall c trivial
  · exact hw

theorem Inv.check (hw : w.Inv) (c : ℕ) (demoOnly : Bool) : (w.check c demoOnly).Inv := by
  unfold StepWorld.check
  have hphase := hw.calls c
  split
  · rename_i input userId hcall
    rw [hcall] at hphase
    split
    · rename_i account db hcheck
      exact hw.setCall c ⟨hphase, checkIntent_owner hcheck⟩
    · exact hw.setCall c trivial
  · exact hw

theorem calls_db (w : StepWorld) (c : ℕ) : (∀ clock, (w.readOwner c clock).db = w.db) ∧
    (∀ reads, (w.readIntents c reads).db = w.db) ∧ (w.begin c).db = w.db ∧
    ∀ demoOnly, (w.check c demoOnly).db = w.db := by
  refine ⟨fun clock => ?_, fun reads => ?_, ?_, fun demoOnly => ?_⟩
  · unfold StepWorld.readOwner
    split
    · split <;> rfl
    · rfl
  · unfold StepWorld.readIntents
    split
    · split <;> rfl
    · rfl
  · unfold StepWorld.begin
    split
    · split <;> rfl
    · rfl
  · unfold StepWorld.check
    split
    · split <;> rfl
    · rfl

/-- **The step lemma**: an action keeps the invariant, and creates at most one intent of a session. -/
theorem Inv.act (hw : w.Inv) (a : StepAct) :
    (w.act a).Inv ∧ (Keeps w.db (w.act a).db ∨ ∃ s step, Creates w.db (w.act a).db s step) := by
  cases a with
  | launch c state plan =>
    simp only [StepWorld.act]
    split
    · exact ⟨hw.setCall c trivial, .inl (.refl _)⟩
    · exact ⟨hw, .inl (.refl _)⟩
  | readOwner c clock =>
    refine ⟨?_, .inl (by rw [StepWorld.act, (calls_db w c).1]; exact .refl _)⟩
    show (w.readOwner c clock).Inv
    unfold StepWorld.readOwner
    split
    · split
      · exact hw.setCall c trivial
      · exact hw.setCall c trivial
    · exact hw
  | readIntents c reads =>
    exact ⟨hw.readIntents c reads, .inl (by rw [StepWorld.act, (calls_db w c).2.1]; exact .refl _)⟩
  | begin c => exact ⟨hw.begin c, .inl (by rw [StepWorld.act, (calls_db w c).2.2.1]; exact .refl _)⟩
  | check c demoOnly =>
    exact ⟨hw.check c demoOnly, .inl (by rw [StepWorld.act, (calls_db w c).2.2.2]; exact .refl _)⟩
  | commit c now id decision => exact commit_creates hw
  | lookup c =>
    simp only [StepWorld.act]
    split
    · exact ⟨hw.setCall c trivial, .inl (.refl _)⟩
    · exact ⟨hw, .inl (.refl _)⟩
  | crash c => exact ⟨hw.setCall c trivial, .inl (.refl _)⟩
  | other t =>
    have h := Keeps.of_sameSteps (sameSteps_of_other t.property w.db)
    exact ⟨hw.setDb h, .inl h⟩
  | createTradeIntent now id input options =>
    have h : Keeps w.db ((createInTransaction now id input none options).commit w.db) :=
      Tx.commit_induction (P := fun db : Db => Keeps w.db db) (.refl _)
        (fun _ _ hrun => .createTradeIntent hrun)
    exact ⟨hw.setDb h, .inl h⟩
  | createSession session =>
    simp only [StepWorld.act]
    split
    · rename_i t ht
      exact ⟨hw.setDb (.createSession ht), .inl (.createSession ht)⟩
    · exact ⟨hw, .inl (.refl _)⟩
  | stopSession id => exact ⟨hw.setDb (.stopSession id w.db), .inl (.stopSession id w.db)⟩
  | linkAccount account =>
    simp only [StepWorld.act]
    split
    · rename_i t ht
      exact ⟨hw.setDb (.linkAccount ht), .inl (.linkAccount ht)⟩
    · exact ⟨hw, .inl (.refl _)⟩
  | editAccount id status tradingHalted haltedReason =>
    simp only [StepWorld.act]
    split
    · rename_i row t ht
      obtain ⟨account, hfind, _, rfl, rfl⟩ := Table.updateAt_eq_some.mp ht
      have h : Keeps w.db _ := Keeps.editAccount { account with
        status := status, tradingHalted := tradingHalted, haltedReason := haltedReason } hfind rfl rfl
      exact ⟨hw.setDb h, .inl h⟩
    · exact ⟨hw, .inl (.refl _)⟩
  | otherTables tables =>
    have h : Keeps w.db (w.act (.otherTables tables)).db :=
      .of_sameSteps (.of_tables rfl rfl rfl)
    exact ⟨hw.setDb h, .inl h⟩

theorem Inv.run (db : Db) (acts : List StepAct) : (Lib.run StepWorld.act (.start db) acts).Inv :=
  run_induction (.start db) (fun _ a hw => (hw.act a).1) acts

/-- A session that is not active. -/
def Closed (w : StepWorld) (s : SessionId) : Prop :=
  ∃ session, w.db.tradingSessions.find? s = some session ∧ session.status ≠ .active

/-- **A closed session stays closed and gets no intent.** -/
theorem Closed.act {s : SessionId} (hw : w.Inv) (h : w.Closed s) (a : StepAct) :
    (w.act a).Closed s ∧ (w.act a).db.stepTerms s = w.db.stepTerms s := by
  obtain ⟨session, hfind, hclosed⟩ := h
  rcases (hw.act a).2 with hkeeps | ⟨s', step, hcreates⟩
  · obtain ⟨session', hfind', _, hstays⟩ := hkeeps.sessions s session hfind
    exact ⟨⟨session', hfind', by rw [hstays hclosed]; exact hclosed⟩, hkeeps.steps s⟩
  · obtain ⟨_, _, _, _, hother⟩ := hcreates.stepTerms
    refine ⟨⟨session, by rw [hcreates.sessions]; exact hfind, hclosed⟩, hother s ?_⟩
    rintro rfl
    obtain ⟨r, _, _, _, ⟨active, _, hactive, hstatus, _⟩, _⟩ := hcreates.row
    rw [hfind] at hactive
    obtain rfl := Option.some.inj hactive
    exact hclosed hstatus

theorem Closed.run {s : SessionId} (hw : w.Inv) (h : w.Closed s) (acts : List StepAct) :
    (Lib.run StepWorld.act w acts).db.stepTerms s = w.db.stepTerms s := by
  induction acts generalizing w with
  | nil => rfl
  | cons a acts ih =>
    obtain ⟨hclosed, hsteps⟩ := h.act hw a
    exact (ih (hw.act a).1 hclosed).trans hsteps

/-- A new intent of a session: the session is active on its account, where no other intent is live. -/
theorem Inv.act_new (hw : w.Inv) {a : StepAct} {r : TradeIntentRow} {s : SessionId}
    (hr : r ∈ (w.act a).db.tradeIntents) (hs : r.tradingSessionId = some s) (hnew : w.db.find r.id = none) :
    (∃ session, w.db.tradingSessions.find? s = some session ∧ session.status = .active ∧
      session.brokerAccountId = r.brokerAccountId) ∧
    ∀ other ∈ w.db.tradeIntents, other.brokerAccountId = r.brokerAccountId → other.status.terminal = true := by
  have habsent : ∀ old ∈ w.db.tradeIntents, old.id ≠ r.id := Table.find?_eq_none.mp hnew
  rcases (hw.act a).2 with hkeeps | ⟨s', step, hcreates⟩
  · have hterms : r.terms ∈ w.db.stepTerms s := by
      rw [← hkeeps.steps s, Db.stepTerms_eq]
      exact List.mem_map_of_mem (List.mem_filter.mpr ⟨hr, decide_eq_true hs⟩)
    obtain ⟨old, hold, hid⟩ := List.mem_map.mp (List.mem_of_mem_filter hterms)
    exact absurd (congrArg IntentTerms.id hid) (habsent old hold)
  · obtain ⟨x, hrows, hsession, _, ⟨session, _, hfind, hactive, hacc, _⟩, hlive, _⟩ := hcreates.row
    have hmem : r ∈ x :: w.db.tradeIntents.rows := hrows ▸ hr
    rcases List.mem_cons.mp hmem with rfl | hold
    · obtain rfl : s' = s := Option.some.inj (hsession.symm.trans hs)
      exact ⟨⟨session, hfind, hactive, hacc⟩, hlive⟩
    · exact absurd rfl (habsent r hold)

theorem Inv.requestIds (hw : w.Inv) (s : SessionId) :
    ∃ n, ((w.db.sessionIntents s).map TradeIntentRow.clientRequestId).Perm (stepIds s n) := by
  obtain ⟨n, hperm⟩ := hw.db.numbered s
  rw [Db.stepTerms_eq, List.map_map] at hperm
  exact ⟨n, hperm⟩

end StepWorld

/-- **Session steps are contiguous and single.**  After any interleaving of calls of `trade` and of every
other transaction, the intents of a session carry the ids 1 to n, each once; an intent of a session is
created while the session is active and no intent of its account is live; a session that is not active
gets none, whatever comes after. -/
theorem session_steps_contiguous (db : Db) (acts : List StepAct) :
    let w := run StepWorld.act (.start db) acts
    (∀ s, ∃ n, ((w.db.sessionIntents s).map TradeIntentRow.clientRequestId).Perm
        ((List.range n).map (fun k => sessionRequestId s (k + 1))) ∧
      ((w.db.sessionIntents s).map TradeIntentRow.clientRequestId).Nodup) ∧
    (∀ a, ∀ r ∈ (w.act a).db.tradeIntents, ∀ s, r.tradingSessionId = some s → w.db.find r.id = none →
      (∃ session, w.db.tradingSessions.find? s = some session ∧ session.status = .active ∧
        session.brokerAccountId = r.brokerAccountId) ∧
      ∀ other ∈ w.db.tradeIntents, other.brokerAccountId = r.brokerAccountId →
        other.status.terminal = true) ∧
    ∀ s session, w.db.tradingSessions.find? s = some session → session.status ≠ .active → ∀ later,
      ((run StepWorld.act w later).db.sessionIntents s).map TradeIntentRow.clientRequestId =
        (w.db.sessionIntents s).map TradeIntentRow.clientRequestId := by
  intro w
  have hw : w.Inv := StepWorld.Inv.run db acts
  refine ⟨fun s => ?_, fun a r hr s hs hnew => hw.act_new hr hs hnew, fun s session hfind hclosed later => ?_⟩
  · obtain ⟨n, hperm⟩ := hw.requestIds s
    exact ⟨n, hperm, hperm.nodup_iff.mpr (stepIds_nodup s n)⟩
  · have hsteps := StepWorld.Closed.run hw ⟨session, hfind, hclosed⟩ later
    have hids := congrArg (List.map IntentTerms.clientRequestId) hsteps
    rw [Db.stepTerms_eq, Db.stepTerms_eq, List.map_map, List.map_map] at hids
    exact hids

end Binarius
