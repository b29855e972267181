import Mathlib.Tactic
import Binarius.Lib.RelyGuarantee
import Binarius.Shared.TradingSwitch

/-!
# Db.TradingSwitch — the global trading switch and its log (packages/db/src: trading-switch-ops.ts)

One row at most, and the audit rows of its changes.  `changed_at` and the other columns of `audit_log` are
left out: nothing here reads them.

* `SwitchDb.Ok`: the log alternates, and its last entry is the row's state.
* `switch_sound`: every writer keeps it, in any interleaving.
* `switch_changes_are_logged_once`: **the log is the changes answered, in the order of their commits.**
* `only_an_operator_opens`: **trading opens only at the commit of an operator's opening.**
-/

namespace Binarius

open Lib

/-! ## The switch -/

structure SwitchRow where
  tradingEnabled : Bool
  source : TradingSwitchSource
  reason : Option Text
  deriving DecidableEq

/-- `trading_switch_stop_reason_check`, `trading_switch_open_source_check` and
`trading_switch_reason_length_check`. -/
def SwitchRow.Checks (row : SwitchRow) : Prop :=
  (row.tradingEnabled = true ∨ row.reason.isSome = true) ∧
    (row.tradingEnabled = true → row.source ∈ TRADING_SWITCH_OPENING_SOURCES) ∧
    ∀ reason ∈ row.reason, 1 ≤ reason.length ∧ reason.length ≤ TRADING_SWITCH_REASON_MAX

instance (row : SwitchRow) : Decidable row.Checks := inferInstanceAs (Decidable (_ ∧ _))

inductive SwitchVia
  | cli
  | circuitBreaker
  deriving DecidableEq, Repr

inductive SwitchAudit
  | tradingStopped (via : SwitchVia) (source : TradingSwitchSource) (reason : Text)
  | tradingResumed (via : SwitchVia) (reason : Option Text)
  deriving DecidableEq

structure SwitchDb where
  tradingSwitch : Option SwitchRow
  auditLog : List SwitchAudit
  deriving DecidableEq

/-- The lock of the row, or of its key while there is none. -/
inductive SwitchLock
  | row
  deriving DecidableEq, Repr

inductive SwitchError
  | check
  | vanished
  deriving DecidableEq, Repr

abbrev SwitchTx := TxProg SwitchDb SwitchLock SwitchError

structure TradingSwitchChange where
  changed : Bool
  /-- the row as this transaction left it; when changed is false, the state that stood instead -/
  state : SwitchRow
  deriving DecidableEq

/-- Migration is the seed's own source; a writer never claims it. -/
inductive TradingSwitchWriter
  | operator
  | circuitBreaker
  deriving DecidableEq, Repr

def TradingSwitchWriter.toSource : TradingSwitchWriter → TradingSwitchSource
  | .operator => .operator
  | .circuitBreaker => .circuitBreaker

/-- A missing row reads as closed. -/
def isTradingOpen (row : Option SwitchRow) : Bool := row.any (·.tradingEnabled)

namespace SwitchTx

def lockedState : SwitchTx SwitchRow := do
  match ← .selectFor .row .exclusive (fun db => db.tradingSwitch) with
  | some row => pure row
  | none => .raise .vanished

def audit (entry : SwitchAudit) : SwitchTx Unit :=
  .write (fun db => { db with auditLog := db.auditLog ++ [entry] }) (.ret ())

/-- The row is inserted, or updated from the other state; a change writes its audit row.  A row that a CHECK
refuses is refused before the conflict is looked for. -/
def writeSwitch (row : SwitchRow) (entry : SwitchAudit) : SwitchTx TradingSwitchChange :=
  if row.Checks then do
    let set := fun db : SwitchDb => { db with tradingSwitch := some row }
    let inserted ← .change .row (fun db => db.tradingSwitch.isNone) set
    let updated ← if inserted then pure true
      else .change .row (fun db => db.tradingSwitch.any (fun r =>
        r.tradingEnabled = !row.tradingEnabled)) set
    if updated then do
      audit entry
      pure ⟨true, row⟩
    else do
      let state ← lockedState
      pure ⟨false, state⟩
  else .raise .check

/-- The operator stops through the CLI; the breaker is its own channel. -/
def viaOf (source : TradingSwitchWriter) : SwitchVia :=
  match source with
  | .circuitBreaker => .circuitBreaker
  | .operator => .cli

def stopTrading (source : TradingSwitchWriter) (reason : Text) : SwitchTx TradingSwitchChange :=
  writeSwitch ⟨false, source.toSource, some reason⟩ (.tradingStopped (viaOf source) source.toSource reason)

/-- The only writer that opens, and it always writes the operator. -/
def openTrading (reason : Option Text) : SwitchTx TradingSwitchChange :=
  writeSwitch ⟨true, .operator, reason⟩ (.tradingResumed .cli reason)

end SwitchTx

inductive SwitchCall
  | stopTrading (source : TradingSwitchWriter) (reason : Text)
  | openTrading (reason : Option Text)
  deriving DecidableEq

def SwitchCall.program : SwitchCall → SwitchTx TradingSwitchChange
  | .stopTrading source reason => SwitchTx.stopTrading source reason
  | .openTrading reason => SwitchTx.openTrading reason

/-! ## The log and the row -/

/-- The state that an entry records. -/
def SwitchAudit.row : SwitchAudit → SwitchRow
  | .tradingStopped _ source reason => ⟨false, source, some reason⟩
  | .tradingResumed _ reason => ⟨true, .operator, reason⟩

/-- The entry of a change. -/
def SwitchCall.entry : SwitchCall → SwitchAudit
  | .stopTrading source reason => .tradingStopped (SwitchTx.viaOf source) source.toSource reason
  | .openTrading reason => .tradingResumed .cli reason

/-- No two changes in a row leave the same state. -/
def Alternates (log : List SwitchAudit) : Prop :=
  log.IsChain (fun e e' => e.row.tradingEnabled ≠ e'.row.tradingEnabled)

structure SwitchDb.Ok (db : SwitchDb) : Prop where
  alternates : Alternates db.auditLog
  last : ∀ entry ∈ db.auditLog.getLast?, db.tradingSwitch = some entry.row
  checks : ∀ row ∈ db.tradingSwitch, row.Checks

/-- A change of the row and its entry. -/
def SwitchDb.changeTo (entry : SwitchAudit) (db : SwitchDb) : SwitchDb :=
  ⟨some entry.row, db.auditLog ++ [entry]⟩

variable {db : SwitchDb} {entry : SwitchAudit}

theorem SwitchDb.Ok.changeTo (h : db.Ok) (hchecks : entry.row.Checks)
    (hother : ∀ row ∈ db.tradingSwitch, row.tradingEnabled ≠ entry.row.tradingEnabled) :
    (db.changeTo entry).Ok := by
  refine ⟨?_, fun e he => ?_, fun row hrow => ?_⟩
  · refine List.isChain_append.mpr ⟨h.alternates, List.isChain_singleton _, fun e he e' he' => ?_⟩
    obtain rfl := Option.some.inj he'
    exact hother e.row (h.last e he)
  · have hlast : (db.changeTo entry).auditLog.getLast? = some entry := List.getLast?_concat
    rw [hlast] at he
    rw [← Option.some.inj he]
    rfl
  · rw [← Option.some.inj hrow]
    exact hchecks

/-- What one lock protects is all there is. -/
def switchProtocol : Protocol SwitchDb SwitchLock where
  inv := SwitchDb.Ok
  rely _ _ := True
  same _ _ a b := a = b
  rely_refl _ := trivial
  rely_trans _ _ := trivial
  same_refl _ _ _ := rfl
  same_trans h h' := h.trans h'

/-- What a commit did: a change of the row with its entry, or nothing. -/
def SwitchPost (entry : SwitchAudit) (a b : SwitchDb) (answer : TradingSwitchChange) : Prop :=
  (answer = ⟨true, entry.row⟩ ∧ b = a.changeTo entry ∧
    ∀ row ∈ a.tradingSwitch, row.tradingEnabled ≠ entry.row.tradingEnabled) ∨
  (answer.changed = false ∧ b = a ∧ a.tradingSwitch = some answer.state)

theorem guarantee_of_held {held : List (SwitchLock × LockMode)} {s s' : SwitchDb} (hinv : s'.Ok)
    (hheld : (.row, .exclusive) ∈ held) : switchProtocol.Guarantee held s s' := by
  refine ⟨hinv, trivial, fun l hl => ?_, fun l hl => ?_⟩
  · cases l
    exact absurd hheld (hl .exclusive)
  · cases l
    exact absurd hheld hl

/-- **A writer of the switch** commits its change with its entry, or nothing. -/
theorem wp_writeSwitch (db : SwitchDb) (entry : SwitchAudit) :
    switchProtocol.wp (SwitchTx.writeSwitch entry.row entry)
      (switchProtocol.Commits (SwitchPost entry)) [] id db := by
  -- a change made under the row's lock is still the only one at the commit
  have hwritten : ∀ {held : List (SwitchLock × LockMode)} {db' : SwitchDb}, db'.Ok → entry.row.Checks →
      (∀ row ∈ db'.tradingSwitch, row.tradingEnabled ≠ entry.row.tradingEnabled) →
      switchProtocol.wp (do SwitchTx.audit entry; pure ⟨true, entry.row⟩ : SwitchTx TradingSwitchChange)
        (switchProtocol.Commits (SwitchPost entry)) ((.row, .exclusive) :: held)
        ((fun db => { db with tradingSwitch := some entry.row }) ∘ id) db' := by
    intro held db' hok' hchecks hother db'' henv
    obtain rfl : db' = db'' := henv.head
    have hchanged := hok'.changeTo hchecks hother
    exact ⟨guarantee_of_held hchanged List.mem_cons_self, .inl ⟨rfl, rfl, hother⟩⟩
  unfold SwitchTx.writeSwitch
  split
  · rename_i hchecks
    rw [Protocol.wp_monad_bind]
    refine Protocol.wp_change (fun db₁ henv₁ _ => ?_) (fun db₁ henv₁ hnone => ?_)
    · rw [if_neg Bool.false_ne_true, Protocol.wp_monad_bind]
      refine Protocol.wp_change (fun db₂ henv₂ _ => ?_) (fun db₂ henv₂ hopposite => ?_)
      · beta_reduce
        rw [if_neg Bool.false_ne_true, Protocol.wp_monad_bind]
        unfold SwitchTx.lockedState
        rw [Protocol.wp_monad_bind]
        refine Protocol.wp_selectFor (fun _ _ _ => trivial) (fun db₃ row henv₃ hrow => ?_)
        -- the lock pins the state reported until the commit
        intro db₄ henv₄
        obtain rfl : db₃ = db₄ := henv₄.head
        exact ⟨guarantee_of_held henv₄.inv List.mem_cons_self, .inr ⟨rfl, rfl, hrow⟩⟩
      · beta_reduce
        rw [if_pos rfl]
        refine hwritten henv₂.inv hchecks (fun row hrow => ?_)
        have hrow : db₂.tradingSwitch = some row := hrow
        simp only [id_eq, hrow, Option.any_some, decide_eq_true_eq] at hopposite
        rw [hopposite]
        simp
    · rw [if_pos rfl, Protocol.wp_monad_bind, Protocol.wp_pure]
      beta_reduce
      rw [if_pos rfl]
      refine hwritten henv₁.inv hchecks (fun row hrow => ?_)
      have hnone : db₁.tradingSwitch = none := Option.isNone_iff_eq_none.mp hnone
      rw [hnone] at hrow
      cases hrow
  · trivial

/-- **The writers are sound for the switch**, in any interleaving. -/
theorem switch_sound : switchProtocol.Sound SwitchCall.program (fun call _ => SwitchPost call.entry) := by
  rintro call db -
  cases call with
  | stopTrading source reason => exact wp_writeSwitch db (SwitchCall.stopTrading source reason).entry
  | openTrading reason => exact wp_writeSwitch db (SwitchCall.openTrading reason).entry

/-! ## Every run -/

def switchRun (db : SwitchDb) (acts : List (StoreAct SwitchCall)) :
    StoreWorld SwitchDb SwitchLock SwitchError TradingSwitchChange SwitchCall :=
  run (StoreWorld.act SwitchCall.program) ⟨db, []⟩ acts

theorem switchRun_ok (h : db.Ok) (acts : List (StoreAct SwitchCall)) :
    Protocol.WorldOk switchProtocol (fun call _ => SwitchPost call.entry) (switchRun db acts) :=
  switch_sound.run (Protocol.WorldOk.initial h) acts

/-- The entry that an answer has written. -/
def loggedBy (answer : SwitchCall × TradingSwitchChange) : Option SwitchAudit :=
  if answer.2.changed then some answer.1.entry else none

/-- **The log is the changes answered, in the order of their commits**; it alternates, its last entry is the
row, and the row passes the checks of its table. -/
theorem switch_changes_are_logged_once (h : db.Ok) (acts : List (StoreAct SwitchCall)) :
    (switchRun db acts).db.auditLog =
        db.auditLog ++ (StoreWorld.answers SwitchCall.program ⟨db, []⟩ acts).filterMap loggedBy ∧
      Alternates (switchRun db acts).db.auditLog ∧
      (∀ entry ∈ (switchRun db acts).db.auditLog.getLast?,
        (switchRun db acts).db.tradingSwitch = some entry.row) ∧
      ∀ row ∈ (switchRun db acts).db.tradingSwitch, row.Checks := by
  have hok : (switchRun db acts).db.Ok := (switchRun_ok h acts).inv
  have hstart : db.auditLog = db.auditLog ++ List.filterMap loggedBy [] := (List.append_nil _).symm
  have hlog := switch_sound.history (H := fun answers s => s.auditLog = db.auditLog ++ answers.filterMap
    loggedBy)
    (Protocol.WorldOk.initial h) hstart
    (fun hist call began a b answer _ _ _ hpost hH => ?_) acts
  · exact ⟨hlog, hok.alternates, hok.last, hok.checks⟩
  · rw [List.filterMap_append, ← List.append_assoc, ← hH]
    rcases hpost with ⟨rfl, rfl, -⟩ | ⟨hunchanged, rfl, -⟩
    · rfl
    · simp [loggedBy, hunchanged]

/-- The row that the migration seeds. -/
def seeded : SwitchDb := ⟨some ⟨true, .migration, none⟩, []⟩

theorem seeded_ok : seeded.Ok := by
  refine ⟨List.isChain_nil, fun entry h => ?_, fun row h => ?_⟩
  · cases h
  · rw [← Option.some.inj h]
    decide

/-- The breaker closes, the operator closes too, and is about to commit that it opens again. -/
def closings : List (StoreAct SwitchCall) :=
  .start (.stopTrading .circuitBreaker "a".toList) :: .start (.stopTrading .operator "b".toList) ::
    List.replicate 3 (StoreAct.step 0) ++ List.replicate 2 (StoreAct.step 1) ++ List.replicate 3 (StoreAct.step 0) ++
    List.replicate 4 (StoreAct.step 1) ++ .start (.openTrading none) :: List.replicate 5 (StoreAct.step 2)

/-- The run to the commit of the opening. -/
def reopening : List (StoreAct SwitchCall) := closings ++ [.step 2]

theorem switch_changes_are_logged_once_reopening :
    (switchRun seeded reopening).db.auditLog =
        seeded.auditLog ++ (StoreWorld.answers SwitchCall.program ⟨seeded, []⟩ reopening).filterMap loggedBy ∧
      Alternates (switchRun seeded reopening).db.auditLog ∧
      (∀ entry ∈ (switchRun seeded reopening).db.auditLog.getLast?,
        (switchRun seeded reopening).db.tradingSwitch = some entry.row) ∧
      ∀ row ∈ (switchRun seeded reopening).db.tradingSwitch, row.Checks :=
  switch_changes_are_logged_once seeded_ok reopening

/-- **Trading opens only at the commit of an operator's opening**, and closes only at that of a stop: the
breaker, whatever it does and whenever, never opens. -/
theorem only_an_operator_opens (h : db.Ok) (acts : List (StoreAct SwitchCall)) (act : StoreAct SwitchCall)
    (hne : isTradingOpen (switchRun db (acts ++ [act])).db.tradingSwitch ≠
      isTradingOpen (switchRun db acts).db.tradingSwitch) :
    ∃ i r answer, act = .step i ∧ (switchRun db acts).Commits i r answer ∧ answer.changed = true ∧
      (switchRun db (acts ++ [act])).db.tradingSwitch = some answer.state ∧
      if answer.state.tradingEnabled then
        (∃ reason, r.call = .openTrading reason) ∧ answer.state.source = .operator
      else ∃ source reason, r.call = .stopTrading source reason := by
  have hworld := switchRun_ok h acts
  have hact : switchRun db (acts ++ [act]) = (switchRun db acts).act SwitchCall.program act :=
    run_snoc _ _ acts act
  rw [hact] at hne ⊢
  cases hcommitted : (switchRun db acts).committed act with
  | none =>
    rw [StoreWorld.db_of_not_committed hcommitted] at hne
    exact absurd rfl hne
  | some p =>
    obtain ⟨call, answer⟩ := p
    obtain ⟨i, r, rfl, hc, rfl, hdb⟩ := StoreWorld.committed_eq_some hcommitted
    obtain ⟨-, hpost⟩ := hworld.commits hc
    rw [hdb] at hne ⊢
    rcases hpost with ⟨rfl, hchanged, -⟩ | ⟨-, hsame, -⟩
    · refine ⟨i, r, _, rfl, hc, rfl, by rw [hchanged]; rfl, ?_⟩
      cases hcall : r.call with
      | stopTrading source reason => exact ⟨source, reason, rfl⟩
      | openTrading reason => exact ⟨⟨reason, rfl⟩, rfl⟩
    · rw [hsame] at hne
      exact absurd rfl hne

theorem only_an_operator_opens_closings :
    ∃ i r answer, (StoreAct.step 2 : StoreAct SwitchCall) = .step i ∧
      (switchRun seeded closings).Commits i r answer ∧ answer.changed = true ∧
      (switchRun seeded (closings ++ [.step 2])).db.tradingSwitch = some answer.state ∧
      if answer.state.tradingEnabled then
        (∃ reason, r.call = .openTrading reason) ∧ answer.state.source = .operator
      else ∃ source reason, r.call = .stopTrading source reason := by
  have hopen : isTradingOpen (switchRun seeded (closings ++ [.step 2])).db.tradingSwitch = true := by rfl
  have hclosed : isTradingOpen (switchRun seeded closings).db.tradingSwitch = false := by rfl
  refine only_an_operator_opens seeded_ok closings (.step 2) ?_
  rw [hopen, hclosed]
  exact Bool.noConfusion

/-- **The breaker's reasons pass the table's check**, whatever it counted. -/
theorem checks_of_schema {raw reason : Text} (h : tradingSwitchReasonSchema raw = some reason)
    (source : TradingSwitchWriter) : SwitchRow.Checks ⟨false, source.toSource, some reason⟩ := by
  obtain ⟨hfirst, hlast, -⟩ := reason_of_schema h
  refine ⟨.inr rfl, fun hopen => absurd hopen Bool.false_ne_true, fun reason' hreason => ?_⟩
  rw [← Option.some.inj hreason]
  exact ⟨hfirst, hlast⟩

end Binarius
