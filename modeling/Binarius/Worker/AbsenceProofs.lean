import Mathlib.Tactic
import Binarius.Lib.Runs
import Binarius.Worker.RestReconciler

/-!
# Worker.AbsenceProofs — two consecutive proofs of absence, over the calls of one reconciler

Calls overlap in any way; what they share is the map, touched when a call ends.  A call that was refused
at its input made no attempt, and an aborted one counts for nothing.

* `Reconciler.Remembers`: what an entry of the map stands for.
* `absence_needs_two_proofs`: **`not_found` takes two consecutive attempts that prove absence.**
-/

namespace Binarius

open Lib

/-- A call that has ended. -/
structure EndedCall where
  intent : TradeIntentRow
  answers : AttemptAnswers
  aborted : Bool
  result : Except ReconcileThrown ReconcileResult

/-- One reconciler, with the calls it runs and those it ended, newest first. -/
structure Reconciler where
  absentSince : AbsentSince
  running : ℕ → Option TradeIntentRow
  ended : List EndedCall

inductive CallEvent
  | start (call : ℕ) (intent : TradeIntentRow)
  /-- the call ends, after whatever its own requests answered -/
  | finish (call : ℕ) (answers : AttemptAnswers) (aborted : Bool)

def Reconciler.created : Reconciler := { absentSince := fun _ => none, running := fun _ => none, ended := [] }

def Reconciler.act (config : RestReconcilerConfig) (r : Reconciler) : CallEvent → Reconciler
  | .start call intent =>
    if (r.running call).isSome then r
    else { r with running := Function.update r.running call (some intent) }
  | .finish call answers aborted =>
    match r.running call with
    | none => r
    | some intent =>
      let (result, absentSince) := reconcile config answers intent aborted r.absentSince
      { absentSince := absentSince
        running := Function.update r.running call none
        ended := ⟨intent, answers, aborted, result⟩ :: r.ended }

namespace EndedCall

/-- The call was not refused at its input. -/
def attempted (e : EndedCall) : Bool := e.intent.submittedAt.isSome && e.intent.reconcileClaimedAt.isSome

/-- An attempt for the intent that nothing aborted. -/
def counts (id : IntentId) (e : EndedCall) : Bool := decide (e.intent.id = id) && !e.aborted && e.attempted

/-- The attempt proved absence, under this claim. -/
structure Proves (config : RestReconcilerConfig) (e : EndedCall) (claimedAt : UnixMs) : Prop where
  claimed : e.intent.reconcileClaimedAt = some claimedAt
  absent : ∃ submittedAt, e.intent.submittedAt = some submittedAt ∧
    submittedAt + config.windowAfterMs ≤ claimedAt ∧
    decideIntent config e.answers e.intent submittedAt claimedAt = .ok .absent
  demo : e.intent.mode = .demo
  live : e.aborted = false

theorem counts_iff {id : IntentId} {e : EndedCall} :
    e.counts id = true ↔ e.intent.id = id ∧ e.aborted = false ∧ e.attempted = true := by
  simp [counts, and_assoc]

end EndedCall

/-! ## How a call ends -/

section Endings

variable {config : RestReconcilerConfig} {answers : AttemptAnswers} {intent : TradeIntentRow}
  {aborted : Bool} {absentSince : AbsentSince}

/-- A call that does not count leaves the map, and answers no `not_found`. -/
theorem reconcile_of_not_counts {result : Except ReconcileThrown ReconcileResult}
    (h : (⟨intent, answers, aborted, result⟩ : EndedCall).counts intent.id = false) :
    (reconcile config answers intent aborted absentSince).2 = absentSince ∧
      (reconcile config answers intent aborted absentSince).1 ≠ .ok .notFound := by
  unfold reconcile
  split
  · exact ⟨rfl, by simp⟩
  · exact ⟨rfl, by simp⟩
  · rename_i submittedAt claimedAt hsubmitted hclaimed
    have haborted : aborted = true := by
      simpa [EndedCall.counts, EndedCall.attempted, hsubmitted, hclaimed] using h
    subst haborted
    unfold endAttempt
    split
    · exact ⟨rfl, by simp⟩
    · exact ⟨rfl, by simp⟩

/-- What a call that counts leaves of its intent's entry. -/
inductive Ending (config : RestReconcilerConfig) (e : EndedCall) (absentSince : AbsentSince) :
    AbsentSince → Prop
  /-- no proof: the entry goes -/
  | other (h : e.result ≠ .ok .notFound) :
    Ending config e absentSince (Function.update absentSince e.intent.id none)
  /-- a first proof, or one under no larger a claim than the first's -/
  | first (claimedAt : UnixMs) (hproof : e.Proves config claimedAt)
    (h : e.result = .ok (.unavailable .absenceUnconfirmed)) :
    Ending config e absentSince (Function.update absentSince e.intent.id (some claimedAt))
  /-- the second proof -/
  | second (claimedAt before : UnixMs) (hproof : e.Proves config claimedAt)
    (h : e.result = .ok .notFound) (hbefore : absentSince e.intent.id = some before)
    (hlt : before < claimedAt) :
    Ending config e absentSince (Function.update absentSince e.intent.id none)

/-- The ending of a call that counts. -/
theorem reconcile_ending
    (hcounts : (⟨intent, answers, aborted,
      (reconcile config answers intent aborted absentSince).1⟩ : EndedCall).counts intent.id = true) :
    Ending config ⟨intent, answers, aborted, (reconcile config answers intent aborted absentSince).1⟩
      absentSince (reconcile config answers intent aborted absentSince).2 := by
  obtain ⟨-, haborted, hattempted⟩ := EndedCall.counts_iff.mp hcounts
  obtain rfl : aborted = false := haborted
  obtain ⟨hsubmitted, hclaimed⟩ := Bool.and_eq_true_iff.mp hattempted
  obtain ⟨submittedAt, hsubmitted⟩ := Option.isSome_iff_exists.mp hsubmitted
  obtain ⟨claimedAt, hclaimed⟩ := Option.isSome_iff_exists.mp hclaimed
  simp only [] at hsubmitted hclaimed
  have hcall : reconcile config answers intent false absentSince =
      endAttempt absentSince intent.id claimedAt false
        (decideIntent config answers intent submittedAt claimedAt) := by
    unfold reconcile
    rw [hsubmitted, hclaimed]
  rw [hcall]
  cases hd : decideIntent config answers intent submittedAt claimedAt with
  | error e => exact .other (by simp [endAttempt])
  | ok d =>
    cases d with
    | result r =>
      refine .other ?_
      intro hnotFound
      have hr : r = .notFound := by simpa [endAttempt] using hnotFound
      subst hr
      exact decideIntent_ne_notFound hd
    | absent =>
      obtain ⟨hwindow, hdemo, -⟩ := decideIntent_absent hd
      have hproof : ∀ result, (⟨intent, answers, false, result⟩ : EndedCall).Proves config claimedAt :=
        fun _ => ⟨hclaimed, ⟨submittedAt, hsubmitted, hwindow, hd⟩, hdemo, rfl⟩
      simp only [endAttempt, confirmAbsence]
      cases hbefore : absentSince intent.id with
      | none => exact .first claimedAt (hproof _) rfl
      | some before =>
        by_cases hle : claimedAt ≤ before
        · simp only [hle, if_true]
          exact .first claimedAt (hproof _) rfl
        · simp only [hle, if_false]
          exact .second claimedAt before (hproof _) rfl hbefore (not_le.mp hle)

end Endings

/-! ## What an entry stands for -/

namespace Reconciler

variable {config : RestReconcilerConfig} {r : Reconciler}

/-- An entry stands for the intent's last attempt: it proved absence, and waits for a second. -/
def Remembers (config : RestReconcilerConfig) (absentSince : AbsentSince) (ended : List EndedCall) : Prop :=
  ∀ id before, absentSince id = some before → ∃ e, ended.find? (EndedCall.counts id) = some e ∧
    e.Proves config before ∧ e.result = .ok (.unavailable .absenceUnconfirmed)

/-- A `not_found` comes after an attempt that proved absence. -/
def Justified (config : RestReconcilerConfig) (e : EndedCall) (earlier : List EndedCall) : Prop :=
  e.result = .ok .notFound → ∃ claimedAt, e.Proves config claimedAt ∧
    ∃ e' before, earlier.find? (EndedCall.counts e.intent.id) = some e' ∧ e'.Proves config before ∧
      e'.result = .ok (.unavailable .absenceUnconfirmed) ∧ before < claimedAt

/-- Every ended call is justified by those before it. -/
def AllJustified (config : RestReconcilerConfig) : List EndedCall → Prop
  | [] => True
  | e :: earlier => Justified config e earlier ∧ AllJustified config earlier

theorem AllJustified.of_append {later earlier : List EndedCall} {e : EndedCall}
    (h : AllJustified config (later ++ e :: earlier)) : Justified config e earlier := by
  induction later with
  | nil => exact h.1
  | cons _ _ ih => exact ih h.2

theorem Remembers.skip {absentSince : AbsentSince} {ended : List EndedCall} {e : EndedCall}
    (h : Remembers config absentSince ended) (he : e.counts e.intent.id = false) :
    Remembers config absentSince (e :: ended) := by
  intro id before hid
  obtain ⟨e', hfind, hproof, hresult⟩ := h id before hid
  refine ⟨e', ?_, hproof, hresult⟩
  have hskip : e.counts id = false := by
    by_cases hintent : e.intent.id = id
    · rw [← hintent]
      exact he
    · simp [EndedCall.counts, hintent]
  rw [List.find?_cons, hskip]
  exact hfind

/-- A call that counts replaces what was remembered of its intent, and of no other. -/
theorem Remembers.replace {absentSince : AbsentSince} {ended : List EndedCall} {e : EndedCall}
    (h : Remembers config absentSince ended) (he : e.counts e.intent.id = true)
    {entry : Option UnixMs} (hentry : ∀ before, entry = some before → e.Proves config before ∧
      e.result = .ok (.unavailable .absenceUnconfirmed)) :
    Remembers config (Function.update absentSince e.intent.id entry) (e :: ended) := by
  intro id before hid
  by_cases hintent : id = e.intent.id
  · subst hintent
    rw [Function.update_self] at hid
    obtain ⟨hproof, hresult⟩ := hentry before hid
    refine ⟨e, ?_, hproof, hresult⟩
    rw [List.find?_cons, he]
  · rw [Function.update_of_ne hintent] at hid
    obtain ⟨e', hfind, hproof, hresult⟩ := h id before hid
    refine ⟨e', ?_, hproof, hresult⟩
    have hskip : e.counts id = false := by simp [EndedCall.counts, Ne.symm hintent]
    rw [List.find?_cons, hskip]
    exact hfind

/-- What holds of a reconciler between any two of its events. -/
structure Inv (config : RestReconcilerConfig) (r : Reconciler) : Prop where
  remembers : Remembers config r.absentSince r.ended
  justified : AllJustified config r.ended

theorem Inv.created : Inv config Reconciler.created where
  remembers := by
    intro id before hid
    simp [Reconciler.created] at hid
  justified := trivial

/-- **One ended call.** -/
theorem Inv.end (h : Inv config r) (answers : AttemptAnswers) (intent : TradeIntentRow)
    (aborted : Bool) (running : ℕ → Option TradeIntentRow) :
    Inv config
      { absentSince := (reconcile config answers intent aborted r.absentSince).2
        running := running
        ended := ⟨intent, answers, aborted,
          (reconcile config answers intent aborted r.absentSince).1⟩ :: r.ended } := by
  cases hcounts : (⟨intent, answers, aborted,
      (reconcile config answers intent aborted r.absentSince).1⟩ : EndedCall).counts intent.id with
  | false =>
    obtain ⟨hmap, hresult⟩ :
        (reconcile config answers intent aborted r.absentSince).2 = r.absentSince ∧
          (reconcile config answers intent aborted r.absentSince).1 ≠ .ok .notFound :=
      reconcile_of_not_counts hcounts
    refine ⟨?_, ?_, h.justified⟩
    · rw [hmap]
      exact h.remembers.skip hcounts
    · intro hnotFound
      exact absurd hnotFound hresult
  | true =>
    have hending := reconcile_ending hcounts
    generalize (reconcile config answers intent aborted r.absentSince).2 = map at hending
    generalize (reconcile config answers intent aborted r.absentSince).1 = result at *
    cases hending with
    | other hne =>
      refine ⟨h.remembers.replace hcounts (by simp), ?_, h.justified⟩
      intro hnotFound
      exact absurd hnotFound hne
    | first claimedAt hproof hresult =>
      refine ⟨h.remembers.replace hcounts ?_, ?_, h.justified⟩
      · intro before hbefore
        obtain rfl := Option.some.inj hbefore
        exact ⟨hproof, hresult⟩
      · intro hnotFound
        rw [hresult] at hnotFound
        simp at hnotFound
    | second claimedAt before hproof hresult hbefore hlt =>
      refine ⟨h.remembers.replace hcounts (by simp), ?_, h.justified⟩
      intro _
      obtain ⟨e', hfind, hproof', hresult'⟩ := h.remembers _ before hbefore
      exact ⟨claimedAt, hproof, e', before, hfind, hproof', hresult', hlt⟩

theorem Inv.act (h : Inv config r) (event : CallEvent) : Inv config (r.act config event) := by
  cases event with
  | start call intent =>
    simp only [Reconciler.act]
    split
    · exact h
    · exact ⟨h.remembers, h.justified⟩
  | finish call answers aborted =>
    simp only [Reconciler.act]
    split
    · exact h
    · exact h.end answers _ aborted _

/-- An aborted call touches nothing. -/
theorem act_aborted (call : ℕ) (answers : AttemptAnswers) :
    (r.act config (.finish call answers true)).absentSince = r.absentSince := by
  simp only [Reconciler.act]
  split
  · rfl
  · rename_i intent _
    have hcounts : (⟨intent, answers, true, .error .other⟩ : EndedCall).counts intent.id = false := by
      simp [EndedCall.counts]
    exact (reconcile_of_not_counts hcounts).1

end Reconciler

/-- What holds of the calls of a reconciler. -/
structure TwoProofs (config : RestReconcilerConfig) (r : Reconciler) : Prop where
  /-- a `not_found` is a proof of absence, and so was the last attempt before it, under a smaller claim;
  both intents were demo ones, claimed after their windows -/
  consecutive : ∀ later e earlier, r.ended = later ++ e :: earlier → e.result = .ok .notFound →
    ∃ claimedAt, e.Proves config claimedAt ∧
      ∃ e' before, earlier.find? (EndedCall.counts e.intent.id) = some e' ∧ e'.Proves config before ∧
        before < claimedAt
  /-- between two of them there is another proof -/
  fresh : ∀ later e between e₁ earlier, r.ended = later ++ e :: (between ++ e₁ :: earlier) →
    e.result = .ok .notFound → e₁.result = .ok .notFound → e.intent.id = e₁.intent.id →
    ∃ e' ∈ between, e'.intent.id = e.intent.id ∧ ∃ before, e'.Proves config before
  /-- an aborted call neither records nor erases a proof -/
  aborted : ∀ call answers, (r.act config (.finish call answers true)).absentSince = r.absentSince

theorem Reconciler.Inv.twoProofs {config : RestReconcilerConfig} {r : Reconciler}
    (h : Reconciler.Inv config r) : TwoProofs config r where
  consecutive := by
    intro later e earlier hended hnotFound
    have hall := h.justified
    rw [hended] at hall
    obtain ⟨claimedAt, hproof, e', before, hfind, hproof', -, hlt⟩ := hall.of_append hnotFound
    exact ⟨claimedAt, hproof, e', before, hfind, hproof', hlt⟩
  fresh := by
    intro later e between e₁ earlier hended hnotFound hnotFound₁ hid
    have hall := h.justified
    rw [hended] at hall
    obtain ⟨_, _, e', before, hfind, hproof', hresult', _⟩ := hall.of_append hnotFound
    have hintent := (EndedCall.counts_iff.mp (List.find?_some hfind)).1
    rw [List.find?_append] at hfind
    cases hbetween : between.find? (EndedCall.counts e.intent.id) with
    | some e'' =>
      obtain rfl : e'' = e' := by simpa [hbetween] using hfind
      exact ⟨e'', List.mem_of_find?_eq_some hbetween, hintent, before, hproof'⟩
    | none =>
      -- the earlier `not_found` is itself the last attempt, and it waits for nothing
      have hcounts₁ : e₁.counts e.intent.id = true := by
        have hall₁ : Reconciler.AllJustified config ((later ++ e :: between) ++ e₁ :: earlier) := by
          simpa using hall
        obtain ⟨claimedAt, hproof₁, -⟩ := hall₁.of_append hnotFound₁
        obtain ⟨submittedAt, hsubmitted, -, -⟩ := hproof₁.absent
        refine EndedCall.counts_iff.mpr ⟨hid.symm, hproof₁.live, ?_⟩
        simp [EndedCall.attempted, hsubmitted, hproof₁.claimed]
      rw [hbetween, Option.none_or, List.find?_cons, hcounts₁] at hfind
      obtain rfl := Option.some.inj hfind
      rw [hnotFound₁] at hresult'
      simp at hresult'
  aborted := fun call answers => Reconciler.act_aborted call answers

/-- **`not_found` takes two consecutive proofs of absence**, however the calls of one reconciler overlap
and end. -/
theorem absence_needs_two_proofs (config : RestReconcilerConfig) (events : List CallEvent) :
    TwoProofs config (run (Reconciler.act config) .created events) :=
  (run_induction Reconciler.Inv.created (fun _ event h => h.act event) events).twoProofs

/-! ### Three calls for one intent -/

/-- A demo intent, submitted at 1000. -/
def absentIntent (reconcileClaimedAt : Option UnixMs) : TradeIntentRow :=
  { id := 1, brokerAccountId := 1, userId := 1, mode := .demo, assetId := 7, amount := ['5']
    action := .up, durationSec := 60, clientRequestId := "a", tradingSessionId := none
    submitDeadlineAt := none, submitNotBeforeAt := none, signalDecisionId := none
    status := .reconciling, version := 3, tokensReserved := 10, transport := none
    submittedAt := some 1000, lastError := none, reconcileClaimedAt := reconcileClaimedAt
    createdAt := 900, updatedAt := 2000 }

/-- Both lists are empty. -/
def emptyLists : AttemptAnswers where
  token := .ok .ok
  listTrades _ _ _ := .ok []
  linkedTradeIds _ := .ok []

/-- A proof, a call without its claim, a proof. -/
def interruptedProofs : List CallEvent :=
  [.start 0 (absentIntent (some 2000)), .finish 0 emptyLists false,
   .start 1 (absentIntent none), .finish 1 emptyLists false,
   .start 2 (absentIntent (some 3000)), .finish 2 emptyLists false]

/-- The refused call ended between the two proofs without an abort, proved nothing, and erased nothing. -/
theorem not_found_after_refused_call :
    (run (Reconciler.act ⟨100, 100, 50, 2⟩) .created interruptedProofs).ended.map
        (fun e => (e.intent.id, e.aborted, e.result)) =
      [(1, false, .ok .notFound), (1, false, .error (.input "reconcileClaimedAt")),
       (1, false, .ok (.unavailable .absenceUnconfirmed))] := by
  decide

end Binarius
