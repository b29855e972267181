import Mathlib.Tactic
import Binarius.Db.ReserveCover
import Binarius.Worker.Submission

/-!
# Worker.QueuedJob — a queued job strands no intent and gives a true reason
(apps/trading-worker/src/intents/processor.ts, handleQueued)

One job of the world, from its reading of the queued row on; every other process does what it likes.

* `rejectIntent_queued`, `takeIntent_queued`: what a statement on the row as it was read finds.
* `HandlesAt`: a run in which the job is neither handed on nor lost, its statements in the clock's order.
* `JobInv`: **what the job knows in each of its phases**; `queued_job`: how it ends, and what it records.
-/

namespace Binarius

open Lib

/-! ## The row as it was read -/

section Still

variable {now : UnixMs} {db db' : Db} {intent : TradeIntentRow} {res : Option TradeIntentRow}

/-- A row that was moved is not the one read. -/
theorem not_still_of_later (hqueued : intent.status = .queued) {row : TradeIntentRow}
    (hlater : Later intent row) (hdb : db.find intent.id = some row) (hev : Evolves db db')
    (hstill : db'.find intent.id = some intent) : db.find intent.id = some intent := by
  obtain ⟨row', hrow', hlater'⟩ := hev intent.id row hdb
  obtain rfl : row' = intent := Option.some.inj (hrow'.symm.trans hstill)
  rw [hdb, hlater'.not_requeued hqueued]

/-- A rejection that answers nothing found no row that meets its conditions. -/
theorem rejectIntent_none {o : RejectIntentOptions} {row : TradeIntentRow}
    (h : (rejectIntent now o).run db = .ok (none, db')) (hrow : db.find o.id = some row)
    (hstatus : row.status = o.fromStatus) (hversion : ∀ v, o.expectedVersion = some v → row.version = v) :
    o.guard row = false := by
  unfold rejectIntent at h
  obtain ⟨_, _, hget, h⟩ := Tx.run_bind_eq_ok.mp h
  obtain ⟨rfl, rfl⟩ := Tx.run_get_eq_ok.mp hget
  have hcurrent : ¬ o.expectedVersion.any (· ≠ row.version) = true := by
    cases hv : o.expectedVersion with
    | none => simp
    | some v => simp [hversion v hv]
  simp only [hrow] at h
  rw [if_neg (not_not.mpr hstatus), if_neg hcurrent] at h
  obtain ⟨moved, db₁, ht, h⟩ := Tx.run_bind_eq_ok.mp h
  cases moved with
  | none =>
    obtain ⟨_, ⟨_, _, _, hres, _⟩ | ⟨hno, _, _⟩⟩ := transitionIntent_eq_ok.mp ht
    · cases hres
    · by_contra hguard
      have hadmits := hno row hrow
      rw [TransitionOptions.admits_eq_true.mpr ⟨hstatus, fun v hv => Option.some.inj hv, by simpa using hguard⟩]
        at hadmits
      cases hadmits
  | some row' =>
    obtain ⟨_, _, _, h⟩ := Tx.run_bind_eq_ok.mp h
    cases h

/-- A take that answers nothing found no row that meets its conditions. -/
theorem takeIntent_none {o : TakeIntentOptions} {row : TradeIntentRow}
    (h : (takeIntent now o).run db = .ok (none, db')) (hrow : db.find o.id = some row)
    (hstatus : row.status = .queued) (hversion : row.version = o.expectedVersion) :
    takeable now db o.maxAgeMs row = false := by
  unfold takeIntent at h
  obtain ⟨_, _, hget, h⟩ := Tx.run_bind_eq_ok.mp h
  obtain ⟨rfl, rfl⟩ := Tx.run_get_eq_ok.mp hget
  obtain ⟨_, ⟨_, _, _, hres, _⟩ | ⟨hno, _, _⟩⟩ := transitionIntent_eq_ok.mp h
  · cases hres
  · by_contra hguard
    have hadmits := hno row hrow
    rw [TransitionOptions.admits_eq_true.mpr ⟨hstatus, fun v hv => hversion.trans (Option.some.inj hv),
      by simpa using hguard⟩] at hadmits
    cases hadmits

/-- **A rejection of the queued row as it was read**: written, or its condition does not hold. -/
theorem rejectIntent_queued {o : RejectIntentOptions} (hid : o.id = intent.id)
    (hqueued : intent.status = .queued) (hfrom : o.fromStatus = .queued)
    (hversion : o.expectedVersion = some intent.version) {row : TradeIntentRow}
    (hrow : db.find intent.id = some row) (hlater : Later intent row)
    (h : (rejectIntent now o).run db = .ok (res, db')) :
    (db'.find intent.id ≠ some intent ∧ db.find intent.id = some intent ∧ o.guard intent = true) ∨
      (res = none ∧ db' = db ∧ (db.find intent.id = some intent → o.guard intent = false)) := by
  rcases rejectIntent_ok h with ⟨rfl, rfl⟩ | ⟨row', hf, hs, -, hv, hguard, -, hmove⟩
  · refine .inr ⟨rfl, rfl, fun hstill => ?_⟩
    rw [← hid] at hstill
    exact rejectIntent_none h hstill (hqueued.trans hfrom.symm) (fun v hv => Option.some.inj (hversion.symm.trans hv))
  · -- the row it wrote over is the one that was read
    left
    rw [hid] at hf
    obtain rfl : row' = row := Option.some.inj (hf.symm.trans hrow)
    obtain rfl := hlater.not_requeued (hs.trans hfrom)
    refine ⟨fun hstill => ?_, hf, hguard⟩
    have hfind := @Table.find?_put_of_find? _ _ _ _ db.tradeIntents (rejectedRow now o.reason row') _ hf row'.id
    rw [if_pos (show key (rejectedRow now o.reason row') = row'.id from rfl)] at hfind
    rw [Db.find, hmove.tradeIntents] at hstill
    have heq := Option.some.inj (hfind.symm.trans hstill)
    have hver := congrArg TradeIntentRow.version heq
    simp [rejectedRow] at hver

/-- **A take of the row as it was read.** -/
theorem takeIntent_queued {o : TakeIntentOptions} (hid : o.id = intent.id) (hqueued : intent.status = .queued)
    (hversion : o.expectedVersion = intent.version) {row : TradeIntentRow}
    (hrow : db.find intent.id = some row) (hlater : Later intent row)
    (h : (takeIntent now o).run db = .ok (res, db')) :
    (res.isSome = true ∧ db'.find intent.id ≠ some intent) ∨
      (res = none ∧ db' = db ∧ (db.find intent.id = some intent → takeable now db o.maxAgeMs intent = false)) := by
  rcases takeIntent_ok h with ⟨rfl, rfl⟩ | ⟨row', row'', hf, hs, hv, -, rfl, hrow'', rfl⟩
  · refine .inr ⟨rfl, rfl, fun hstill => ?_⟩
    rw [← hid] at hstill
    exact takeIntent_none h hstill hqueued hversion.symm
  · left
    rw [hid] at hf
    obtain rfl : row' = row := Option.some.inj (hf.symm.trans hrow)
    obtain rfl := hlater.not_requeued hs
    refine ⟨rfl, fun hstill => ?_⟩
    have hself : db.find row''.id = some row' := by rw [hrow'']; exact hf
    have hfind := Table.find?_put_of_find? (r := row'') (k := row'.id) hself
    rw [if_pos (show key row'' = row'.id from by rw [hrow'']; rfl)] at hfind
    have heq := Option.some.inj (hfind.symm.trans hstill)
    have hver := congrArg TradeIntentRow.version heq
    rw [hrow''] at hver
    simp at hver

end Still

/-! ## The job -/

/-- The job an action belongs to. -/
def Action.job? : Action → Option ℕ
  | .deliver j _ => some j
  | .rejectDemoOnly j _ => some j
  | .forward j => some j
  | .take j _ _ => some j
  | .rejectExpired j _ _ => some j
  | .rejectLate j _ => some j
  | .rejectPaused j _ => some j
  | .submit j => some j
  | .answer j _ => some j
  | .persist j _ => some j
  | .markStale j _ _ => some j
  | .loseJob j => some j
  | _ => none

/-- The database's clock at the job's take and its conditional rejections. -/
def Action.judgedAt (j : ℕ) : Action → Option UnixMs
  | .take i now _ => if i = j then some now else none
  | .rejectExpired i now _ => if i = j then some now else none
  | .rejectLate i now => if i = j then some now else none
  | .rejectPaused i now => if i = j then some now else none
  | _ => none

/-- The job is neither handed on nor lost, its statements run in the clock's order, and all with the one
maximum age of its process. -/
structure HandlesAt (j : ℕ) (maxAgeMs : ℤ) (as : List Action) : Prop where
  forward : .forward j ∉ as
  lost : .loseJob j ∉ as
  clock : (as.filterMap (Action.judgedAt j)).Pairwise (· ≤ ·)
  take : ∀ now age, .take j now age ∈ as → age = maxAgeMs
  expired : ∀ now age, .rejectExpired j now age ∈ as → age = maxAgeMs

namespace World

variable {w : World} {i j : ℕ}

theorem jobTx_jobs_other {α : Type} {t : DbTx α} {next : α → Job} (h : j ≠ i) :
    (w.jobTx i t next).jobs j = w.jobs j := by
  unfold jobTx
  split
  · exact Function.update_of_ne h _ _
  · exact Function.update_of_ne h _ _

theorem jobTx_jobs_self {α : Type} {t : DbTx α} {next : α → Job} {a : α} {db : Db} (h : t.run w.db = .ok (a, db)) :
    (w.jobTx j t next).jobs j = next a ∧ (w.jobTx j t next).db = db := by
  unfold jobTx
  rw [h]
  exact ⟨Function.update_self _ _ _, rfl⟩

/-- Other actions leave the job as it is. -/
theorem act_jobs_other {a : Action} (h : a.job? ≠ some j) : (w.act a).jobs j = w.jobs j := by
  have hne : ∀ {i}, some i ≠ some j → j ≠ i := fun hij heq => hij (congrArg some heq.symm)
  cases a with
  | deliver i id =>
    simp only [act]
    split
    · exact Function.update_of_ne (hne h) _ _
    · rfl
  | rejectDemoOnly i now =>
    simp only [act]
    split
    · split
      · exact jobTx_jobs_other (hne h)
      · rfl
    · rfl
  | forward i =>
    simp only [act]
    split
    · exact Function.update_of_ne (hne h) _ _
    · rfl
  | take i now maxAgeMs =>
    simp only [act]
    split
    · exact jobTx_jobs_other (hne h)
    · rfl
  | rejectExpired i now maxAgeMs =>
    simp only [act]
    split
    · exact jobTx_jobs_other (hne h)
    · rfl
  | rejectLate i now =>
    simp only [act]
    split
    · exact jobTx_jobs_other (hne h)
    · rfl
  | rejectPaused i now =>
    simp only [act]
    split
    · exact jobTx_jobs_other (hne h)
    · rfl
  | submit i =>
    simp only [act]
    split
    · exact Function.update_of_ne (hne h) _ _
    · rfl
  | answer i result =>
    simp only [act]
    split
    · exact Function.update_of_ne (hne h) _ _
    · rfl
  | persist i now =>
    simp only [act, persist]
    split
    · unfold persistAccepted
      split
      · exact Function.update_of_ne (hne h) _ _
      · exact Function.update_of_ne (hne h) _ _
      · exact Function.update_of_ne (hne h) _ _
    · exact jobTx_jobs_other (hne h)
    · exact jobTx_jobs_other (hne h)
    · exact jobTx_jobs_other (hne h)
    · rfl
  | markStale i now staleSubmittingMs =>
    simp only [act]
    split
    · exact jobTx_jobs_other (hne h)
    · rfl
  | loseJob i => exact Function.update_of_ne (hne h) _ _
  | claim a now id retryMs =>
    exact congrFun (claim_keeps_jobs a now id retryMs).1 j
  | reconciled a result =>
    simp only [act]
    split <;> rfl
  | conclude a now =>
    exact congrFun (conclude_keeps_jobs a now).1 j
  | loseAttempt a => rfl
  | claimEvent id status =>
    simp only [act]
    split <;> rfl
  | published id now =>
    simp only [act]
    split
    · split <;> rfl
    · rfl
  | notPublished id now maxAttempts =>
    simp only [act]
    split <;> rfl
  | losePublisher id => rfl
  | transact t =>
    simp only [act]
    split <;> rfl
  | surroundings s => rfl

end World

/-! ## What the job knows -/

/-- The take was refused, and why, as long as the row is the one read. -/
structure TakeRefused (w₀ : World) (j : ℕ) (maxAgeMs : ℤ) (intent : TradeIntentRow) (as : List Action)
    (front : List Action) (takenAt : UnixMs) : Prop where
  split : ∃ rest, as = front ++ .take j takenAt maxAgeMs :: rest
  still : (run World.act w₀ as).db.find intent.id = some intent →
    (run World.act w₀ front).db.find intent.id = some intent
  refused : (run World.act w₀ as).db.find intent.id = some intent →
    takeable takenAt (run World.act w₀ front).db maxAgeMs intent = false

/-- What the job knows of the row in its phase. -/
def JobKnows (w₀ : World) (j : ℕ) (maxAgeMs : ℤ) (intent : TradeIntentRow) (as : List Action) : Job → Prop
  | .queued row => row = intent
  | .refused row => row = intent ∧ ∃ front takenAt, TakeRefused w₀ j maxAgeMs intent as front takenAt
  | .notExpired row => row = intent ∧ ∃ front takenAt, TakeRefused w₀ j maxAgeMs intent as front takenAt ∧
      ((run World.act w₀ as).db.find intent.id = some intent → takenAt - maxAgeMs ≤ intent.createdAt)
  | .notLate row => row = intent ∧ ∃ front takenAt, TakeRefused w₀ j maxAgeMs intent as front takenAt ∧
      ((run World.act w₀ as).db.find intent.id = some intent → takenAt - maxAgeMs ≤ intent.createdAt ∧
        ∀ deadline, intent.submitDeadlineAt = some deadline → takenAt < deadline)
  | .waiting => False
  | .stale _ => False
  | _ => (run World.act w₀ as).db.find intent.id ≠ some intent

structure JobInv (w₀ : World) (j : ℕ) (maxAgeMs : ℤ) (intent : TradeIntentRow) (as : List Action) : Prop where
  books : (run World.act w₀ as).db.books.Inv
  later : ∃ row, (run World.act w₀ as).db.find intent.id = some row ∧ Later intent row
  knows : JobKnows w₀ j maxAgeMs intent as ((run World.act w₀ as).jobs j)

section Job

variable {w₀ : World} {j : ℕ} {maxAgeMs : ℤ} {intent : TradeIntentRow} {as : List Action} {a : Action}

theorem HandlesAt.init (h : HandlesAt j maxAgeMs (as ++ [a])) : HandlesAt j maxAgeMs as where
  forward := fun hmem => h.forward (List.mem_append_left _ hmem)
  lost := fun hmem => h.lost (List.mem_append_left _ hmem)
  clock := by
    have hclock := h.clock
    rw [List.filterMap_append] at hclock
    exact (List.pairwise_append.mp hclock).1
  take := fun now age hmem => h.take now age (List.mem_append_left _ hmem)
  expired := fun now age hmem => h.expired now age (List.mem_append_left _ hmem)

/-- The last statement is no earlier than a take before it. -/
theorem HandlesAt.takenAt_le (h : HandlesAt j maxAgeMs (as ++ [a])) {front rest : List Action} {takenAt now : UnixMs}
    {age : ℤ} (hsplit : as = front ++ .take j takenAt age :: rest) (ha : a.judgedAt j = some now) :
    takenAt ≤ now := by
  have hclock := h.clock
  rw [List.filterMap_append] at hclock
  refine (List.pairwise_append.mp hclock).2.2 takenAt ?_ now ?_
  · rw [hsplit]
    refine List.mem_filterMap.mpr ⟨_, List.mem_append_right _ List.mem_cons_self, ?_⟩
    exact if_pos rfl
  · exact List.mem_filterMap.mpr ⟨a, List.mem_singleton.mpr rfl, ha⟩

/-- The row read stays so only if it was. -/
theorem JobInv.still_of_snoc (h : JobInv w₀ j maxAgeMs intent as) (hqueued : intent.status = .queued)
    (hstill : (run World.act w₀ (as ++ [a])).db.find intent.id = some intent) :
    (run World.act w₀ as).db.find intent.id = some intent := by
  obtain ⟨row, hrow, hlater⟩ := h.later
  rw [run_snoc] at hstill
  exact not_still_of_later hqueued hlater hrow (World.evolves_act _ a) hstill

/-- A refused take, an action later. -/
theorem TakeRefused.snoc {front : List Action} {takenAt : UnixMs}
    (h : TakeRefused w₀ j maxAgeMs intent as front takenAt) (hinv : JobInv w₀ j maxAgeMs intent as)
    (hqueued : intent.status = .queued) : TakeRefused w₀ j maxAgeMs intent (as ++ [a]) front takenAt := by
  obtain ⟨rest, hsplit⟩ := h.split
  refine ⟨⟨rest ++ [a], by rw [hsplit, List.append_assoc, List.cons_append]⟩, fun hstill => ?_, fun hstill => ?_⟩
  · exact h.still (hinv.still_of_snoc hqueued hstill)
  · exact h.refused (hinv.still_of_snoc hqueued hstill)

/-- What the job knows stays true while it does not move. -/
theorem JobInv.knows_snoc (h : JobInv w₀ j maxAgeMs intent as) (hqueued : intent.status = .queued)
    (a : Action) : JobKnows w₀ j maxAgeMs intent (as ++ [a]) ((run World.act w₀ as).jobs j) := by
  have hknows := h.knows
  cases hphase : (run World.act w₀ as).jobs j with
  | waiting => rw [hphase] at hknows; exact hknows
  | stale id => rw [hphase] at hknows; exact hknows
  | queued row => rw [hphase] at hknows; exact hknows
  | refused row =>
    rw [hphase] at hknows
    obtain ⟨hrow, front, takenAt, hrefused⟩ := hknows
    exact ⟨hrow, front, takenAt, hrefused.snoc h hqueued⟩
  | notExpired row =>
    rw [hphase] at hknows
    obtain ⟨hrow, front, takenAt, hrefused, hage⟩ := hknows
    exact ⟨hrow, front, takenAt, hrefused.snoc h hqueued, fun hstill => hage (h.still_of_snoc hqueued hstill)⟩
  | notLate row =>
    rw [hphase] at hknows
    obtain ⟨hrow, front, takenAt, hrefused, hterms⟩ := hknows
    exact ⟨hrow, front, takenAt, hrefused.snoc h hqueued, fun hstill => hterms (h.still_of_snoc hqueued hstill)⟩
  | taken row => rw [hphase] at hknows; exact fun hstill => hknows (h.still_of_snoc hqueued hstill)
  | submitting row => rw [hphase] at hknows; exact fun hstill => hknows (h.still_of_snoc hqueued hstill)
  | answered row result => rw [hphase] at hknows; exact fun hstill => hknows (h.still_of_snoc hqueued hstill)
  | mismatched row => rw [hphase] at hknows; exact fun hstill => hknows (h.still_of_snoc hqueued hstill)
  | done => rw [hphase] at hknows; exact fun hstill => hknows (h.still_of_snoc hqueued hstill)

/-- A phase in which the row is no longer the one read. -/
def Job.After : Job → Prop
  | .taken _ => True
  | .submitting _ => True
  | .answered _ _ => True
  | .mismatched _ => True
  | .done => True
  | _ => False

theorem jobKnows_after {job : Job} (hafter : job.After)
    (hgone : (run World.act w₀ as).db.find intent.id ≠ some intent) : JobKnows w₀ j maxAgeMs intent as job := by
  cases job with
  | taken row => exact hgone
  | submitting row => exact hgone
  | answered row result => exact hgone
  | mismatched row => exact hgone
  | done => exact hgone
  | _ => exact absurd hafter id

theorem gone_of_jobKnows {job : Job} (hafter : job.After) (h : JobKnows w₀ j maxAgeMs intent as job) :
    (run World.act w₀ as).db.find intent.id ≠ some intent := by
  cases job with
  | taken row => exact h
  | submitting row => exact h
  | answered row result => exact h
  | mismatched row => exact h
  | done => exact h
  | _ => exact absurd hafter id

/-- The end of a submitted job leaves it submitted or done. -/
theorem World.persist_after {w : World} {now : UnixMs} {job : Job} (hphase : w.jobs j = job) (hafter : job.After) :
    ((w.act (.persist j now)).jobs j).After := by
  have htx : ∀ {α : Type} (t : DbTx α), ((w.jobTx j t (fun _ => .done)).jobs j).After := by
    intro α t
    unfold World.jobTx
    split
    · rw [show ((w.withDb _).setJob j .done).jobs j = .done from Function.update_self _ _ _]
      trivial
    · rw [show (w.setJob j .done).jobs j = .done from Function.update_self _ _ _]
      trivial
  simp only [World.act, World.persist]
  split
  · unfold World.persistAccepted
    split
    · rw [show ((w.withDb _).setJob j .done).jobs j = .done from Function.update_self _ _ _]
      trivial
    · rw [show (w.setJob j (.mismatched _)).jobs j = .mismatched _ from Function.update_self _ _ _]
      trivial
    · rw [show (w.setJob j .done).jobs j = .done from Function.update_self _ _ _]
      trivial
  · exact htx _
  · exact htx _
  · exact htx _
  · rw [hphase]
    exact hafter

/-- A conditional rejection of the job: the row is gone, or its condition does not hold. -/
theorem JobInv.reject (h : JobInv w₀ j maxAgeMs intent as) (hqueued : intent.status = .queued) {now : UnixMs}
    {reason : TradeIntentFailureReason} {guard : TradeIntentRow → Bool} {next : Option TradeIntentRow → Job}
    (hact : (run World.act w₀ as).act a = (run World.act w₀ as).jobTx j (rejectIntent now
      { id := intent.id, fromStatus := .queued, expectedVersion := some intent.version, reason := reason
        guard := guard }) next)
    (hnext : ∀ res, res.isSome = true → (next res).After)
    (hnone : ((run World.act w₀ (as ++ [a])).db.find intent.id = some intent → guard intent = false) →
      JobKnows w₀ j maxAgeMs intent (as ++ [a]) (next none)) :
    JobKnows w₀ j maxAgeMs intent (as ++ [a]) ((run World.act w₀ (as ++ [a])).jobs j) := by
  obtain ⟨row, hrow, hlater⟩ := h.later
  obtain ⟨res, db', hrun⟩ := @rejectIntent_total now (run World.act w₀ as).db h.books
    { id := intent.id, fromStatus := .queued, expectedVersion := some intent.version, reason := reason
      guard := guard } rfl rfl
  obtain ⟨hjob, hdb⟩ := @World.jobTx_jobs_self _ j _ _ next _ _ hrun
  rw [← hact, ← run_snoc World.act w₀ as a] at hjob hdb
  rw [hjob]
  have hcases := rejectIntent_queued rfl hqueued rfl rfl hrow hlater hrun
  cases res with
  | some row' =>
    refine jobKnows_after (hnext _ rfl) ?_
    rw [hdb]
    rcases hcases with ⟨hgone, -⟩ | ⟨hres, -, -⟩
    · exact hgone
    · cases hres
  | none =>
    refine hnone (fun hstill => ?_)
    rw [hdb] at hstill
    rcases hcases with ⟨hgone, -⟩ | ⟨-, rfl, hguard⟩
    · exact absurd hstill hgone
    · exact hguard hstill

/-- An action that leaves the job's phase. -/
theorem JobInv.knows_same (h : JobInv w₀ j maxAgeMs intent as) (hqueued : intent.status = .queued)
    (hsame : (run World.act w₀ (as ++ [a])).jobs j = (run World.act w₀ as).jobs j) :
    JobKnows w₀ j maxAgeMs intent (as ++ [a]) ((run World.act w₀ (as ++ [a])).jobs j) := by
  rw [hsame]
  exact h.knows_snoc hqueued a

/-- An action of the job in a phase it is not for. -/
theorem JobInv.knows_idle (h : JobInv w₀ j maxAgeMs intent as) (hqueued : intent.status = .queued)
    (hidle : (run World.act w₀ as).act a = run World.act w₀ as) :
    JobKnows w₀ j maxAgeMs intent (as ++ [a]) ((run World.act w₀ (as ++ [a])).jobs j) := by
  refine h.knows_same hqueued ?_
  rw [run_snoc, hidle]

/-- An action of a job that has taken the intent. -/
theorem JobInv.knows_after (h : JobInv w₀ j maxAgeMs intent as) (hqueued : intent.status = .queued)
    (hold : ((run World.act w₀ as).jobs j).After) (hnew : ((run World.act w₀ (as ++ [a])).jobs j).After) :
    JobKnows w₀ j maxAgeMs intent (as ++ [a]) ((run World.act w₀ (as ++ [a])).jobs j) :=
  jobKnows_after hnew (fun hstill => gone_of_jobKnows hold h.knows (h.still_of_snoc hqueued hstill))

theorem JobInv.knows_deliver (h : JobInv w₀ j maxAgeMs intent as) (hqueued : intent.status = .queued)
    (id : IntentId) :
    JobKnows w₀ j maxAgeMs intent (as ++ [.deliver j id])
      ((run World.act w₀ (as ++ [.deliver j id])).jobs j) := by
  have hknows := h.knows
  refine h.knows_idle hqueued ?_
  simp only [World.act]
  rw [if_neg]
  intro hwaiting
  rw [hwaiting] at hknows
  exact hknows

theorem JobInv.knows_rejectDemoOnly (h : JobInv w₀ j maxAgeMs intent as) (hqueued : intent.status = .queued)
    (now : UnixMs) :
    JobKnows w₀ j maxAgeMs intent (as ++ [.rejectDemoOnly j now])
      ((run World.act w₀ (as ++ [.rejectDemoOnly j now])).jobs j) := by
  have hknows := h.knows
  cases hphase : (run World.act w₀ as).jobs j with
  | queued row =>
    rw [hphase] at hknows
    obtain rfl : row = intent := hknows
    by_cases hreal : row.mode = .real
    · refine @JobInv.reject w₀ j maxAgeMs row as (.rejectDemoOnly j now) h hqueued now .demoOnly
        (fun _ => true) (fun _ => .done) ?_ (fun _ _ => trivial) (fun hguard hstill => ?_)
      · simp only [World.act, hphase, hreal, if_true]
      · cases hguard hstill
    · exact h.knows_idle hqueued (by simp only [World.act, hphase, hreal, if_false])
  | _ => exact h.knows_idle hqueued (by simp only [World.act, hphase])

theorem JobInv.knows_take (h : JobInv w₀ j maxAgeMs intent as) (hqueued : intent.status = .queued)
    (now : UnixMs) (age : ℤ) (hruns : HandlesAt j maxAgeMs (as ++ [.take j now age])) :
    JobKnows w₀ j maxAgeMs intent (as ++ [.take j now age])
      ((run World.act w₀ (as ++ [.take j now age])).jobs j) := by
  have hknows := h.knows
  obtain rfl := hruns.take now age (List.mem_append_right _ List.mem_cons_self)
  cases hphase : (run World.act w₀ as).jobs j with
  | queued row =>
    rw [hphase] at hknows
    obtain rfl : row = intent := hknows
    obtain ⟨row', hrow, hlater⟩ := h.later
    obtain ⟨res, db', hrun⟩ : ∃ res db', (takeIntent now
        { id := row.id, expectedVersion := row.version, maxAgeMs := age }).run (run World.act w₀ as).db =
          .ok (res, db') := by
      obtain ⟨res, db', hrun⟩ := @transitionIntent_total now (run World.act w₀ as).db
        { id := row.id, fromStatus := .queued, toStatus := .submitting, expectedVersion := some row.version
          patch := { submittedAt := some (some now) }
          guard := takeable now (run World.act w₀ as).db age } rfl
      exact ⟨res, db', Tx.run_bind_eq_ok.mpr ⟨_, _, Tx.run_get_eq_ok.mpr ⟨rfl, rfl⟩, hrun⟩⟩
    obtain ⟨hjob, hdb⟩ := @World.jobTx_jobs_self _ j _ _ (World.afterTake row) _ _ hrun
    have hact : (run World.act w₀ as).act (.take j now age) = (run World.act w₀ as).jobTx j (takeIntent now
        { id := row.id, expectedVersion := row.version, maxAgeMs := age }) (World.afterTake row) := by
      simp only [World.act, hphase]
    rw [← hact, ← run_snoc World.act w₀ as (.take j now age)] at hjob hdb
    rw [hjob]
    rcases takeIntent_queued rfl hqueued rfl hrow hlater hrun with ⟨hsome, hgone⟩ | ⟨rfl, rfl, hrefused⟩
    · obtain ⟨taken, rfl⟩ := Option.isSome_iff_exists.mp hsome
      refine jobKnows_after trivial ?_
      rw [hdb]
      exact hgone
    · refine ⟨rfl, as, now, ⟨⟨[], rfl⟩, ?_, ?_⟩⟩
      · rw [hdb]
        exact id
      · rw [hdb]
        exact hrefused
  | _ => exact h.knows_idle hqueued (by simp only [World.act, hphase])

theorem JobInv.knows_rejectExpired (h : JobInv w₀ j maxAgeMs intent as) (hqueued : intent.status = .queued)
    (now : UnixMs) (age : ℤ) (hruns : HandlesAt j maxAgeMs (as ++ [.rejectExpired j now age])) :
    JobKnows w₀ j maxAgeMs intent (as ++ [.rejectExpired j now age])
      ((run World.act w₀ (as ++ [.rejectExpired j now age])).jobs j) := by
  have hknows := h.knows
  obtain rfl := hruns.expired now age (List.mem_append_right _ List.mem_cons_self)
  cases hphase : (run World.act w₀ as).jobs j with
  | refused row =>
    rw [hphase] at hknows
    obtain ⟨rfl, front, takenAt, hrefused⟩ := hknows
    refine @JobInv.reject w₀ j age row as (.rejectExpired j now age) h hqueued now .expired
      (fun r => decide (r.createdAt < now - age))
      (fun res => if res.isSome then .done else .notExpired row) ?_ ?_ ?_
    · simp only [World.act, hphase]
      rfl
    · intro res hsome
      rw [if_pos hsome]
      trivial
    · intro hguard
      obtain ⟨rest, hsplit⟩ := hrefused.split
      have hle := hruns.takenAt_le hsplit (if_pos rfl)
      refine ⟨rfl, front, takenAt, hrefused.snoc h hqueued, fun hstill => ?_⟩
      have hyoung : ¬ row.createdAt < now - age := of_decide_eq_false (hguard hstill)
      exact (sub_le_sub_right hle age).trans (not_lt.mp hyoung)
  | _ => exact h.knows_idle hqueued (by simp only [World.act, hphase])

theorem JobInv.knows_rejectLate (h : JobInv w₀ j maxAgeMs intent as) (hqueued : intent.status = .queued)
    (now : UnixMs) (hruns : HandlesAt j maxAgeMs (as ++ [.rejectLate j now])) :
    JobKnows w₀ j maxAgeMs intent (as ++ [.rejectLate j now])
      ((run World.act w₀ (as ++ [.rejectLate j now])).jobs j) := by
  have hknows := h.knows
  cases hphase : (run World.act w₀ as).jobs j with
  | notExpired row =>
    rw [hphase] at hknows
    obtain ⟨rfl, front, takenAt, hrefused, hage⟩ := hknows
    refine @JobInv.reject w₀ j maxAgeMs row as (.rejectLate j now) h hqueued now .entryWindowMissed
      (fun r => r.submitDeadlineAt.any (fun d => decide (d ≤ now)))
      (fun res => if res.isSome then .done else .notLate row) ?_ ?_ ?_
    · simp only [World.act, hphase]
      rfl
    · intro res hsome
      rw [if_pos hsome]
      trivial
    · intro hguard
      obtain ⟨rest, hsplit⟩ := hrefused.split
      have hle := hruns.takenAt_le hsplit (if_pos rfl)
      refine ⟨rfl, front, takenAt, hrefused.snoc h hqueued, fun hstill =>
        ⟨hage (h.still_of_snoc hqueued hstill), fun deadline hdeadline => ?_⟩⟩
      have hopen := hguard hstill
      rw [hdeadline] at hopen
      have hlater : ¬ deadline ≤ now := of_decide_eq_false hopen
      exact lt_of_le_of_lt hle (not_le.mp hlater)
  | _ => exact h.knows_idle hqueued (by simp only [World.act, hphase])

theorem JobInv.knows_rejectPaused (h : JobInv w₀ j maxAgeMs intent as) (hqueued : intent.status = .queued)
    (now : UnixMs) :
    JobKnows w₀ j maxAgeMs intent (as ++ [.rejectPaused j now])
      ((run World.act w₀ (as ++ [.rejectPaused j now])).jobs j) := by
  have hknows := h.knows
  cases hphase : (run World.act w₀ as).jobs j with
  | notLate row =>
    rw [hphase] at hknows
    obtain ⟨rfl, -⟩ := hknows
    refine @JobInv.reject w₀ j maxAgeMs row as (.rejectPaused j now) h hqueued now .tradingPaused
      (fun _ => true) (fun _ => .done) ?_ (fun _ _ => trivial) (fun hguard hstill => ?_)
    · simp only [World.act, hphase]
      rfl
    · cases hguard hstill
  | _ => exact h.knows_idle hqueued (by simp only [World.act, hphase])

theorem JobInv.knows_submit (h : JobInv w₀ j maxAgeMs intent as) (hqueued : intent.status = .queued) :
    JobKnows w₀ j maxAgeMs intent (as ++ [.submit j])
      ((run World.act w₀ (as ++ [.submit j])).jobs j) := by
  cases hphase : (run World.act w₀ as).jobs j with
  | taken row =>
    refine h.knows_after hqueued (by rw [hphase]; trivial) ?_
    rw [run_snoc]
    simp only [World.act, hphase]
    rw [show (World.setJob _ j (.submitting row)).jobs j = .submitting row from Function.update_self _ _ _]
    trivial
  | _ => exact h.knows_idle hqueued (by simp only [World.act, hphase])

theorem JobInv.knows_answer (h : JobInv w₀ j maxAgeMs intent as) (hqueued : intent.status = .queued)
    (result : SubmitResult) :
    JobKnows w₀ j maxAgeMs intent (as ++ [.answer j result])
      ((run World.act w₀ (as ++ [.answer j result])).jobs j) := by
  cases hphase : (run World.act w₀ as).jobs j with
  | submitting row =>
    refine h.knows_after hqueued (by rw [hphase]; trivial) ?_
    rw [run_snoc]
    simp only [World.act, hphase]
    rw [show (World.setJob _ j (.answered row result)).jobs j = .answered row result from
      Function.update_self _ _ _]
    trivial
  | _ => exact h.knows_idle hqueued (by simp only [World.act, hphase])

theorem JobInv.knows_persist (h : JobInv w₀ j maxAgeMs intent as) (hqueued : intent.status = .queued)
    (now : UnixMs) :
    JobKnows w₀ j maxAgeMs intent (as ++ [.persist j now])
      ((run World.act w₀ (as ++ [.persist j now])).jobs j) := by
  cases hphase : (run World.act w₀ as).jobs j with
  | answered row result =>
    refine h.knows_after hqueued (by rw [hphase]; trivial) ?_
    rw [run_snoc]
    exact World.persist_after hphase trivial
  | mismatched row =>
    refine h.knows_after hqueued (by rw [hphase]; trivial) ?_
    rw [run_snoc]
    exact World.persist_after hphase trivial
  | _ => exact h.knows_idle hqueued (by simp only [World.act, World.persist, hphase])

theorem JobInv.knows_markStale (h : JobInv w₀ j maxAgeMs intent as) (hqueued : intent.status = .queued)
    (now : UnixMs) (staleSubmittingMs : ℤ) :
    JobKnows w₀ j maxAgeMs intent (as ++ [.markStale j now staleSubmittingMs])
      ((run World.act w₀ (as ++ [.markStale j now staleSubmittingMs])).jobs j) := by
  have hknows := h.knows
  cases hphase : (run World.act w₀ as).jobs j with
  | stale id =>
    rw [hphase] at hknows
    exact False.elim hknows
  | _ => exact h.knows_idle hqueued (by simp only [World.act, hphase])

/-- **Every action** keeps what the job knows. -/
theorem JobInv.snoc (h : JobInv w₀ j maxAgeMs intent as) (hqueued : intent.status = .queued)
    (hruns : HandlesAt j maxAgeMs (as ++ [a])) : JobInv w₀ j maxAgeMs intent (as ++ [a]) := by
  have hbooks : (run World.act w₀ (as ++ [a])).db.books.Inv := by
    rw [run_snoc, World.act_db]
    exact inv_commitAll _ h.books
  have hlater : ∃ row, (run World.act w₀ (as ++ [a])).db.find intent.id = some row ∧ Later intent row := by
    obtain ⟨row, hrow, hlater⟩ := h.later
    obtain ⟨row', hrow', hlater'⟩ := World.evolves_act (run World.act w₀ as) a intent.id row hrow
    rw [run_snoc]
    exact ⟨row', hrow', hlater.trans hlater'⟩
  refine ⟨hbooks, hlater, ?_⟩
  by_cases hown : a.job? = some j
  · have hmem : a ∈ as ++ [a] := List.mem_append_right _ List.mem_cons_self
    cases a with
    | deliver i id =>
      obtain rfl := Option.some.inj hown
      exact h.knows_deliver hqueued id
    | rejectDemoOnly i now =>
      obtain rfl := Option.some.inj hown
      exact h.knows_rejectDemoOnly hqueued now
    | forward i =>
      obtain rfl := Option.some.inj hown
      exact absurd hmem hruns.forward
    | loseJob i =>
      obtain rfl := Option.some.inj hown
      exact absurd hmem hruns.lost
    | take i now age =>
      obtain rfl := Option.some.inj hown
      exact h.knows_take hqueued now age hruns
    | rejectExpired i now age =>
      obtain rfl := Option.some.inj hown
      exact h.knows_rejectExpired hqueued now age hruns
    | rejectLate i now =>
      obtain rfl := Option.some.inj hown
      exact h.knows_rejectLate hqueued now hruns
    | rejectPaused i now =>
      obtain rfl := Option.some.inj hown
      exact h.knows_rejectPaused hqueued now
    | submit i =>
      obtain rfl := Option.some.inj hown
      exact h.knows_submit hqueued
    | answer i result =>
      obtain rfl := Option.some.inj hown
      exact h.knows_answer hqueued result
    | persist i now =>
      obtain rfl := Option.some.inj hown
      exact h.knows_persist hqueued now
    | markStale i now staleSubmittingMs =>
      obtain rfl := Option.some.inj hown
      exact h.knows_markStale hqueued now staleSubmittingMs
    | _ => cases hown
  · refine h.knows_same hqueued ?_
    rw [run_snoc]
    exact World.act_jobs_other hown

/-- **What the job knows**, in every run. -/
theorem jobInv_run (hbooks : w₀.db.books.Inv) (hjob : w₀.jobs j = .queued intent)
    (hread : w₀.db.find intent.id = some intent) (hqueued : intent.status = .queued) (as : List Action)
    (hruns : HandlesAt j maxAgeMs as) : JobInv w₀ j maxAgeMs intent as := by
  induction as using List.reverseRecOn with
  | nil =>
    refine ⟨hbooks, ⟨intent, hread, Later.refl intent⟩, ?_⟩
    show JobKnows w₀ j maxAgeMs intent [] (w₀.jobs j)
    rw [hjob]
    rfl
  | append_singleton as a ih => exact (ih hruns.init).snoc hqueued hruns

/-- What a conditional rejection of the job changes, it changes under its condition. -/
theorem JobInv.rejected (h : JobInv w₀ j maxAgeMs intent as) (hqueued : intent.status = .queued) {now : UnixMs}
    {reason : TradeIntentFailureReason} {guard : TradeIntentRow → Bool} {next : Option TradeIntentRow → Job}
    (hact : (run World.act w₀ as).act a = (run World.act w₀ as).jobTx j (rejectIntent now
      { id := intent.id, fromStatus := .queued, expectedVersion := some intent.version, reason := reason
        guard := guard }) next)
    (hchanged : ((run World.act w₀ as).act a).db.find intent.id ≠ (run World.act w₀ as).db.find intent.id) :
    (run World.act w₀ as).db.find intent.id = some intent ∧ guard intent = true := by
  obtain ⟨row, hrow, hlater⟩ := h.later
  rw [hact, World.jobTx_db] at hchanged
  cases hrun : (rejectIntent now
      { id := intent.id, fromStatus := .queued, expectedVersion := some intent.version, reason := reason
        guard := guard }).run (run World.act w₀ as).db with
  | error e =>
    rw [Tx.commit_eq_of_error hrun] at hchanged
    exact absurd rfl hchanged
  | ok p =>
    obtain ⟨res, db'⟩ := p
    rw [Tx.commit_eq_of_ok hrun] at hchanged
    rcases rejectIntent_queued rfl hqueued rfl rfl hrow hlater hrun with ⟨-, hstill, hguard⟩ | ⟨-, rfl, -⟩
    · exact ⟨hstill, hguard⟩
    · exact absurd rfl hchanged

end Job

/-- **A queued job**: in every run from its reading of the row on, with any other writers and switch changes,
in which it is neither handed on nor lost.  When it is done the intent is not queued at the version it read;
`expired` and `entry_window_missed` are recorded past the age and the deadline, and `trading_paused` when at
the take neither had passed and the switch was closed. -/
theorem queued_job (w : World) (j : ℕ) (maxAgeMs : ℤ) (intent : TradeIntentRow) (hbooks : w.db.books.Inv)
    (hjob : w.jobs j = .queued intent) (hread : w.db.find intent.id = some intent)
    (hqueued : intent.status = .queued) (as : List Action) (hruns : HandlesAt j maxAgeMs as) :
    let w' := run World.act w as
    (w'.jobs j = .done → ∀ row, w'.db.find intent.id = some row →
      ¬ (row.status = .queued ∧ row.version = intent.version)) ∧
    (∀ now, (w'.act (.rejectExpired j now maxAgeMs)).db.find intent.id ≠ w'.db.find intent.id →
      intent.createdAt < now - maxAgeMs) ∧
    (∀ now, (w'.act (.rejectLate j now)).db.find intent.id ≠ w'.db.find intent.id →
      ∃ deadline, intent.submitDeadlineAt = some deadline ∧ deadline ≤ now) ∧
    (∀ now, (w'.act (.rejectPaused j now)).db.find intent.id ≠ w'.db.find intent.id →
      ∃ front takenAt rest, as = front ++ .take j takenAt maxAgeMs :: rest ∧
        (run World.act w front).db.find intent.id = some intent ∧ takenAt - maxAgeMs ≤ intent.createdAt ∧
        (∀ deadline, intent.submitDeadlineAt = some deadline → takenAt < deadline) ∧
        tradingOpen (run World.act w front).db = false) := by
  intro w'
  have hinv : JobInv w j maxAgeMs intent as := jobInv_run hbooks hjob hread hqueued as hruns
  have hknows := hinv.knows
  refine ⟨fun hdone row hrow hstill => ?_, fun now hchanged => ?_, fun now hchanged => ?_, fun now hchanged => ?_⟩
  · obtain ⟨row', hrow', hlater⟩ := hinv.later
    obtain rfl : row' = row := Option.some.inj (hrow'.symm.trans hrow)
    obtain rfl := hlater.not_requeued hstill.1
    exact gone_of_jobKnows (by rw [hdone]; trivial) hknows hrow
  · cases hphase : w'.jobs j with
    | refused row =>
      rw [show (run World.act w as).jobs j = _ from hphase] at hknows
      obtain ⟨rfl, -⟩ := hknows
      obtain ⟨-, hguard⟩ := @JobInv.rejected w j maxAgeMs row as (.rejectExpired j now maxAgeMs) hinv hqueued now
        .expired (fun r => decide (r.createdAt < now - maxAgeMs))
        (fun res => if res.isSome then .done else .notExpired row)
        (by simp only [World.act, show (run World.act w as).jobs j = _ from hphase]; rfl) hchanged
      exact of_decide_eq_true hguard
    | _ => exact absurd (by simp only [World.act, hphase]) hchanged
  · cases hphase : w'.jobs j with
    | notExpired row =>
      rw [show (run World.act w as).jobs j = _ from hphase] at hknows
      obtain ⟨rfl, -⟩ := hknows
      obtain ⟨-, hguard⟩ := @JobInv.rejected w j maxAgeMs row as (.rejectLate j now) hinv hqueued now
        .entryWindowMissed (fun r => r.submitDeadlineAt.any (fun d => decide (d ≤ now)))
        (fun res => if res.isSome then .done else .notLate row)
        (by simp only [World.act, show (run World.act w as).jobs j = _ from hphase]; rfl) hchanged
      cases hdeadline : row.submitDeadlineAt with
      | none =>
        rw [hdeadline] at hguard
        cases hguard
      | some deadline =>
        rw [hdeadline] at hguard
        exact ⟨deadline, rfl, of_decide_eq_true hguard⟩
    | _ => exact absurd (by simp only [World.act, hphase]) hchanged
  · cases hphase : w'.jobs j with
    | notLate row =>
      rw [show (run World.act w as).jobs j = _ from hphase] at hknows
      obtain ⟨rfl, front, takenAt, hrefused, hterms⟩ := hknows
      obtain ⟨hstill, -⟩ := @JobInv.rejected w j maxAgeMs row as (.rejectPaused j now) hinv hqueued now
        .tradingPaused (fun _ => true) (fun _ => .done)
        (by simp only [World.act, show (run World.act w as).jobs j = _ from hphase]; rfl) hchanged
      obtain ⟨rest, hsplit⟩ := hrefused.split
      obtain ⟨hage, hdeadline⟩ := hterms hstill
      refine ⟨front, takenAt, rest, hsplit, hrefused.still hstill, hage, hdeadline, ?_⟩
      -- the take refused for the switch alone
      have htake := hrefused.refused hstill
      have hyoung : decide (takenAt - maxAgeMs ≤ row.createdAt) = true := decide_eq_true hage
      have hopen : row.submitDeadlineAt.all (fun d => decide (takenAt < d)) = true := by
        cases hd : row.submitDeadlineAt with
        | none => rfl
        | some deadline => exact decide_eq_true (hdeadline deadline hd)
      rw [takeable, hyoung, hopen] at htake
      exact htake
    | _ => exact absurd (by simp only [World.act, hphase]) hchanged

/-- A purchase and a trade's request. -/
def requestedTrade : List Action :=
  [.transact (.creditStarPayment
    { telegramPaymentChargeId := "c", providerPaymentChargeId := none, packageCode := "p50", userId := 1
      currency := "XTR", totalAmount := 100, payerTelegramUserId := 42, paidAt := 0 }),
   .transact (.createTradeIntent 10 5
    { telegramUserId := 42, brokerAccountId := none, mode := .demo, assetId := 3, amount := ['1']
      action := .up, durationSec := 5, clientRequestId := "r" } none {}),
   .deliver 0 5]

def requestedWorld : World := run World.act (World.start oneUserDb) requestedTrade

/-- The switch closes before the take and opens again before the last rejection. -/
def pausedAtTake : List Action :=
  [.surroundings { requestedWorld.db.surroundings with tradingSwitch := some false }, .take 0 20 1000,
   .surroundings { requestedWorld.db.surroundings with tradingSwitch := some true }, .rejectExpired 0 30 1000,
   .rejectLate 0 30, .rejectPaused 0 40]

/-- The intent as its job read it. -/
def requestedIntent : TradeIntentRow := (requestedWorld.db.find 5).get (by decide)

theorem queued_job_pausedAtTake :
    (run World.act requestedWorld pausedAtTake).jobs 0 = .done ∧
      (∀ row, (run World.act requestedWorld pausedAtTake).db.find 5 = some row →
        ¬ (row.status = .queued ∧ row.version = 3)) ∧
      ((run World.act requestedWorld pausedAtTake).db.find 5).bind TradeIntentRow.lastError = some .tradingPaused := by
  have hdone : (run World.act requestedWorld pausedAtTake).jobs 0 = .done := by decide
  have hbooks : requestedWorld.db.books.Inv := by
    have hdb : requestedWorld.db = commitAll oneUserDb
        (requestedTrade.filterMap (fun a => match a with | .transact t => some t | _ => none)) := rfl
    rw [hdb]
    exact ledger_invariant ⟨by decide, rfl, rfl⟩ _
  have hruns : HandlesAt 0 1000 pausedAtTake := by
    refine ⟨by simp [pausedAtTake], by simp [pausedAtTake], by decide, ?_, ?_⟩
    · intro now age hmem
      simp [pausedAtTake] at hmem
      exact hmem.2
    · intro now age hmem
      simp [pausedAtTake] at hmem
      exact hmem.2
  have hread : requestedWorld.db.find 5 = some requestedIntent := (Option.some_get _).symm
  exact ⟨hdone, (queued_job requestedWorld 0 1000 requestedIntent hbooks (by decide) hread (by decide)
    pausedAtTake hruns).1 hdone, by decide⟩

end Binarius
