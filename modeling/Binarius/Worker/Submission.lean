import Mathlib.Tactic
import Binarius.Worker.World

/-!
# Worker.Submission — at most one broker submit per intent, over any interleaving

* `SubmitInv`: an intent that was taken has left `queued`; at most one job holds it taken, and none once
  `submit` was called for it.
* `SubmitInv.act`: every action keeps it.
* `Buried`: an intent that left `queued` and that no job holds is never submitted again
  (`Buried.run`).
* `submit_once`: **the executor is called at most once for an intent**, no row comes back to `queued`,
  and the reserve of a submitted intent is released by a definite outcome alone.
-/

namespace Binarius

open Lib

namespace World

variable {w : World}

/-! ### Jobs after an action -/

theorem taken_of_setJob {j i : ℕ} {s : Job} {row : TradeIntentRow} (hs : s ≠ .taken row)
    (h : (w.setJob j s).jobs i = .taken row) : w.jobs i = .taken row := by
  by_cases hij : i = j
  · subst hij
    rw [show (w.setJob i s).jobs i = s from Function.update_self ..] at h
    exact absurd h hs
  · rwa [show (w.setJob j s).jobs i = w.jobs i from Function.update_of_ne hij ..] at h

theorem taken_of_jobTx {α : Type} {j i : ℕ} {t : DbTx α} {next : α → Job} {row : TradeIntentRow}
    (h : (w.jobTx j t next).jobs i = .taken row) :
    w.jobs i = .taken row ∨
      (i = j ∧ ∃ a db, t.run w.db = .ok (a, db) ∧ next a = .taken row) := by
  unfold jobTx at h
  split at h
  · rename_i a db hrun
    by_cases hij : i = j
    · subst hij
      rw [show ((w.withDb db).setJob i (next a)).jobs i = next a from Function.update_self ..] at h
      exact .inr ⟨rfl, a, db, hrun, h⟩
    · rw [show ((w.withDb db).setJob j (next a)).jobs i = w.jobs i from Function.update_of_ne hij ..] at h
      exact .inl h
  · exact .inl (taken_of_setJob (by simp) h)

theorem taken_of_jobTx_ne {α : Type} {j i : ℕ} {t : DbTx α} {next : α → Job} {row : TradeIntentRow}
    (hnext : ∀ a, next a ≠ .taken row) (h : (w.jobTx j t next).jobs i = .taken row) :
    w.jobs i = .taken row := by
  rcases taken_of_jobTx h with h | ⟨_, a, _, _, hn⟩
  · exact h
  · exact absurd hn (hnext a)

theorem delivered_ne_taken (db : Db) (id : IntentId) (row : TradeIntentRow) :
    delivered db id ≠ .taken row := by
  unfold delivered
  split
  · simp
  · split <;> simp

@[simp] theorem outcomeTx_jobs (a : ℕ) (row : TradeIntentRow) (t : DbTx (Option TradeIntentRow)) :
    (w.outcomeTx a row t).jobs = w.jobs := by
  unfold outcomeTx
  split <;> rfl

@[simp] theorem outcomeTx_submits (a : ℕ) (row : TradeIntentRow) (t : DbTx (Option TradeIntentRow)) :
    (w.outcomeTx a row t).submits = w.submits := by
  unfold outcomeTx
  split <;> rfl

@[simp] theorem jobTx_submits {α : Type} (j : ℕ) (t : DbTx α) (next : α → Job) :
    (w.jobTx j t next).submits = w.submits := by
  unfold jobTx
  split <;> rfl

theorem conclude_keeps_jobs (a : ℕ) (now : UnixMs) :
    (w.conclude a now).jobs = w.jobs ∧ (w.conclude a now).submits = w.submits := by
  unfold conclude
  cases w.attempts a with
  | answered row result =>
    cases result with
    | unavailable reason => exact ⟨rfl, rfl⟩
    | failed => exact ⟨rfl, rfl⟩
    | _ => exact ⟨outcomeTx_jobs _ _ _, outcomeTx_submits _ _ _⟩
  | mismatched row => exact ⟨outcomeTx_jobs _ _ _, outcomeTx_submits _ _ _⟩
  | _ => exact ⟨rfl, rfl⟩

theorem claim_keeps_jobs (a : ℕ) (now : UnixMs) (id : IntentId) (retryMs : ℤ) :
    (w.claim a now id retryMs).jobs = w.jobs ∧ (w.claim a now id retryMs).submits = w.submits := by
  unfold claim
  split
  · split <;> exact ⟨rfl, rfl⟩
  · exact ⟨rfl, rfl⟩

theorem taken_of_persist {j i : ℕ} {now : UnixMs} {row : TradeIntentRow}
    (h : (w.persist j now).jobs i = .taken row) : w.jobs i = .taken row := by
  unfold persist at h
  split at h
  · unfold persistAccepted at h
    split at h
    · exact taken_of_setJob (w := w.withDb _) (by simp) h
    · exact taken_of_setJob (by simp) h
    · exact taken_of_setJob (by simp) h
  · exact taken_of_jobTx_ne (by simp) h
  · exact taken_of_jobTx_ne (by simp) h
  · exact taken_of_jobTx_ne (by simp) h
  · exact h

theorem persist_submits (j : ℕ) (now : UnixMs) : (w.persist j now).submits = w.submits := by
  unfold persist
  split
  · unfold persistAccepted
    split <;> rfl
  · exact jobTx_submits _ _ _
  · exact jobTx_submits _ _ _
  · exact jobTx_submits _ _ _
  · rfl

/-- **A job holds its intent taken only by a take** that committed on the queued row it had read. -/
theorem act_taken {a : Action} {i : ℕ} {row : TradeIntentRow} (h : (w.act a).jobs i = .taken row) :
    w.jobs i = .taken row ∨
      ∃ now maxAgeMs intent, a = .take i now maxAgeMs ∧ w.jobs i = .queued intent ∧
        (takeIntent now { id := intent.id, expectedVersion := intent.version
                          maxAgeMs := maxAgeMs }).run w.db = .ok (some row, (w.act a).db) := by
  cases a with
  | deliver j id =>
    simp only [act] at h
    split at h
    · exact .inl (taken_of_setJob (delivered_ne_taken _ _ _) h)
    · exact .inl h
  | rejectDemoOnly j now =>
    simp only [act] at h
    split at h
    · split at h
      · exact .inl (taken_of_jobTx_ne (by simp) h)
      · exact .inl h
    · exact .inl h
  | forward j =>
    simp only [act] at h
    split at h
    · exact .inl (taken_of_setJob (by simp) h)
    · exact .inl h
  | take j now maxAgeMs =>
    cases hj : w.jobs j with
    | queued intent =>
      have hact : w.act (.take j now maxAgeMs) = w.jobTx j (takeIntent now
          { id := intent.id, expectedVersion := intent.version, maxAgeMs := maxAgeMs })
          (afterTake intent) := by
        simp only [act, hj]
      rw [hact] at h ⊢
      rcases taken_of_jobTx h with h | ⟨rfl, res, db, hrun, hn⟩
      · exact .inl h
      · cases res with
        | none => simp [afterTake] at hn
        | some row' =>
          simp only [afterTake, Job.taken.injEq] at hn
          subst hn
          rw [jobTx_db, Tx.commit_eq_of_ok hrun]
          exact .inr ⟨now, maxAgeMs, intent, rfl, hj, hrun⟩
    | _ =>
      simp only [act, hj] at h
      exact .inl h
  | rejectExpired j now maxAgeMs =>
    simp only [act] at h
    split at h
    · refine .inl (taken_of_jobTx_ne (fun res => ?_) h)
      split <;> simp
    · exact .inl h
  | rejectLate j now =>
    simp only [act] at h
    split at h
    · refine .inl (taken_of_jobTx_ne (fun res => ?_) h)
      split <;> simp
    · exact .inl h
  | rejectPaused j now =>
    simp only [act] at h
    split at h
    · exact .inl (taken_of_jobTx_ne (by simp) h)
    · exact .inl h
  | submit j =>
    simp only [act] at h
    split at h
    · exact .inl (taken_of_setJob (by simp) h)
    · exact .inl h
  | answer j result =>
    simp only [act] at h
    split at h
    · exact .inl (taken_of_setJob (by simp) h)
    · exact .inl h
  | persist j now => exact .inl (taken_of_persist h)
  | markStale j now staleSubmittingMs =>
    simp only [act] at h
    split at h
    · exact .inl (taken_of_jobTx_ne (by simp) h)
    · exact .inl h
  | loseJob j => exact .inl (taken_of_setJob (by simp) h)
  | claim a now id retryMs =>
    rw [show w.act (.claim a now id retryMs) = w.claim a now id retryMs from rfl,
      (claim_keeps_jobs a now id retryMs).1] at h
    exact .inl h
  | reconciled a result =>
    simp only [act] at h
    split at h <;> exact .inl h
  | conclude a now =>
    rw [show w.act (.conclude a now) = w.conclude a now from rfl, (conclude_keeps_jobs a now).1] at h
    exact .inl h
  | loseAttempt a => exact .inl h
  | claimEvent id status =>
    simp only [act] at h
    split at h <;> exact .inl h
  | published id now =>
    simp only [act] at h
    split at h
    · split at h <;> exact .inl h
    · exact .inl h
  | notPublished id now maxAttempts =>
    simp only [act] at h
    split at h <;> exact .inl h
  | losePublisher id => exact .inl h
  | transact t =>
    simp only [act] at h
    split at h <;> exact .inl h
  | surroundings s => exact .inl h

/-- **`submit` is called by a job that holds its intent taken**, and by no other action. -/
theorem act_submits (w : World) (a : Action) :
    (w.act a).submits = w.submits ∨
      ∃ j row, a = .submit j ∧ w.jobs j = .taken row ∧ (w.act a).submits = row.id :: w.submits ∧
        ∀ row', (w.act a).jobs j ≠ .taken row' := by
  cases a with
  | submit j =>
    cases hj : w.jobs j with
    | taken row =>
      refine .inr ⟨j, row, rfl, hj, by simp only [act, hj], ?_⟩
      intro row' h
      simp only [act, hj, setJob] at h
      rw [Function.update_self] at h
      simp at h
    | _ => exact .inl (by simp only [act, hj])
  | deliver j id =>
    simp only [act]
    split <;> exact .inl rfl
  | rejectDemoOnly j now =>
    simp only [act]
    split
    · split
      · exact .inl (jobTx_submits _ _ _)
      · exact .inl rfl
    · exact .inl rfl
  | forward j =>
    simp only [act]
    split <;> exact .inl rfl
  | take j now maxAgeMs =>
    simp only [act]
    split
    · exact .inl (jobTx_submits _ _ _)
    · exact .inl rfl
  | rejectExpired j now maxAgeMs =>
    simp only [act]
    split
    · exact .inl (jobTx_submits _ _ _)
    · exact .inl rfl
  | rejectLate j now =>
    simp only [act]
    split
    · exact .inl (jobTx_submits _ _ _)
    · exact .inl rfl
  | rejectPaused j now =>
    simp only [act]
    split
    · exact .inl (jobTx_submits _ _ _)
    · exact .inl rfl
  | answer j result =>
    simp only [act]
    split <;> exact .inl rfl
  | persist j now => exact .inl (persist_submits j now)
  | markStale j now staleSubmittingMs =>
    simp only [act]
    split
    · exact .inl (jobTx_submits _ _ _)
    · exact .inl rfl
  | loseJob j => exact .inl rfl
  | claim a now id retryMs => exact .inl (claim_keeps_jobs a now id retryMs).2
  | reconciled a result =>
    simp only [act]
    split <;> exact .inl rfl
  | conclude a now => exact .inl (conclude_keeps_jobs a now).2
  | loseAttempt a => exact .inl rfl
  | claimEvent id status =>
    simp only [act]
    split <;> exact .inl rfl
  | published id now =>
    simp only [act]
    split
    · split <;> exact .inl rfl
    · exact .inl rfl
  | notPublished id now maxAttempts =>
    simp only [act]
    split <;> exact .inl rfl
  | losePublisher id => exact .inl rfl
  | transact t =>
    simp only [act]
    split <;> exact .inl rfl
  | surroundings s => exact .inl rfl

end World

/-! ## The invariant -/

/-- The intent is there and past `queued`. -/
def Left (db : Db) (id : IntentId) : Prop :=
  ∃ r, db.find id = some r ∧ TradeIntentStatus.submitting.rank ≤ r.status.rank

theorem Left.evolves {db db' : Db} {id : IntentId} (h : Left db id) (hev : Evolves db db') :
    Left db' id := by
  obtain ⟨r, hr, hrank⟩ := h
  obtain ⟨r', hr', hl⟩ := hev id r hr
  exact ⟨r', hr', hrank.trans hl.rank_le⟩

/-- A taken row was queued, and is past it now. -/
theorem takeIntent_left {now : UnixMs} {db db' : Db} {o : TakeIntentOptions} {row : TradeIntentRow}
    (h : (takeIntent now o).run db = .ok (some row, db')) :
    row.id = o.id ∧ ¬ Left db row.id ∧ Left db' row.id := by
  obtain ⟨hres, _⟩ | ⟨r, row', hf, hs, _, _, hres, hrow, hdb⟩ := takeIntent_ok h
  · simp at hres
  · simp only [Option.some.injEq] at hres
    subst hres
    have hid : row.id = r.id := by rw [hrow]
    have hself : db.find row.id = some r := by rw [hid]; exact Db.find_self hf
    refine ⟨hid.trans (Db.find_id hf), ?_, row, ?_, ?_⟩
    · rintro ⟨r', hr', hrank⟩
      rw [hself, Option.some.injEq] at hr'
      subst hr'
      rw [hs] at hrank
      revert hrank
      decide
    · have hfind := Table.find?_put_of_find? (r := row) (k := row.id) hself
      rw [hdb, Db.find]
      exact hfind.trans (if_pos rfl)
    · rw [hrow]

/-- What holds of jobs and submits in every reachable world. -/
structure SubmitInv (w : World) : Prop where
  taken_left : ∀ j row, w.jobs j = .taken row → Left w.db row.id
  taken_once : ∀ j j' row row', w.jobs j = .taken row → w.jobs j' = .taken row' → row.id = row'.id →
    j = j'
  taken_fresh : ∀ j row, w.jobs j = .taken row → row.id ∉ w.submits
  submitted_left : ∀ id ∈ w.submits, Left w.db id
  nodup : w.submits.Nodup

namespace SubmitInv

variable {w : World}

theorem start (db : Db) : SubmitInv (World.start db) := by
  refine ⟨?_, ?_, ?_, ?_, List.nodup_nil⟩
  · intro j row h
    simp [World.start] at h
  · intro j j' row row' h
    simp [World.start] at h
  · intro j row h
    simp [World.start] at h
  · intro id h
    simp [World.start] at h

/-- **Every action keeps the invariant.** -/
theorem act (hw : SubmitInv w) (a : Action) : SubmitInv (w.act a) := by
  have hev := World.evolves_act w a
  -- the job that now holds an intent taken held it before, or took it from `queued` just now
  have hnew : ∀ i row, (w.act a).jobs i = .taken row → w.jobs i ≠ .taken row →
      ¬ Left w.db row.id ∧ Left (w.act a).db row.id ∧ ∃ now maxAgeMs, a = .take i now maxAgeMs := by
    intro i row h hne
    rcases World.act_taken h with h' | ⟨now, maxAgeMs, intent, rfl, _, hrun⟩
    · exact absurd h' hne
    · obtain ⟨_, h1, h2⟩ := takeIntent_left hrun
      exact ⟨h1, h2, now, maxAgeMs, rfl⟩
  refine ⟨?_, ?_, ?_, ?_, ?_⟩
  · intro j row h
    by_cases hold : w.jobs j = .taken row
    · exact (hw.taken_left j row hold).evolves hev
    · exact (hnew j row h hold).2.1
  · intro j j' row row' h h' hid
    by_cases hold : w.jobs j = .taken row
    · by_cases hold' : w.jobs j' = .taken row'
      · exact hw.taken_once j j' row row' hold hold' hid
      · have hleft := hw.taken_left j row hold
        rw [hid] at hleft
        exact absurd hleft (hnew j' row' h' hold').1
    · by_cases hold' : w.jobs j' = .taken row'
      · have hleft := hw.taken_left j' row' hold'
        rw [← hid] at hleft
        exact absurd hleft (hnew j row h hold).1
      · obtain ⟨_, _, now, maxAgeMs, ha⟩ := hnew j row h hold
        obtain ⟨_, _, now', maxAgeMs', ha'⟩ := hnew j' row' h' hold'
        rw [ha] at ha'
        exact (Action.take.injEq .. ▸ ha').1
  · intro j row h
    rcases World.act_submits w a with hsub | ⟨j', row', rfl, hj', hsub, hgone⟩
    · rw [hsub]
      by_cases hold : w.jobs j = .taken row
      · exact hw.taken_fresh j row hold
      · exact fun hmem => (hnew j row h hold).1 (hw.submitted_left _ hmem)
    · have hold : w.jobs j = .taken row := by
        by_contra hne
        obtain ⟨_, _, _, _, ha⟩ := hnew j row h hne
        simp at ha
      rw [hsub, List.mem_cons, not_or]
      refine ⟨fun hid => ?_, hw.taken_fresh j row hold⟩
      obtain rfl := hw.taken_once j j' row row' hold hj' hid
      exact hgone row h
  · intro id hmem
    rcases World.act_submits w a with hsub | ⟨j', row', rfl, hj', hsub, _⟩
    · rw [hsub] at hmem
      exact (hw.submitted_left id hmem).evolves hev
    · rw [hsub, List.mem_cons] at hmem
      rcases hmem with rfl | hmem
      · exact (hw.taken_left j' row' hj').evolves hev
      · exact (hw.submitted_left id hmem).evolves hev
  · rcases World.act_submits w a with hsub | ⟨j', row', rfl, hj', hsub, _⟩
    · rw [hsub]
      exact hw.nodup
    · rw [hsub]
      exact List.nodup_cons.mpr ⟨hw.taken_fresh j' row' hj', hw.nodup⟩

theorem run (hw : SubmitInv w) (as : List Action) : SubmitInv (run World.act w as) :=
  run_induction hw (fun _ a h => h.act a) as

end SubmitInv

/-- An intent past `queued` that was not submitted and that no job holds. -/
structure Buried (w : World) (id : IntentId) : Prop where
  left : Left w.db id
  unsubmitted : id ∉ w.submits
  untaken : ∀ j row, w.jobs j = .taken row → row.id ≠ id

namespace Buried

variable {w : World} {id : IntentId}

theorem act (h : Buried w id) (a : Action) : Buried (w.act a) id := by
  refine ⟨h.left.evolves (World.evolves_act w a), ?_, ?_⟩
  · rcases World.act_submits w a with hsub | ⟨j, row, rfl, hj, hsub, _⟩
    · rw [hsub]
      exact h.unsubmitted
    · rw [hsub, List.mem_cons, not_or]
      exact ⟨fun hid => h.untaken j row hj hid.symm, h.unsubmitted⟩
  · intro j row hj
    rcases World.act_taken hj with hold | ⟨now, maxAgeMs, intent, rfl, _, hrun⟩
    · exact h.untaken j row hold
    · rintro rfl
      exact (takeIntent_left hrun).2.1 h.left

theorem run (h : Buried w id) (as : List Action) : Buried (run World.act w as) id :=
  run_induction (P := fun w => Buried w id) h (fun _ a h => h.act a) as

end Buried

/-! ## What releases a reserve -/

/-- The endings that may release the reserve of a submitted intent: the executor's definite `rejected`,
a reconciliation that concluded `not_found`, an operator's rejection of a parked intent. -/
def World.definite (w : World) (id : IntentId) : Action → Prop
  | .persist j _ => ∃ row reason, w.jobs j = .answered row (.rejected reason) ∧ row.id = id
  | .conclude a _ => ∃ row, w.attempts a = .answered row .notFound ∧ row.id = id
  | .transact (.rejectIntent _ o) => o.fromStatus = .manualReview ∧ o.id = id
  | _ => False

section Releases

variable {w : World}

/-- A release row written by a run of transactions was written by a rejection among them. -/
theorem releases_commitAll {ts : List Txn} {db : Db} {id : IntentId}
    (h : (commitAll db ts).releases id ≠ db.releases id) :
    ∃ ts₁ ts₂ now o row, ts = ts₁ ++ .rejectIntent now o :: ts₂ ∧ o.id = id ∧
      (commitAll db ts₁).find id = some row ∧ row.status = o.fromStatus ∧
      (commitAll db (ts₁ ++ [.rejectIntent now o])).find id = some (rejectedRow now o.reason row) := by
  induction ts generalizing db with
  | nil => exact absurd rfl h
  | cons t ts ih =>
    rcases (t.evolves_commit db).2 id with hkeep | ⟨now, o, row, rfl, hid, hf, hs, hf'⟩
    · have h' : (commitAll (t.commit db) ts).releases id ≠ (t.commit db).releases id := by
        rw [hkeep]
        exact h
      obtain ⟨ts₁, ts₂, now, o, row, rfl, hid, hf, hs, hf'⟩ := ih h'
      exact ⟨t :: ts₁, ts₂, now, o, row, rfl, hid, hf, hs, hf'⟩
    · exact ⟨[], ts, now, o, row, rfl, hid, hf, hs, hf'⟩

/-- Where a rejection comes from: a queued intent, or one of the definite endings. -/
theorem World.reject_cause {a : Action} {now : UnixMs} {o : RejectIntentOptions}
    (h : Txn.rejectIntent now o ∈ w.txns a) : o.fromStatus = .queued ∨ w.definite o.id a := by
  cases a with
  | rejectDemoOnly j now' =>
    simp only [txns] at h
    split at h
    · split at h
      · simp only [List.mem_singleton, Txn.rejectIntent.injEq] at h
        exact .inl (by rw [h.2])
      · simp at h
    · simp at h
  | rejectExpired j now' maxAgeMs =>
    simp only [txns] at h
    split at h
    · simp only [List.mem_singleton, Txn.rejectIntent.injEq] at h
      exact .inl (by rw [h.2])
    · simp at h
  | rejectLate j now' =>
    simp only [txns] at h
    split at h
    · simp only [List.mem_singleton, Txn.rejectIntent.injEq] at h
      exact .inl (by rw [h.2])
    · simp at h
  | rejectPaused j now' =>
    simp only [txns] at h
    split at h
    · simp only [List.mem_singleton, Txn.rejectIntent.injEq] at h
      exact .inl (by rw [h.2])
    · simp at h
  | persist j now' =>
    simp only [txns] at h
    cases hj : w.jobs j with
    | answered row result =>
      cases result with
      | rejected reason =>
        simp only [hj, List.mem_singleton, Txn.rejectIntent.injEq] at h
        exact .inr ⟨row, reason, hj, by rw [h.2]⟩
      | _ => simp [hj] at h
    | _ => simp [hj] at h
  | conclude a now' =>
    simp only [txns] at h
    cases ha : w.attempts a with
    | answered row result =>
      cases result with
      | notFound =>
        simp only [ha, List.mem_singleton, Txn.rejectIntent.injEq] at h
        exact .inr ⟨row, ha, by rw [h.2]⟩
      | _ => simp [ha] at h
    | _ => simp [ha] at h
  | notPublished id now' maxAttempts =>
    simp only [txns] at h
    split at h
    · simp only [deliveryTxns] at h
      split at h
      · simp at h
      · split at h
        · simp only [List.mem_cons, reduceCtorEq, Txn.rejectIntent.injEq, List.not_mem_nil, or_false,
            false_or] at h
          exact .inl (by rw [h.2])
        · simp at h
    · simp at h
  | transact t =>
    simp only [txns] at h
    split at h
    · rename_i hout
      simp only [List.mem_singleton] at h
      subst h
      exact .inr ⟨by simpa [Txn.outside] using hout, rfl⟩
    · simp at h
  | take j now' maxAgeMs =>
    simp only [txns] at h
    split at h <;> simp at h
  | markStale j now' ms =>
    simp only [txns] at h
    split at h <;> simp at h
  | claim a now' id retryMs =>
    simp only [txns] at h
    split at h <;> simp at h
  | published id now' =>
    simp only [txns] at h
    split at h
    · split at h <;> simp at h
    · simp at h
  | _ => simp [txns] at h

/-- **An intent whose reserve was released before its take is never submitted.** -/
theorem buried_of_release (hw : SubmitInv w) {a : Action} {id : IntentId}
    (h : (w.act a).db.releases id ≠ w.db.releases id) (hnot : ¬ w.definite id a) :
    Buried (w.act a) id := by
  rw [World.act_db] at h
  obtain ⟨ts₁, ts₂, now, o, row, hts, hid, hf, hs, hf'⟩ := releases_commitAll h
  have hmem : Txn.rejectIntent now o ∈ w.txns a := by
    rw [hts]
    exact List.mem_append_right _ List.mem_cons_self
  have hqueued : o.fromStatus = .queued := by
    rcases World.reject_cause hmem with hq | hd
    · exact hq
    · rw [hid] at hd
      exact absurd hd hnot
  have hnotLeft : ¬ Left w.db id := by
    intro hl
    obtain ⟨r, hr, hrank⟩ := hl.evolves (evolves_commitAll ts₁ w.db)
    rw [hf, Option.some.injEq] at hr
    subst hr
    rw [hs, hqueued] at hrank
    revert hrank
    decide
  have hleft : Left (w.act a).db id := by
    have hmid : Left (commitAll w.db (ts₁ ++ [.rejectIntent now o])) id := by
      refine ⟨_, hf', ?_⟩
      show 3 ≤ 8
      omega
    have hrest := evolves_commitAll ts₂ (commitAll w.db (ts₁ ++ [.rejectIntent now o]))
    have hall : commitAll (commitAll w.db (ts₁ ++ [.rejectIntent now o])) ts₂ = (w.act a).db := by
      rw [World.act_db, hts, commitAll, commitAll, commitAll, ← run_append]
      simp
    rw [hall] at hrest
    exact hmid.evolves hrest
  refine ⟨hleft, ?_, ?_⟩
  · rcases World.act_submits w a with hsub | ⟨j, r, rfl, _, _, _⟩
    · rw [hsub]
      exact fun hm => hnotLeft (hw.submitted_left id hm)
    · simp [World.txns] at hmem
  · intro j r hj hr
    subst hr
    rcases World.act_taken hj with hold | ⟨now', maxAgeMs, intent, rfl, hq, _⟩
    · exact hnotLeft (hw.taken_left j r hold)
    · simp [World.txns, hq] at hmem

end Releases

/-- **At most one broker submit per intent.**  Whatever database the processes start on and however their
actions interleave: `submit` was called at most once for each intent; no action brings a row back to
`queued`; and an action that releases the reserve of an intent that was or will be submitted is a
definite ending of it. -/
theorem submit_once (db : Db) (as : List Action) :
    (∀ id, (run World.act (World.start db) as).submits.count id ≤ 1) ∧
    (∀ a id r r', (run World.act (World.start db) as).db.find id = some r →
      ((run World.act (World.start db) as).act a).db.find id = some r' →
      r.status ≠ .queued → r'.status ≠ .queued) ∧
    (∀ a bs id, ((run World.act (World.start db) as).act a).db.releases id ≠
        (run World.act (World.start db) as).db.releases id →
      id ∈ (run World.act ((run World.act (World.start db) as).act a) bs).submits →
      (run World.act (World.start db) as).definite id a) := by
  have hw : SubmitInv (run World.act (World.start db) as) := (SubmitInv.start db).run as
  refine ⟨fun id => List.nodup_iff_count_le_one.mp hw.nodup id, ?_, ?_⟩
  · intro a id r r' hr hr' hne hq
    obtain ⟨r'', hr'', hl⟩ := World.evolves_act _ a id r hr
    rw [hr', Option.some.injEq] at hr''
    subst hr''
    exact hne (hl.not_requeued hq ▸ hq)
  · intro a bs id hrel hsub
    by_contra hnot
    exact ((buried_of_release hw hrel hnot).run bs).unsubmitted hsub

/-- A trade is created, its job delivered twice, taken once, submitted once and rejected by the broker. -/
def rejectedTrade : List Action :=
  [.transact (.creditStarPayment
    { telegramPaymentChargeId := "c", providerPaymentChargeId := none, packageCode := "p50", userId := 1
      currency := "XTR", totalAmount := 100, payerTelegramUserId := 42, paidAt := 0 }),
   .transact (.createTradeIntent 10 5
    { telegramUserId := 42, brokerAccountId := none, mode := .demo, assetId := 3, amount := ['1']
      action := .up, durationSec := 5, clientRequestId := "r" } none {}),
   .deliver 0 5, .deliver 1 5, .take 0 20 1000, .take 1 21 1000, .submit 0,
   .answer 0 (.rejected .brokerRejected)]

theorem submit_once_rejectedTrade :
    (run World.act (World.start oneUserDb) rejectedTrade).submits = [5] ∧
      (run World.act (World.start oneUserDb) rejectedTrade).definite 5 (.persist 0 30) := by
  refine ⟨by decide, ?_⟩
  exact (submit_once oneUserDb rejectedTrade).2.2 (.persist 0 30) [] 5 (by decide) (by decide)

end Binarius
