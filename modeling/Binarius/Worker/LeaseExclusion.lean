import Mathlib.Tactic
import Binarius.Lib.Leases
import Binarius.Worker.SessionManager

/-!
# Worker.LeaseExclusion — one process at a time has a session of an account

A process trusts a lease up to its fence, counted from the moment the statement was sent; the row lasts
longer, counted from a later moment.  So a trusted lease is `Leases.Covered` by the row at every instant.

* `EntryOk`: what stands behind an entry, whatever statements and answers are still under way.
* `EntryOk.execute`: **one statement at the database.**
* `one_session`: **two processes never both have a session of one account.**
-/

namespace Binarius

open Lib

/-! ## What a statement does at the database -/

namespace Sent

variable {config : LeaseConfig} {sent : Sent} {now : Instant} {rows : SessionLeases} {id : AccountId}

theorem step_execute :
    Leases.Step sent.ownerId now (rows.held id) ((sent.execute config now rows).2.held id) := by
  unfold execute
  split
  · exact SessionLeases.step_acquire id
  · exact SessionLeases.step_renew id _
  · exact SessionLeases.step_release id now
  · exact SessionLeases.step_releaseOne id _ now

/-- The statement that took the lease a row holds: the row's own before, or this one. -/
theorem execute_row {l : BrokerSessionLease} (h : (sent.execute config now rows).2 id = some l) :
    (∃ old, rows id = some old ∧ old.ownerId = l.ownerId ∧ old.acquiredAt = l.acquiredAt) ∨
      (sent.statement = .acquire id ∧ l.ownerId = sent.ownerId ∧ l.acquiredAt = now ∧
        sent.taken (sent.execute config now rows).1 = some (sent.ownerId, id, now)) := by
  have hfilter : ∀ keep : BrokerSessionLease → Bool, (rows id).filter keep = some l →
      ∃ old, rows id = some old ∧ old.ownerId = l.ownerId ∧ old.acquiredAt = l.acquiredAt := by
    intro keep hkeep
    rcases SessionLeases.filter_row (rows id) keep with hsame | ⟨_, _, _, hnone⟩
    · rw [hsame] at hkeep
      exact ⟨l, hkeep, rfl, rfl⟩
    · rw [hnone] at hkeep
      simp at hkeep
  unfold execute at h ⊢
  split at h
  · rename_i accountId hstatement
    simp only [] at h
    by_cases hid : id = accountId
    · subst hid
      rcases SessionLeases.acquire_cases rows id sent.ownerId config.ttl now with
        ⟨hanswer, l', hrows, howner, hstamp, -⟩ | ⟨-, hrows, -⟩
      · rw [hrows, Function.update_self] at h
        obtain rfl := Option.some.inj h
        refine .inr ⟨hstatement, howner, hstamp, ?_⟩
        simp [taken, hstatement, hanswer]
      · rw [hrows] at h
        exact .inl ⟨l, h, rfl, rfl⟩
    · rw [SessionLeases.acquire_of_ne hid] at h
      exact .inl ⟨l, h, rfl, rfl⟩
  · rename_i leases _
    simp only [] at h
    rcases SessionLeases.renew_row rows sent.ownerId config.ttl now id (leases.map (·.1)) with
      hsame | ⟨old, hold, _, hnew⟩
    · rw [hsame] at h
      exact .inl ⟨l, h, rfl, rfl⟩
    · rw [hnew] at h
      obtain rfl := Option.some.inj h
      exact .inl ⟨old, hold, rfl, rfl⟩
  · exact .inl (hfilter _ h)
  · exact .inl (hfilter _ h)

/-- Only a release empties a row. -/
theorem execute_empties (h : (sent.execute config now rows).2 id = none) :
    rows id = none ∨ sent.statement = .release ∨
      ∃ acquiredAt l, sent.statement = .releaseOne id acquiredAt ∧ rows id = some l ∧
        l.ownerId = sent.ownerId ∧ l.acquiredAt = acquiredAt := by
  unfold execute at h
  split at h
  · rename_i accountId hstatement
    simp only [] at h
    by_cases hid : id = accountId
    · subst hid
      rcases SessionLeases.acquire_cases rows id sent.ownerId config.ttl now with ⟨-, l', hrows, -⟩ | ⟨-, hrows, -⟩
      · rw [hrows, Function.update_self] at h
        simp at h
      · rw [hrows] at h
        exact .inl h
    · rw [SessionLeases.acquire_of_ne hid] at h
      exact .inl h
  · rename_i leases _
    simp only [] at h
    rcases SessionLeases.renew_row rows sent.ownerId config.ttl now id (leases.map (·.1)) with
      hsame | ⟨old, hold, _, hnew⟩
    · rw [hsame] at h
      exact .inl h
    · rw [hnew] at h
      simp at h
  · rename_i hstatement
    exact .inr (.inl hstatement)
  · rename_i accountId acquiredAt hstatement
    simp only [SessionLeases.releaseOne] at h
    rcases SessionLeases.filter_row (rows id) (fun l => !(decide (id = accountId) &&
      decide (l.ownerId = sent.ownerId) && decide (l.acquiredAt = acquiredAt))) with
      hsame | ⟨l, hrow, hkeep, -⟩
    · rw [hsame] at h
      exact .inl h
    · simp only [Bool.not_eq_eq_eq_not, Bool.not_false, Bool.and_eq_true, decide_eq_true_eq] at hkeep
      obtain ⟨⟨rfl, howner⟩, hstamp⟩ := hkeep
      exact .inr (.inr ⟨acquiredAt, l, hstatement, hrow, howner, hstamp⟩)

end Sent

/-! ## What stands behind an entry -/

/-- A renewal of the process was sent for this lease. -/
def Fleet.Asked (w : Fleet) (ownerId : OwnerId) (lease : AccountId × ℕ) : Prop :=
  ∃ n leases sentAt, lease ∈ leases ∧ (w.pending n = some ⟨ownerId, .renew leases, sentAt⟩ ∨
    ∃ answer, w.answers n = some (⟨ownerId, .renew leases, sentAt⟩, answer))

/-- The row covers the lease up to an instant of the process's clock. -/
def Fleet.Trusted (w : Fleet) (offset : Instant) (ownerId : OwnerId) (accountId : AccountId)
    (untilAt : Instant) : Prop :=
  Leases.Covered (w.rows.held accountId) ownerId (untilAt - offset) w.now

structure EntryOk (config : LeaseConfig) (w : Fleet) (offset : Instant) (ownerId : OwnerId)
    (accountId : AccountId) (e : Entry) : Prop where
  numbered : e.acquire < w.next
  /-- its acquire has not run yet -/
  waiting : ∀ sent, w.pending e.acquire = some sent → ∃ sentAt,
    e = .starting e.acquire sentAt none ∧ sent = ⟨ownerId, .acquire accountId, sentAt⟩
  /-- its acquire took the lease -/
  answered : ∀ sent acquiredAt, w.answers e.acquire = some (sent, .acquired (some acquiredAt)) →
    (ownerId, accountId, acquiredAt) ∈ w.taken ∧
      ∀ n sentAt, e = .starting n sentAt none → w.Trusted offset ownerId accountId (sentAt + config.fence)
  leased : ∀ lease, e.lease = some lease → w.pending e.acquire = none ∧
    (ownerId, accountId, lease.acquiredAt) ∈ w.taken ∧ w.Trusted offset ownerId accountId lease.untilAt
  /-- a renewal found the lease -/
  renewed : ∀ n leases sentAt held, w.answers n = some (⟨ownerId, .renew leases, sentAt⟩, .renewed held) →
    (accountId, e.acquire) ∈ leases → accountId ∈ held →
    w.Trusted offset ownerId accountId (sentAt + config.fence)
  asked : w.Asked ownerId (accountId, e.acquire) → w.pending e.acquire = none
  /-- a release on its way is not of the row's acquire -/
  kept : w.pending e.acquire = none → ∀ n acquiredAt sentAt l,
    w.pending n = some ⟨ownerId, .releaseOne accountId acquiredAt, sentAt⟩ → w.rows accountId = some l →
    l.ownerId = ownerId → l.acquiredAt ≠ acquiredAt

/-- The statement of that number is the process's own. -/
structure Fleet.Own (w : Fleet) (ownerId : OwnerId) (n : ℕ) : Prop where
  lt : n < w.next
  pending : ∀ sent, w.pending n = some sent → sent.ownerId = ownerId
  answer : ∀ sent answer, w.answers n = some (sent, answer) → sent.ownerId = ownerId

structure FleetInv (config : LeaseConfig) (w : Fleet) : Prop where
  entries : ∀ ownerId accountId e, (w.managers ownerId).entries.lookup accountId = some e →
    EntryOk config w (w.managers ownerId).offset ownerId accountId e
  pending_lt : ∀ n sent, w.pending n = some sent → n < w.next
  answers_lt : ∀ n answer, w.answers n = some answer → n < w.next
  once : ∀ n sent, w.pending n = some sent → w.answers n = none
  asked_lt : ∀ ownerId lease, w.Asked ownerId lease → lease.2 < w.next
  stamped : ∀ n ownerId accountId acquiredAt sentAt,
    w.pending n = some ⟨ownerId, .releaseOne accountId acquiredAt, sentAt⟩ →
    (ownerId, accountId, acquiredAt) ∈ w.taken
  stopped : ∀ ownerId, (w.managers ownerId).stopping = true → (w.managers ownerId).entries = ∅
  released : ∀ n ownerId sentAt, w.pending n = some ⟨ownerId, .release, sentAt⟩ →
    (w.managers ownerId).stopping = true
  renewing : ∀ ownerId n, (w.managers ownerId).renewing = some n → w.Own ownerId n

section Frames

variable {config : LeaseConfig} {w : Fleet} {offset : Instant} {ownerId q : OwnerId}
  {accountId : AccountId} {e : Entry} {m : SessionManager}

/-- What a process keeps to itself concerns no entry's grounds. -/
theorem EntryOk.setManager (h : EntryOk config w offset ownerId accountId e) :
    EntryOk config (w.setManager q m) offset ownerId accountId e :=
  ⟨h.numbered, h.waiting, h.answered, h.leased, h.renewed, h.asked, h.kept⟩

theorem EntryOk.of_setManager (h : EntryOk config (w.setManager q m) offset ownerId accountId e) :
    EntryOk config w offset ownerId accountId e :=
  ⟨h.numbered, h.waiting, h.answered, h.leased, h.renewed, h.asked, h.kept⟩

/-- **A process changes its entries.** -/
theorem FleetInv.setManager (h : FleetInv config w) (hoffset : m.offset = (w.managers q).offset)
    (hentries : ∀ a e, m.entries.lookup a = some e → EntryOk config w m.offset q a e)
    (hstopped : m.stopping = true → m.entries = ∅)
    (hstays : (w.managers q).stopping = true → m.stopping = true)
    (hrenewing : ∀ n, m.renewing = some n → w.Own q n) : FleetInv config (w.setManager q m) where
  entries := by
    intro p a e he
    simp only [Fleet.setManager] at he ⊢
    by_cases hp : p = q
    · subst hp
      rw [Function.update_self] at he ⊢
      exact (hentries a e he).setManager
    · rw [Function.update_of_ne hp] at he ⊢
      exact (h.entries p a e he).setManager
  pending_lt := h.pending_lt
  answers_lt := h.answers_lt
  once := h.once
  asked_lt := h.asked_lt
  stamped := h.stamped
  stopped := by
    intro p hp
    simp only [Fleet.setManager] at hp ⊢
    by_cases hpq : p = q
    · subst hpq
      rw [Function.update_self] at hp ⊢
      exact hstopped hp
    · rw [Function.update_of_ne hpq] at hp ⊢
      exact h.stopped p hp
  released := by
    intro n p sentAt hpending
    have hstopping := h.released n p sentAt hpending
    simp only [Fleet.setManager]
    by_cases hpq : p = q
    · subst hpq
      rw [Function.update_self]
      exact hstays hstopping
    · rw [Function.update_of_ne hpq]
      exact hstopping
  renewing := by
    intro p n hn
    simp only [Fleet.setManager] at hn
    by_cases hpq : p = q
    · subst hpq
      rw [Function.update_self] at hn
      exact ⟨(hrenewing n hn).lt, (hrenewing n hn).pending, (hrenewing n hn).answer⟩
    · rw [Function.update_of_ne hpq] at hn
      have hown := h.renewing p n hn
      exact ⟨hown.lt, hown.pending, hown.answer⟩

/-- Leaving out an entry. -/
theorem FleetInv.deleteEntry (h : FleetInv config w) (q : OwnerId) (accountId : AccountId) :
    FleetInv config (w.setManager q ((w.managers q).deleteEntry accountId)) := by
  refine h.setManager rfl ?_ ?_ (fun hstopping => hstopping) (h.renewing q)
  · intro a e he
    by_cases ha : a = accountId
    · subst ha
      rw [SessionManager.deleteEntry, AList.lookup_erase] at he
      simp at he
    · rw [SessionManager.deleteEntry, AList.lookup_erase_ne ha] at he
      exact h.entries q a e he
  · intro hstopping
    have hempty := h.stopped q hstopping
    simp only [SessionManager.deleteEntry, hempty]
    rfl

/-- Writing an entry of a process that runs. -/
theorem FleetInv.setEntry (h : FleetInv config w) (hlive : (w.managers q).stopping = false)
    (he : EntryOk config w (w.managers q).offset q accountId e) :
    FleetInv config (w.setManager q ((w.managers q).setEntry accountId e)) := by
  refine h.setManager rfl ?_ ?_ (fun hstopping => hstopping) (h.renewing q)
  · intro a e' he'
    by_cases ha : a = accountId
    · subst ha
      rw [SessionManager.setEntry, AList.lookup_insert] at he'
      obtain rfl := Option.some.inj he'
      exact he
    · rw [SessionManager.setEntry, AList.lookup_insert_ne ha] at he'
      exact h.entries q a e' he'
  · intro hstopping
    simp [SessionManager.setEntry, hlive] at hstopping

/-- A process that holds an entry runs. -/
theorem FleetInv.live (h : FleetInv config w) (he : (w.managers q).entries.lookup accountId = some e) :
    (w.managers q).stopping = false := by
  by_contra hstopping
  rw [h.stopped q (by simpa using hstopping), AList.lookup_empty] at he
  simp at he

/-! ### Sending a statement -/

section Sending

variable {statement : LeaseStatement}

theorem pending_send {n : ℕ} {sent : Sent} (h : (w.send q statement).pending n = some sent) :
    w.pending n = some sent ∨ (n = w.next ∧ sent = ⟨q, statement, w.clock q⟩) := by
  by_cases hn : n = w.next
  · subst hn
    simp only [Fleet.send, Function.update_self] at h
    exact .inr ⟨rfl, (Option.some.inj h).symm⟩
  · simp only [Fleet.send, Function.update_of_ne hn] at h
    exact .inl h

theorem pending_send_of_lt {n : ℕ} (h : n < w.next) : (w.send q statement).pending n = w.pending n := by
  simp [Fleet.send, Function.update_of_ne h.ne]

theorem asked_send {lease : AccountId × ℕ} (h : (w.send q statement).Asked ownerId lease) :
    w.Asked ownerId lease ∨ (q = ownerId ∧ ∃ leases, statement = .renew leases ∧ lease ∈ leases) := by
  obtain ⟨n, leases, sentAt, hmem, hpending | hanswer⟩ := h
  · rcases pending_send hpending with hold | ⟨-, hnew⟩
    · exact .inl ⟨n, leases, sentAt, hmem, .inl hold⟩
    · obtain ⟨rfl, rfl, -⟩ := Sent.mk.injEq _ _ _ _ _ _ ▸ hnew
      exact .inr ⟨rfl, leases, rfl, hmem⟩
  · exact .inl ⟨n, leases, sentAt, hmem, .inr hanswer⟩

/-- What a process may send: renewals of leases it has, releases of what it gave up. -/
structure Sendable (w : Fleet) (q : OwnerId) (statement : LeaseStatement) : Prop where
  renew : ∀ leases, statement = .renew leases → ∀ lease ∈ leases,
    lease.2 < w.next ∧ w.pending lease.2 = none
  releaseOne : ∀ accountId acquiredAt, statement = .releaseOne accountId acquiredAt →
    (q, accountId, acquiredAt) ∈ w.taken ∧ (w.managers q).entries.lookup accountId = none
  release : statement = .release → (w.managers q).stopping = true

theorem EntryOk.send (h : EntryOk config w offset ownerId accountId e) (hsend : Sendable w q statement)
    (he : (w.managers ownerId).entries.lookup accountId = some e) :
    EntryOk config (w.send q statement) offset ownerId accountId e where
  numbered := h.numbered.trans (Nat.lt_succ_self _)
  waiting := by
    rw [pending_send_of_lt h.numbered]
    exact h.waiting
  answered := h.answered
  leased := by
    rw [pending_send_of_lt h.numbered]
    exact h.leased
  renewed := h.renewed
  asked := by
    rw [pending_send_of_lt h.numbered]
    intro hasked
    rcases asked_send hasked with hold | ⟨-, leases, hrenew, hmem⟩
    · exact h.asked hold
    · exact (hsend.renew leases hrenew _ hmem).2
  kept := by
    rw [pending_send_of_lt h.numbered]
    intro hran n acquiredAt sentAt l hpending hrow howner
    rcases pending_send hpending with hold | ⟨-, hnew⟩
    · exact h.kept hran n acquiredAt sentAt l hold hrow howner
    · obtain ⟨rfl, rfl, -⟩ := Sent.mk.injEq _ _ _ _ _ _ ▸ hnew
      have hnone := (hsend.releaseOne accountId acquiredAt rfl).2
      rw [he] at hnone
      simp at hnone

/-- **A process sends a statement.** -/
theorem FleetInv.send (h : FleetInv config w) (hsend : Sendable w q statement) :
    FleetInv config (w.send q statement) where
  entries := fun p a e he => (h.entries p a e he).send hsend he
  pending_lt := by
    intro n sent hpending
    show n < w.next + 1
    rcases pending_send hpending with hold | ⟨rfl, -⟩
    · have hlt := h.pending_lt n sent hold
      omega
    · omega
  answers_lt := fun n answer hanswer => (h.answers_lt n answer hanswer).trans (Nat.lt_succ_self _)
  once := by
    intro n sent hpending
    show w.answers n = none
    rcases pending_send hpending with hold | ⟨rfl, -⟩
    · exact h.once n sent hold
    · by_contra hanswer
      obtain ⟨answer, hanswer⟩ := Option.ne_none_iff_exists'.mp hanswer
      exact lt_irrefl _ (h.answers_lt _ answer hanswer)
  asked_lt := by
    intro p lease hasked
    show lease.2 < w.next + 1
    rcases asked_send hasked with hold | ⟨-, leases, hrenew, hmem⟩
    · exact (h.asked_lt p lease hold).trans (Nat.lt_succ_self _)
    · exact (hsend.renew leases hrenew _ hmem).1.trans (Nat.lt_succ_self _)
  stamped := by
    intro n p a acquiredAt sentAt hpending
    show (p, a, acquiredAt) ∈ w.taken
    rcases pending_send hpending with hold | ⟨-, hnew⟩
    · exact h.stamped n p a acquiredAt sentAt hold
    · obtain ⟨rfl, rfl, -⟩ := Sent.mk.injEq _ _ _ _ _ _ ▸ hnew
      exact (hsend.releaseOne a acquiredAt rfl).1
  stopped := h.stopped
  released := by
    intro n p sentAt hpending
    rcases pending_send hpending with hold | ⟨-, hnew⟩
    · exact h.released n p sentAt hold
    · obtain ⟨rfl, rfl, -⟩ := Sent.mk.injEq _ _ _ _ _ _ ▸ hnew
      exact hsend.release rfl
  renewing := by
    intro p n hn
    have hown := h.renewing p n hn
    refine ⟨hown.lt.trans (Nat.lt_succ_self _), ?_, hown.answer⟩
    rw [pending_send_of_lt hown.lt]
    exact hown.pending

end Sending

/-- A process's own state and what it sends at that moment. -/
theorem send_setManager {statement : LeaseStatement} (hoffset : m.offset = (w.managers q).offset) :
    (w.setManager q m).send q statement = (w.send q statement).setManager q m := by
  simp [Fleet.send, Fleet.setManager, Fleet.clock, hoffset]

/-! ### The events of a process -/

/-- A just started entry: its acquire is on its way. -/
theorem EntryOk.started (h : FleetInv config w) :
    EntryOk config (w.send q (.acquire accountId)) offset q accountId
      (.starting w.next (w.clock q) none) := by
  have hpending : (w.send q (.acquire accountId)).pending w.next =
      some ⟨q, .acquire accountId, w.clock q⟩ := Function.update_self _ _ _
  have hasked : ¬ (w.send q (.acquire accountId)).Asked q (accountId, w.next) := by
    intro hasked
    rcases asked_send hasked with hold | ⟨-, leases, hrenew, -⟩
    · exact lt_irrefl _ (h.asked_lt q _ hold)
    · simp at hrenew
  refine ⟨Nat.lt_succ_self _, ?_, ?_, ?_, ?_, ?_, ?_⟩
  · intro sent hsent
    exact ⟨w.clock q, rfl, Option.some.inj (hsent.symm.trans hpending)⟩
  · intro sent acquiredAt hanswer
    exact absurd (h.answers_lt _ _ hanswer) (lt_irrefl _)
  · intro lease hlease
    simp [Entry.lease] at hlease
  · intro n leases sentAt held hanswer hmem _
    exact absurd ⟨n, leases, sentAt, hmem, .inr ⟨_, hanswer⟩⟩ hasked
  · exact fun hbad => absurd hbad hasked
  · intro hran
    have hbad := hran.symm.trans hpending
    simp at hbad

theorem FleetInv.startOne (h : FleetInv config w) : FleetInv config (w.startOne q accountId) := by
  unfold Fleet.startOne
  simp only []
  split
  · exact h
  rename_i hguard
  obtain ⟨hlive, -⟩ := not_or.mp hguard
  have hsend : Sendable w q (.acquire accountId) := ⟨by simp, by simp, by simp⟩
  have hlive : (w.managers q).stopping = false := by simpa using hlive
  rw [send_setManager (by rfl)]
  exact (h.send hsend).setEntry hlive (EntryOk.started h)

/-- The lease an answer gives. -/
theorem EntryOk.acquired {n : ℕ} {sentAt acquiredAt : Instant} {sent : Sent}
    (h : EntryOk config w offset q accountId (.starting n sentAt none))
    (hran : w.pending n = none) (hanswer : w.answers n = some (sent, .acquired (some acquiredAt))) :
    EntryOk config w offset q accountId
      (.starting n sentAt (some { untilAt := sentAt + config.fence, acquiredAt := acquiredAt })) := by
  obtain ⟨htaken, htrusted⟩ := h.answered sent acquiredAt hanswer
  refine ⟨h.numbered, ?_, ?_, ?_, h.renewed, h.asked, h.kept⟩
  · intro sent' hpending
    have hbad := hran.symm.trans hpending
    simp at hbad
  · intro sent' acquiredAt' hanswer'
    refine ⟨(h.answered sent' acquiredAt' hanswer').1, fun n' sentAt' hbad => ?_⟩
    simp at hbad
  · intro lease hlease
    obtain rfl := Option.some.inj hlease
    exact ⟨hran, htaken, htrusted n sentAt rfl⟩

theorem FleetInv.ran (h : FleetInv config w) {n : ℕ} {answer : Sent × LeaseAnswer}
    (hanswer : w.answers n = some answer) : w.pending n = none := by
  cases hpending : w.pending n with
  | none => rfl
  | some sent =>
    rw [h.once n sent hpending] at hanswer
    simp at hanswer

theorem FleetInv.acquired (h : FleetInv config w) : FleetInv config (w.acquired config q accountId) := by
  unfold Fleet.acquired
  simp only []
  split
  · rename_i n sentAt he
    split
    · exact h.deleteEntry q accountId
    · rename_i sent acquiredAt hanswer
      exact h.setEntry (h.live he) ((h.entries q accountId _ he).acquired (h.ran hanswer) hanswer)
    · exact h
  · exact h

/-- An entry under the same acquire and the same lease. -/
theorem EntryOk.of_leased {e' : Entry} {lease : Lease} (h : EntryOk config w offset q accountId e)
    (hacquire : e'.acquire = e.acquire) (he : e.lease = some lease) (he' : e'.lease = some lease) :
    EntryOk config w offset q accountId e' := by
  refine ⟨by rw [hacquire]; exact h.numbered, ?_, ?_, ?_, by rw [hacquire]; exact h.renewed,
    by rw [hacquire]; exact h.asked, by rw [hacquire]; exact h.kept⟩
  · intro sent hpending
    rw [hacquire, (h.leased lease he).1] at hpending
    simp at hpending
  · intro sent acquiredAt hanswer
    rw [hacquire] at hanswer
    refine ⟨(h.answered sent acquiredAt hanswer).1, fun n sentAt hbad => ?_⟩
    rw [hbad] at he'
    simp [Entry.lease] at he'
  · intro lease' hlease'
    rw [hacquire]
    obtain rfl := Option.some.inj (he'.symm.trans hlease')
    exact h.leased lease he

theorem FleetInv.opened (h : FleetInv config w) : FleetInv config (w.opened q accountId) := by
  unfold Fleet.opened
  simp only []
  split
  · rename_i n sentAt lease he
    split
    · exact h.deleteEntry q accountId
    · exact h.setEntry (h.live he) ((h.entries q accountId _ he).of_leased rfl rfl rfl)
  · exact h

theorem FleetInv.verified (h : FleetInv config w) (proven : Bool) :
    FleetInv config (w.verified q accountId proven) := by
  unfold Fleet.verified
  simp only []
  split
  · rename_i he
    exact h.setEntry (h.live he) ((h.entries q accountId _ he).of_leased rfl rfl rfl)
  · exact h

theorem FleetInv.moved (h : FleetInv config w) (away : Bool) :
    FleetInv config (w.moved q accountId away) := by
  unfold Fleet.moved
  simp only []
  split
  · rename_i he
    exact h.setEntry (h.live he) ((h.entries q accountId _ he).of_leased rfl rfl rfl)
  · exact h

/-- A lease given back was taken, and its entry is gone. -/
theorem FleetInv.giveBack (h : FleetInv config w) {lease : Lease}
    (he : (w.managers q).entries.lookup accountId = some e) (hlease : e.lease = some lease) :
    FleetInv config ((w.setManager q ((w.managers q).deleteEntry accountId)).send q
      (.releaseOne accountId lease.acquiredAt)) := by
  refine (h.deleteEntry q accountId).send ⟨by simp, ?_, by simp⟩
  intro a acquiredAt hstatement
  obtain ⟨rfl, rfl⟩ := LeaseStatement.releaseOne.inj hstatement
  refine ⟨((h.entries q accountId e he).leased lease hlease).2.1, ?_⟩
  simp only [Fleet.setManager, Function.update_self, SessionManager.deleteEntry]
  exact AList.lookup_erase _ _

theorem FleetInv.shed (h : FleetInv config w) : FleetInv config (w.shed q accountId) := by
  unfold Fleet.shed
  simp only []
  split
  · exact h.deleteEntry q accountId
  · rename_i he
    exact h.giveBack he rfl
  · rename_i he
    exact h.giveBack he rfl
  · exact h

theorem SessionManager.mem_leases {lease : AccountId × ℕ} (h : lease ∈ m.leases) :
    ∃ e, m.entries.lookup lease.1 = some e ∧ e.lease.isSome = true ∧ e.acquire = lease.2 := by
  obtain ⟨⟨a, e⟩, hmem, hlease⟩ := List.mem_filterMap.mp h
  simp only [] at hlease
  split at hlease
  · rename_i hsome
    obtain rfl := Option.some.inj hlease
    exact ⟨e, AList.mem_lookup_iff.mpr hmem, hsome, rfl⟩
  · simp at hlease

theorem FleetInv.renew (h : FleetInv config w) : FleetInv config (w.renew q) := by
  unfold Fleet.renew
  simp only []
  split
  · exact h
  have hsend : Sendable w q (.renew (w.managers q).leases) := by
    refine ⟨?_, by simp, by simp⟩
    intro leases hstatement lease hmem
    obtain rfl := LeaseStatement.renew.inj hstatement
    obtain ⟨e, he, hsome, hacquire⟩ := SessionManager.mem_leases hmem
    obtain ⟨l, hl⟩ := Option.isSome_iff_exists.mp hsome
    have hok := h.entries q lease.1 e he
    rw [← hacquire]
    exact ⟨hok.numbered, (hok.leased l hl).1⟩
  rw [send_setManager (by rfl)]
  have hsent := h.send hsend
  refine hsent.setManager rfl (hsent.entries q) (hsent.stopped q) (fun hstopping => hstopping) ?_
  intro n hn
  obtain rfl := Option.some.inj hn
  refine ⟨Nat.lt_succ_self _, ?_, ?_⟩
  · intro sent hpending
    rcases pending_send hpending with hold | ⟨-, rfl⟩
    · exact absurd (h.pending_lt _ sent hold) (lt_irrefl _)
    · rfl
  · intro sent answer hanswer
    exact absurd (h.answers_lt _ _ hanswer) (lt_irrefl _)

theorem Entry.acquire_extend (e : Entry) (untilAt : Instant) :
    (e.extend untilAt).acquire = e.acquire := by
  cases e with
  | starting => rfl
  | running => rfl

theorem Entry.lease_extend (e : Entry) (untilAt : Instant) :
    (e.extend untilAt).lease = e.lease.map (fun l => { l with untilAt := max l.untilAt untilAt }) := by
  cases e with
  | starting => rfl
  | running => rfl

/-- A renewed lease is trusted for longer. -/
theorem EntryOk.extend (h : EntryOk config w offset q accountId e) (hsome : e.lease.isSome = true)
    {untilAt : Instant} (htrusted : w.Trusted offset q accountId untilAt) :
    EntryOk config w offset q accountId (e.extend untilAt) := by
  obtain ⟨lease, hlease⟩ := Option.isSome_iff_exists.mp hsome
  obtain ⟨hran, htaken, hold⟩ := h.leased lease hlease
  have hlease' : (e.extend untilAt).lease = some { lease with untilAt := max lease.untilAt untilAt } := by
    rw [Entry.lease_extend, hlease, Option.map_some]
  have hmax : w.Trusted offset q accountId (max lease.untilAt untilAt) := by
    have hcovered := hold.max htrusted
    rwa [max_sub_sub_right] at hcovered
  refine ⟨?_, ?_, ?_, ?_, ?_, ?_, ?_⟩
  · rw [Entry.acquire_extend]
    exact h.numbered
  · intro sent hpending
    rw [Entry.acquire_extend, hran] at hpending
    simp at hpending
  · intro sent acquiredAt hanswer
    rw [Entry.acquire_extend] at hanswer
    refine ⟨(h.answered sent acquiredAt hanswer).1, fun n sentAt hbad => ?_⟩
    rw [hbad] at hlease'
    simp [Entry.lease] at hlease'
  · intro l hl
    rw [Entry.acquire_extend]
    obtain rfl := Option.some.inj (hlease'.symm.trans hl)
    exact ⟨hran, htaken, hmax⟩
  · rw [Entry.acquire_extend]
    exact h.renewed
  · rw [Entry.acquire_extend]
    exact h.asked
  · rw [Entry.acquire_extend]
    exact h.kept

theorem foldl_applyRenewal_empty {held : List AccountId} {untilAt : Instant}
    (leases : List (AccountId × ℕ)) :
    leases.foldl (SessionManager.applyRenewal held untilAt) ∅ = ∅ := by
  induction leases with
  | nil => rfl
  | cons lease leases ih => exact ih

/-- One account of an answer. -/
theorem applyRenewal_ok {n : ℕ} {leases : List (AccountId × ℕ)} {sentAt : Instant}
    {held : List AccountId} (hanswer : w.answers n = some (⟨q, .renew leases, sentAt⟩, .renewed held))
    {lease : AccountId × ℕ} (hmem : lease ∈ leases) {entries : Entries}
    (h : ∀ a e, entries.lookup a = some e → EntryOk config w offset q a e) {a : AccountId} {e : Entry}
    (he : (SessionManager.applyRenewal held (sentAt + config.fence) entries lease).lookup a = some e) :
    EntryOk config w offset q a e := by
  unfold SessionManager.applyRenewal at he
  split at he
  · exact h a e he
  rename_i old hold
  split at he
  · rename_i hsame
    by_cases ha : a = lease.1
    · subst ha
      split at he
      · rename_i hheld
        rw [AList.lookup_insert] at he
        obtain rfl := Option.some.inj he
        have hok := h lease.1 old hold
        refine hok.extend hsame.1 (hok.renewed n leases sentAt held hanswer ?_ hheld)
        rw [hsame.2]
        exact hmem
      · rw [AList.lookup_erase] at he
        simp at he
    · split at he
      · rw [AList.lookup_insert_ne ha] at he
        exact h a e he
      · rw [AList.lookup_erase_ne ha] at he
        exact h a e he
  · exact h a e he

/-- The whole answer. -/
theorem applyRenewals_ok {n : ℕ} {leases : List (AccountId × ℕ)} {sentAt : Instant}
    {held : List AccountId} (hanswer : w.answers n = some (⟨q, .renew leases, sentAt⟩, .renewed held))
    {rest : List (AccountId × ℕ)} (hrest : ∀ lease ∈ rest, lease ∈ leases) {entries : Entries}
    (h : ∀ a e, entries.lookup a = some e → EntryOk config w offset q a e) :
    ∀ a e, (rest.foldl (SessionManager.applyRenewal held (sentAt + config.fence)) entries).lookup a =
      some e → EntryOk config w offset q a e := by
  induction rest generalizing entries with
  | nil => exact h
  | cons lease rest ih =>
    refine ih (fun l hl => hrest l (List.mem_cons_of_mem _ hl)) ?_
    intro a e he
    exact applyRenewal_ok hanswer (hrest lease List.mem_cons_self) h he

theorem FleetInv.renewed (h : FleetInv config w) : FleetInv config (w.renewed config q) := by
  unfold Fleet.renewed
  simp only []
  split
  · exact h
  rename_i n hrenewing
  split
  · rename_i ownerId leases sentAt held hanswer
    obtain rfl : ownerId = q := (h.renewing q n hrenewing).answer _ _ hanswer
    refine h.setManager rfl ?_ ?_ (fun hstopping => hstopping) (by simp)
    · exact applyRenewals_ok hanswer (fun _ hl => hl) (h.entries ownerId)
    · intro hstopping
      have hempty := h.stopped ownerId hstopping
      simp only [hempty]
      exact foldl_applyRenewal_empty leases
  · exact h

theorem FleetInv.renewGaveUp (h : FleetInv config w) : FleetInv config (w.renewGaveUp q) :=
  h.setManager rfl (h.entries q) (h.stopped q) (fun hstopping => hstopping) (by simp)

theorem FleetInv.crash (h : FleetInv config w) : FleetInv config (w.crash q) :=
  h.setManager rfl (by simp) (fun _ => rfl) (fun _ => rfl) (by simp)

theorem FleetInv.stop (h : FleetInv config w) : FleetInv config (w.stop q) := by
  unfold Fleet.stop
  simp only []
  split
  · exact h
  have hset : FleetInv config (w.setManager q
      { w.managers q with stopping := true, entries := ∅, renewing := none }) :=
    h.setManager rfl (by simp) (fun _ => rfl) (fun _ => rfl) (by simp)
  refine hset.send ⟨by simp, by simp, fun _ => ?_⟩
  simp [Fleet.setManager]

/-- Time passes. -/
theorem FleetInv.pass (h : FleetInv config w) (duration : ℕ) :
    FleetInv config { w with now := w.now + duration } where
  entries := by
    intro p a e he
    have hok := h.entries p a e he
    have hmono : ∀ untilAt, w.Trusted (w.managers p).offset p a untilAt →
        Fleet.Trusted { w with now := w.now + duration } (w.managers p).offset p a untilAt := by
      intro untilAt htrusted
      exact htrusted.mono (by simp)
    refine ⟨hok.numbered, hok.waiting, ?_, ?_, ?_, hok.asked, hok.kept⟩
    · intro sent acquiredAt hanswer
      obtain ⟨htaken, htrusted⟩ := hok.answered sent acquiredAt hanswer
      exact ⟨htaken, fun n sentAt he => hmono _ (htrusted n sentAt he)⟩
    · intro lease hlease
      obtain ⟨hran, htaken, htrusted⟩ := hok.leased lease hlease
      exact ⟨hran, htaken, hmono _ htrusted⟩
    · intro n leases sentAt held hanswer hmem hheld
      exact hmono _ (hok.renewed n leases sentAt held hanswer hmem hheld)
  pending_lt := h.pending_lt
  answers_lt := h.answers_lt
  once := h.once
  asked_lt := h.asked_lt
  stamped := h.stamped
  stopped := h.stopped
  released := h.released
  renewing := fun p n hn => ⟨(h.renewing p n hn).lt, (h.renewing p n hn).pending, (h.renewing p n hn).answer⟩

end Frames

/-! ## One statement at the database -/

section Running

variable {config : LeaseConfig} {w : Fleet} {p : OwnerId} {a : AccountId} {e : Entry} {n : ℕ}
  {sent : Sent} {now : Instant}

theorem pending_ran {k : ℕ} {s : Sent} (h : (w.ran config n sent now).pending k = some s) :
    k ≠ n ∧ w.pending k = some s := by
  by_cases hk : k = n
  · subst hk
    simp [Fleet.ran] at h
  · simp only [Fleet.ran, Function.update_of_ne hk] at h
    exact ⟨hk, h⟩

theorem pending_ran_none {k : ℕ} (h : w.pending k = none) :
    (w.ran config n sent now).pending k = none := by
  by_contra hne
  obtain ⟨s, hs⟩ := Option.ne_none_iff_exists'.mp hne
  have hbad := h.symm.trans (pending_ran hs).2
  simp at hbad

theorem answers_ran {k : ℕ} {s : Sent} {r : LeaseAnswer}
    (h : (w.ran config n sent now).answers k = some (s, r)) :
    (k ≠ n ∧ w.answers k = some (s, r)) ∨
      (k = n ∧ s = sent ∧ r = (sent.execute config now w.rows).1) := by
  by_cases hk : k = n
  · subst hk
    simp only [Fleet.ran, Function.update_self] at h
    obtain ⟨rfl, rfl⟩ := Prod.mk.injEq _ _ _ _ ▸ Option.some.inj h
    exact .inr ⟨rfl, rfl, rfl⟩
  · simp only [Fleet.ran, Function.update_of_ne hk] at h
    exact .inl ⟨hk, h⟩

theorem taken_ran {x : OwnerId × AccountId × Instant} (h : x ∈ w.taken) :
    x ∈ (w.ran config n sent now).taken :=
  List.mem_append_right _ h

theorem asked_ran (hpending : w.pending n = some sent) {lease : AccountId × ℕ}
    (h : (w.ran config n sent now).Asked p lease) : w.Asked p lease := by
  obtain ⟨k, leases, sentAt, hmem, hk | ⟨r, hk⟩⟩ := h
  · exact ⟨k, leases, sentAt, hmem, .inl (pending_ran hk).2⟩
  · rcases answers_ran hk with ⟨-, hold⟩ | ⟨rfl, rfl, -⟩
    · exact ⟨k, leases, sentAt, hmem, .inr ⟨r, hold⟩⟩
    · exact ⟨k, leases, sentAt, hmem, .inl hpending⟩

/-- **A trusted lease of an entry whose acquire has run survives a statement.** -/
theorem FleetInv.trusted_ran (h : FleetInv config w) (hpending : w.pending n = some sent)
    (hnow : now ≤ w.now) (he : (w.managers p).entries.lookup a = some e)
    (hran : w.pending e.acquire = none) {untilAt : Instant}
    (htrusted : w.Trusted (w.managers p).offset p a untilAt) :
    (w.ran config n sent now).Trusted (w.managers p).offset p a untilAt := by
  refine htrusted.step Sent.step_execute hnow ?_
  rintro rfl hempties
  have hrow : (w.ran config n sent now).rows a = none := by simpa [SessionLeases.held] using hempties
  rcases Sent.execute_empties hrow with hnone | hrelease | ⟨acquiredAt, l, hrelease, hl, howner, hstamp⟩
  · simp [SessionLeases.held, hnone]
  · -- a process that releases everything holds no entry
    have hstopping := h.released n sent.ownerId sent.sentAt (by rw [hpending, ← hrelease])
    rw [h.live he] at hstopping
    simp at hstopping
  · have hne := (h.entries _ a e he).kept hran n acquiredAt sent.sentAt l
      (by rw [hpending, ← hrelease]) hl howner
    exact absurd hstamp hne

/-- The row that a taken or renewed lease has covers it up to the fence. -/
theorem trusted_of_row {offset sentAt : Instant} {l : BrokerSessionLease} {w' : Fleet}
    (hrow : w'.rows a = some l) (howner : l.ownerId = p) (hsent : sentAt - offset ≤ now)
    (hexpires : now + config.ttl ≤ l.expiresAt) : w'.Trusted offset p a (sentAt + config.fence) := by
  refine Leases.Covered.of_held (SessionLeases.held_eq_some.mpr ⟨l, hrow, rfl⟩) howner ?_
  have hfence := config.fence_lt_ttl
  show sentAt + config.fence - offset ≤ l.expiresAt
  have hbound : sentAt + config.fence - offset ≤ now + config.ttl := by
    calc sentAt + config.fence - offset = (sentAt - offset) + config.fence := by ring
      _ ≤ now + config.ttl := add_le_add hsent hfence.le
  exact hbound.trans hexpires

/-- **What one statement leaves of an entry's grounds.** -/
theorem FleetInv.entry_ran (h : FleetInv config w) (hpending : w.pending n = some sent)
    (hsent : sent.sentAt - (w.managers sent.ownerId).offset ≤ now) (hnow : now ≤ w.now)
    (hnodup : (w.ran config n sent now).taken.Nodup)
    (he : (w.managers p).entries.lookup a = some e) :
    EntryOk config (w.ran config n sent now) (w.managers p).offset p a e := by
  have hok := h.entries p a e he
  -- a lease just taken is no lease taken before
  have hfresh : sent.taken (sent.execute config now w.rows).1 = some (p, a, now) →
      (p, a, now) ∉ w.taken := by
    intro htaken hmem
    have hcons : (w.ran config n sent now).taken = (p, a, now) :: w.taken := by
      simp [Fleet.ran, htaken]
    rw [hcons] at hnodup
    exact (List.nodup_cons.mp hnodup).1 hmem
  refine ⟨hok.numbered, ?_, ?_, ?_, ?_, ?_, ?_⟩
  · intro s hs
    exact hok.waiting s (pending_ran hs).2
  · intro s acquiredAt hanswer
    rcases answers_ran hanswer with ⟨-, hold⟩ | ⟨hn, rfl, hr⟩
    · obtain ⟨htaken, htrusted⟩ := hok.answered s acquiredAt hold
      exact ⟨taken_ran htaken, fun k sentAt hstarting =>
        h.trusted_ran hpending hnow he (h.ran hold) (htrusted k sentAt hstarting)⟩
    · obtain ⟨sentAt, hstarting, rfl⟩ := hok.waiting s (by rw [hn]; exact hpending)
      simp only [Sent.execute] at hr
      have hr := LeaseAnswer.acquired.inj hr
      rcases SessionLeases.acquire_cases w.rows a p config.ttl now with
        ⟨hanswer', l, hrows, howner, -, hexpires, -⟩ | ⟨hanswer', -⟩
      · obtain rfl := Option.some.inj (hr.trans hanswer')
        refine ⟨?_, ?_⟩
        · simp [Fleet.ran, Sent.execute, Sent.taken, hanswer']
        · intro k sentAt' hstarting'
          obtain ⟨-, rfl, -⟩ := Entry.starting.inj (hstarting.symm.trans hstarting')
          refine trusted_of_row (l := l) ?_ howner hsent hexpires
          simp [Fleet.ran, Sent.execute, hrows]
      · rw [hanswer'] at hr
        simp at hr
  · intro lease hlease
    obtain ⟨hran, htaken, htrusted⟩ := hok.leased lease hlease
    exact ⟨pending_ran_none hran, taken_ran htaken, h.trusted_ran hpending hnow he hran htrusted⟩
  · intro k leases sentAt held hanswer hmem hheld
    rcases answers_ran hanswer with ⟨-, hold⟩ | ⟨rfl, rfl, hr⟩
    · have hran := hok.asked ⟨k, leases, sentAt, hmem, .inr ⟨_, hold⟩⟩
      exact h.trusted_ran hpending hnow he hran (hok.renewed k leases sentAt held hold hmem hheld)
    · simp only [Sent.execute] at hr
      obtain rfl := LeaseAnswer.renewed.inj hr
      obtain ⟨l, hrow, howner, hexpires⟩ := SessionLeases.renew_held hheld
      exact trusted_of_row hrow howner hsent hexpires
  · intro hasked
    exact pending_ran_none (hok.asked (asked_ran hpending hasked))
  · intro hran k acquiredAt sentAt l hrelease hrow howner heq
    have hrelease := (pending_ran hrelease).2
    have hstamped := h.stamped k p a acquiredAt sentAt hrelease
    have hrow : (sent.execute config now w.rows).2 a = some l := hrow
    by_cases hn : e.acquire = n
    · -- the entry's own acquire: it took the lease, or the row is another owner's
      obtain ⟨sentAt', -, rfl⟩ := hok.waiting sent (by rw [hn]; exact hpending)
      simp only [Sent.execute] at hrow
      rcases SessionLeases.acquire_cases w.rows a p config.ttl now with
        ⟨hanswer, l', hrows, -, hstamp, -⟩ | ⟨-, hrows, old, hold, -, hother⟩
      · rw [hrows, Function.update_self] at hrow
        obtain rfl := Option.some.inj hrow
        refine hfresh ?_ ?_
        · simp [Sent.execute, Sent.taken, hanswer]
        · rw [← hstamp, heq]
          exact hstamped
      · rw [hrows] at hrow
        obtain rfl := Option.some.inj (hold.symm.trans hrow)
        exact hother howner
    · have hran : w.pending e.acquire = none := by
        simpa [Fleet.ran, Function.update_of_ne hn] using hran
      rcases Sent.execute_row hrow with ⟨old, hold, holdOwner, holdStamp⟩ |
        ⟨-, hby, hstamp, htaken⟩
      · exact hok.kept hran k acquiredAt sentAt old hrelease hold (holdOwner.trans howner)
          (holdStamp.trans heq)
      · rw [← hby, howner] at htaken
        refine hfresh htaken ?_
        rw [← hstamp, heq]
        exact hstamped

/-- **One statement at the database.** -/
theorem FleetInv.ran_ok (h : FleetInv config w) (hpending : w.pending n = some sent)
    (hsent : sent.sentAt - (w.managers sent.ownerId).offset ≤ now) (hnow : now ≤ w.now)
    (hnodup : (w.ran config n sent now).taken.Nodup) : FleetInv config (w.ran config n sent now) where
  entries := fun _ _ _ he => h.entry_ran hpending hsent hnow hnodup he
  pending_lt := fun k s hk => h.pending_lt k s (pending_ran hk).2
  answers_lt := by
    rintro k ⟨s, r⟩ hk
    rcases answers_ran hk with ⟨-, hold⟩ | ⟨rfl, -⟩
    · exact h.answers_lt k _ hold
    · exact h.pending_lt k sent hpending
  once := by
    intro k s hk
    obtain ⟨hne, hold⟩ := pending_ran hk
    simp only [Fleet.ran, Function.update_of_ne hne]
    exact h.once k s hold
  asked_lt := fun p lease hasked => h.asked_lt p lease (asked_ran hpending hasked)
  stamped := fun k p a acquiredAt sentAt hk =>
    taken_ran (h.stamped k p a acquiredAt sentAt (pending_ran hk).2)
  stopped := h.stopped
  released := fun k p sentAt hk => h.released k p sentAt (pending_ran hk).2
  renewing := by
    intro p k hk
    have hown := h.renewing p k hk
    refine ⟨hown.lt, fun s hs => hown.pending s (pending_ran hs).2, ?_⟩
    intro s r hr
    rcases answers_ran hr with ⟨-, hold⟩ | ⟨rfl, rfl, -⟩
    · exact hown.answer s r hold
    · exact hown.pending s hpending

end Running

/-! ## Runs -/

section Runs

variable {config : LeaseConfig} {w : Fleet}

theorem FleetInv.initial (now : Instant) (rows : SessionLeases) (offsets : OwnerId → Instant) :
    FleetInv config (Fleet.initial now rows offsets) where
  entries := by
    intro p a e he
    simp [Fleet.initial] at he
  pending_lt := by simp [Fleet.initial]
  answers_lt := by simp [Fleet.initial]
  once := by simp [Fleet.initial]
  asked_lt := by
    rintro p lease ⟨n, leases, sentAt, -, hpending | ⟨r, hanswer⟩⟩
    · simp [Fleet.initial] at hpending
    · simp [Fleet.initial] at hanswer
  stamped := by simp [Fleet.initial]
  stopped := by simp [Fleet.initial]
  released := by simp [Fleet.initial]
  renewing := by simp [Fleet.initial]

/-- An event takes no lease off the log. -/
theorem taken_act (config : LeaseConfig) (w : Fleet) (event : FleetEvent) :
    ∃ new, (w.act config event).taken = new ++ w.taken := by
  cases event with
  | execute n now =>
    simp only [Fleet.act, Fleet.execute]
    split
    · exact ⟨[], rfl⟩
    · split
      · exact ⟨_, rfl⟩
      · exact ⟨[], rfl⟩
  | startOne p a =>
    simp only [Fleet.act, Fleet.startOne]
    split <;> exact ⟨[], rfl⟩
  | acquired p a =>
    simp only [Fleet.act, Fleet.acquired]
    split
    · split <;> exact ⟨[], rfl⟩
    · exact ⟨[], rfl⟩
  | opened p a =>
    simp only [Fleet.act, Fleet.opened]
    split
    · split <;> exact ⟨[], rfl⟩
    · exact ⟨[], rfl⟩
  | verified p a proven =>
    simp only [Fleet.act, Fleet.verified]
    split <;> exact ⟨[], rfl⟩
  | moved p a away =>
    simp only [Fleet.act, Fleet.moved]
    split <;> exact ⟨[], rfl⟩
  | shed p a =>
    simp only [Fleet.act, Fleet.shed]
    split <;> exact ⟨[], rfl⟩
  | renew p =>
    simp only [Fleet.act, Fleet.renew]
    split <;> exact ⟨[], rfl⟩
  | renewed p =>
    simp only [Fleet.act, Fleet.renewed]
    split
    · exact ⟨[], rfl⟩
    · split <;> exact ⟨[], rfl⟩
  | stop p =>
    simp only [Fleet.act, Fleet.stop]
    split <;> exact ⟨[], rfl⟩
  | pass | drop | renewGaveUp | crash => exact ⟨[], rfl⟩

/-- **One event**, while no two acquires took one lease. -/
theorem FleetInv.act (h : FleetInv config w) (event : FleetEvent)
    (hnodup : (w.act config event).taken.Nodup) : FleetInv config (w.act config event) := by
  cases event with
  | pass duration => exact h.pass duration
  | execute n now =>
    simp only [Fleet.act, Fleet.execute] at hnodup ⊢
    split
    · exact h
    · rename_i sent hpending
      split
      · rename_i hguard
        simp only [hpending, if_pos hguard] at hnodup
        exact h.ran_ok hpending hguard.1 hguard.2 hnodup
      · exact h
  | startOne p a => exact h.startOne
  | acquired p a => exact h.acquired
  | opened p a => exact h.opened
  | verified p a proven => exact h.verified proven
  | moved p a away => exact h.moved away
  | drop p a => exact h.deleteEntry p a
  | shed p a => exact h.shed
  | renew p => exact h.renew
  | renewed p => exact h.renewed
  | renewGaveUp p => exact h.renewGaveUp
  | stop p => exact h.stop
  | crash p => exact h.crash

/-- A session rests on a lease that is trusted now. -/
theorem FleetInv.sessionFor (h : FleetInv config w) {p : OwnerId} {a : AccountId}
    (hsession : w.sessionFor p a = true) :
    ∃ bound, Leases.Covered (w.rows.held a) p bound w.now ∧ w.now < bound := by
  unfold Fleet.sessionFor at hsession
  split at hsession
  · rename_i n lease verified shedding he
    simp only [Bool.and_eq_true, decide_eq_true_eq] at hsession
    refine ⟨_, ((h.entries p a _ he).leased lease rfl).2.2, ?_⟩
    exact lt_sub_iff_add_lt.mpr hsession.2
  · simp at hsession

/-- **Two processes never both have a session of one account.** -/
theorem FleetInv.exclusive (h : FleetInv config w) {p q : OwnerId} {a : AccountId}
    (hp : w.sessionFor p a = true) (hq : w.sessionFor q a = true) : p = q := by
  obtain ⟨bound, hcovered, hlive⟩ := h.sessionFor hp
  obtain ⟨bound', hcovered', hlive'⟩ := h.sessionFor hq
  exact hcovered.unique hcovered' hlive hlive'

/-- **A renewal or a release leaves every row of another owner**, however late it runs. -/
theorem execute_foreign {n : ℕ} {now : Instant} {sent : Sent} {a : AccountId} {l : BrokerSessionLease}
    (hpending : w.pending n = some sent) (hkind : ∀ id, sent.statement ≠ .acquire id)
    (hrow : w.rows a = some l) (hother : l.ownerId ≠ sent.ownerId) :
    (w.execute config n now).rows a = some l := by
  simp only [Fleet.execute, hpending]
  split
  · simp only [Fleet.ran, Sent.execute]
    split
    · rename_i id hstatement
      exact absurd hstatement (hkind id)
    · exact SessionLeases.renew_foreign hrow hother _
    · exact SessionLeases.release_foreign hrow hother
    · exact SessionLeases.releaseOne_foreign hrow hother _
  · exact hrow

end Runs

/-- **Broker session leases.**  In every run of the processes, the database and time: while no two acquires
of one process took one account at one instant of the database's clock, two processes never both have a
session of an account; and a late release or renewal never touches a lease that another owner has. -/
theorem one_session (config : LeaseConfig) (now : Instant) (rows : SessionLeases)
    (offsets : OwnerId → Instant) (events : List FleetEvent) :
    ((run (Fleet.act config) (Fleet.initial now rows offsets) events).taken.Nodup → ∀ p q a,
      (run (Fleet.act config) (Fleet.initial now rows offsets) events).sessionFor p a = true →
      (run (Fleet.act config) (Fleet.initial now rows offsets) events).sessionFor q a = true → p = q) ∧
    ∀ n now' sent a l,
      (run (Fleet.act config) (Fleet.initial now rows offsets) events).pending n = some sent →
      (∀ id, sent.statement ≠ .acquire id) →
      (run (Fleet.act config) (Fleet.initial now rows offsets) events).rows a = some l →
      l.ownerId ≠ sent.ownerId →
      ((run (Fleet.act config) (Fleet.initial now rows offsets) events).execute config n now').rows a =
        some l := by
  have hinv : (run (Fleet.act config) (Fleet.initial now rows offsets) events).taken.Nodup →
      FleetInv config (run (Fleet.act config) (Fleet.initial now rows offsets) events) := by
    refine run_induction (P := fun w => w.taken.Nodup → FleetInv config w)
      (fun _ => FleetInv.initial now rows offsets) ?_ events
    intro w event ih hnodup
    obtain ⟨new, hnew⟩ := taken_act config w event
    have hold : w.taken.Nodup := by
      have hboth := hnodup
      rw [hnew] at hboth
      exact hboth.of_append_right
    exact (ih hold).act event hnodup
  refine ⟨fun hdistinct p q a hp hq => (hinv hdistinct).exclusive hp hq, ?_⟩
  intro n now' sent a l hpending hkind hrow hother
  exact execute_foreign hpending hkind hrow hother

/-! ### Two runs -/

def leaseConfig : LeaseConfig where
  ttl := 30
  fence := 25
  fence_lt_ttl := by decide

/-- A process opens its session of an account by the statement `n`. -/
def openSession (ownerId : OwnerId) (accountId : AccountId) (n : ℕ) (now : Instant) : List FleetEvent :=
  [.startOne ownerId accountId, .execute n now, .acquired ownerId accountId, .opened ownerId accountId,
   .verified ownerId accountId true]

/-- All in one instant: the account moves away and back while it starts, and the release of the first
lease runs after the second acquire. -/
def movedAndBack : List FleetEvent :=
  [.startOne 0 7, .execute 0 0, .acquired 0 7, .shed 0 7] ++ openSession 0 7 2 0 ++ [.execute 1 0] ++
    openSession 1 7 3 0

theorem two_sessions_of_one_instant :
    (run (Fleet.act leaseConfig) (Fleet.initial 0 (fun _ => none) (fun _ => 0)) movedAndBack).sessionFor 0 7 =
        true ∧
      (run (Fleet.act leaseConfig) (Fleet.initial 0 (fun _ => none) (fun _ => 0)) movedAndBack).sessionFor
        1 7 = true := by
  decide

/-- A process is silent past its lease; another takes it over. -/
def takenOver : List FleetEvent :=
  openSession 0 7 0 0 ++ [.renew 0, .pass 30] ++ openSession 1 7 2 30 ++ [.execute 1 30, .renewed 0]

theorem one_session_takenOver :
    (run (Fleet.act leaseConfig) (Fleet.initial 0 (fun _ => none) (fun p => 100 * p)) takenOver).sessionFor
      0 7 = false := by
  have hother : (run (Fleet.act leaseConfig) (Fleet.initial 0 (fun _ => none) (fun p => 100 * p))
      takenOver).sessionFor 1 7 = true := by decide
  have hdistinct : (run (Fleet.act leaseConfig) (Fleet.initial 0 (fun _ => none) (fun p => 100 * p))
      takenOver).taken.Nodup := by decide
  by_contra hsession
  have heq := (one_session leaseConfig 0 (fun _ => none) (fun p => 100 * p) takenOver).1 hdistinct 0 1 7
    (by simpa using hsession) hother
  simp at heq

end Binarius
