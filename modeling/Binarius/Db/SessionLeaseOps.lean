import Mathlib.Tactic
import Binarius.Db.Schema
import Binarius.Lib.Leases

/-!
# Db.SessionLeaseOps — the statements of the broker session lease
(packages/db: session-lease-ops.ts)

Each is one autocommit statement; `now` is what it reads as the database's clock.  An instant is a count
of that clock's own units, so two leases of one unit have one `acquired_at`.

* `SessionLeases.step_acquire`, `step_renew`, `step_release`, `step_releaseOne`: each is a `Leases.Step`
  of its owner.
* `SessionLeases.renew_foreign`, `release_foreign`, `releaseOne_foreign`: **a row of another owner is
  never written or deleted by a renewal or a release**.
-/

namespace Binarius

open Lib

/-- A start of the worker process: the id is drawn at start. -/
abbrev OwnerId := ℕ

abbrev Instant := ℤ

/-- A row of broker_session_leases. -/
structure BrokerSessionLease where
  ownerId : OwnerId
  acquiredAt : Instant
  expiresAt : Instant
  deriving DecidableEq, Repr

/-- The table, by its key broker_account_id. -/
abbrev SessionLeases := AccountId → Option BrokerSessionLease

namespace SessionLeases

variable (rows : SessionLeases)

/-- Takes a free or lapsed lease, or moves the owner's own; a refusal returns nothing. -/
def acquire (accountId : AccountId) (ownerId : OwnerId) (ttl now : Instant) :
    Option Instant × SessionLeases :=
  let excluded : BrokerSessionLease := { ownerId := ownerId, acquiredAt := now, expiresAt := now + ttl }
  match rows accountId with
  | none => (some now, Function.update rows accountId (some excluded))
  | some l =>
    if l.expiresAt ≤ now ∨ l.ownerId = excluded.ownerId then
      (some now, Function.update rows accountId
        (some { excluded with expiresAt := max l.expiresAt excluded.expiresAt }))
    else (none, rows)

/-- The predicate of a renewal. -/
def renewable (ownerId : OwnerId) (now : Instant) (l : BrokerSessionLease) : Bool :=
  decide (l.ownerId = ownerId) && decide (now < l.expiresAt)

/-- The ids still held. -/
def renew (ownerId : OwnerId) (accountIds : List AccountId) (ttl now : Instant) :
    List AccountId × SessionLeases :=
  (accountIds.filter (fun id => (rows id).any (renewable ownerId now)),
    fun id => (rows id).map (fun l =>
      if id ∈ accountIds ∧ renewable ownerId now l = true then
        { l with expiresAt := max l.expiresAt (now + ttl) }
      else l))

/-- Every lease of the owner. -/
def release (ownerId : OwnerId) : SessionLeases :=
  fun id => (rows id).filter (fun l => l.ownerId ≠ ownerId)

/-- One account's lease, while it is still the one of that acquire. -/
def releaseOne (accountId : AccountId) (ownerId : OwnerId) (acquiredAt : Instant) : SessionLeases :=
  fun id => (rows id).filter (fun l =>
    !(decide (id = accountId) && decide (l.ownerId = ownerId) && decide (l.acquiredAt = acquiredAt)))

/-- The owner and the end of an account's lease. -/
def held (id : AccountId) : Option (Leases.Held OwnerId Instant) :=
  (rows id).map (fun l => ⟨l.ownerId, l.expiresAt⟩)

variable {rows}

/-! ### What a statement does to a row -/

section Statements

variable {accountId : AccountId} {ownerId : OwnerId} {ttl now : Instant}

theorem held_eq_some {id : AccountId} {h : Leases.Held OwnerId Instant} :
    rows.held id = some h ↔ ∃ l, rows id = some l ∧ (⟨l.ownerId, l.expiresAt⟩ : Leases.Held _ _) = h := by
  simp [held]

/-- An acquire took the lease, or found another owner's live one. -/
theorem acquire_cases (rows : SessionLeases) (accountId : AccountId) (ownerId : OwnerId)
    (ttl now : Instant) :
    ((rows.acquire accountId ownerId ttl now).1 = some now ∧
      ∃ l, (rows.acquire accountId ownerId ttl now).2 = Function.update rows accountId (some l) ∧
        l.ownerId = ownerId ∧ l.acquiredAt = now ∧ now + ttl ≤ l.expiresAt ∧
        ∀ old, rows accountId = some old →
          (old.expiresAt ≤ now ∨ old.ownerId = ownerId) ∧ old.expiresAt ≤ l.expiresAt) ∨
    (rows.acquire accountId ownerId ttl now).1 = none ∧
      (rows.acquire accountId ownerId ttl now).2 = rows ∧
      ∃ old, rows accountId = some old ∧ now < old.expiresAt ∧ old.ownerId ≠ ownerId := by
  unfold acquire
  cases hrow : rows accountId with
  | none =>
    refine .inl ⟨rfl, _, rfl, rfl, rfl, le_rfl, ?_⟩
    intro old hold
    simp at hold
  | some old =>
    simp only []
    by_cases hfree : old.expiresAt ≤ now ∨ old.ownerId = ownerId
    · rw [if_pos hfree]
      refine .inl ⟨rfl, _, rfl, rfl, rfl, le_max_right _ _, ?_⟩
      intro old' hold
      obtain rfl := Option.some.inj hold
      exact ⟨hfree, le_max_left _ _⟩
    · rw [if_neg hfree]
      obtain ⟨hlive, hother⟩ := not_or.mp hfree
      exact .inr ⟨rfl, rfl, old, rfl, not_le.mp hlive, hother⟩

/-- An acquire writes its own account's row only. -/
theorem acquire_of_ne {id : AccountId} (hne : id ≠ accountId) :
    (rows.acquire accountId ownerId ttl now).2 id = rows id := by
  rcases acquire_cases rows accountId ownerId ttl now with ⟨-, l, hrows, -⟩ | ⟨-, hrows, -⟩
  · rw [hrows, Function.update_of_ne hne]
  · rw [hrows]

theorem renew_row (rows : SessionLeases) (ownerId : OwnerId) (ttl now : Instant) (id : AccountId)
    (accountIds : List AccountId) :
    (rows.renew ownerId accountIds ttl now).2 id = rows id ∨
      ∃ l, rows id = some l ∧ l.ownerId = ownerId ∧
        (rows.renew ownerId accountIds ttl now).2 id =
          some { l with expiresAt := max l.expiresAt (now + ttl) } := by
  cases hrow : rows id with
  | none => exact .inl (by simp [renew, hrow])
  | some l =>
    by_cases hguard : id ∈ accountIds ∧ renewable ownerId now l = true
    · have howner : l.ownerId = ownerId := by
        have hrenewable := hguard.2
        simp only [renewable, Bool.and_eq_true, decide_eq_true_eq] at hrenewable
        exact hrenewable.1
      exact .inr ⟨l, rfl, howner, by simp [renew, hrow, hguard]⟩
    · refine .inl ?_
      simp only [renew, hrow, Option.map_some]
      rw [if_neg hguard]

/-- A renewed id has its row, moved on. -/
theorem renew_held {id : AccountId} {accountIds : List AccountId}
    (h : id ∈ (rows.renew ownerId accountIds ttl now).1) :
    ∃ l, (rows.renew ownerId accountIds ttl now).2 id = some l ∧ l.ownerId = ownerId ∧
      now + ttl ≤ l.expiresAt := by
  obtain ⟨hmem, hany⟩ := List.mem_filter.mp h
  obtain ⟨l, hrow, hguard⟩ := Option.any_eq_true _ _ |>.mp hany
  have howner : l.ownerId = ownerId := by
    simp only [renewable, Bool.and_eq_true, decide_eq_true_eq] at hguard
    exact hguard.1
  exact ⟨{ l with expiresAt := max l.expiresAt (now + ttl) }, by simp [renew, hrow, hmem, hguard],
    howner, le_max_right _ _⟩

/-- What is left of a row by a deletion is the row. -/
theorem filter_row (row : Option BrokerSessionLease) (keep : BrokerSessionLease → Bool) :
    row.filter keep = row ∨ ∃ l, row = some l ∧ keep l = false ∧ row.filter keep = none := by
  cases row with
  | none => exact .inl rfl
  | some l =>
    cases hkeep : keep l with
    | true => exact .inl (by simp [Option.filter, hkeep])
    | false => exact .inr ⟨l, rfl, hkeep, by simp [Option.filter, hkeep]⟩

/-! ### Each is a step of its owner -/

theorem step_acquire (id : AccountId) :
    Leases.Step ownerId now (rows.held id)
      ((rows.acquire accountId ownerId ttl now).2.held id) := by
  by_cases hid : id = accountId
  · subst hid
    rcases acquire_cases rows id ownerId ttl now with ⟨-, l, hrows, howner, -, -, hold⟩ | ⟨-, hrows, -⟩
    · have hheld : (rows.acquire id ownerId ttl now).2.held id = some ⟨ownerId, l.expiresAt⟩ := by
        rw [hrows, held, Function.update_self, Option.map_some, howner]
      rw [hheld]
      refine .take ?_ ?_
      · intro h hh
        obtain ⟨old, hrow, rfl⟩ := held_eq_some.mp hh
        exact (hold old hrow).1
      · intro h hh
        obtain ⟨old, hrow, rfl⟩ := held_eq_some.mp hh
        exact (hold old hrow).2
    · rw [hrows]
      exact .keep _
  · have hsame : (rows.acquire accountId ownerId ttl now).2.held id = rows.held id := by
      rw [held, acquire_of_ne hid, held]
    rw [hsame]
    exact .keep _

theorem step_renew (id : AccountId) (accountIds : List AccountId) :
    Leases.Step ownerId now (rows.held id) ((rows.renew ownerId accountIds ttl now).2.held id) := by
  rcases renew_row rows ownerId ttl now id accountIds with
    hsame | ⟨l, hrow, howner, hnew⟩
  · rw [held, held, hsame]
    exact .keep _
  · rw [held, held, hnew, hrow, Option.map_some, Option.map_some, howner]
    refine .take ?_ ?_
    · intro h hh
      obtain rfl := Option.some.inj hh
      exact .inr rfl
    · intro h hh
      obtain rfl := Option.some.inj hh
      exact le_max_left _ _

theorem step_filter {id : AccountId} {keep : BrokerSessionLease → Bool}
    (hown : ∀ l, keep l = false → l.ownerId = ownerId) (now : Instant) :
    Leases.Step ownerId now (rows.held id)
      (((rows id).filter keep).map (fun l => ⟨l.ownerId, l.expiresAt⟩)) := by
  rcases filter_row (rows id) keep with hsame | ⟨l, hrow, hkeep, hnone⟩
  · rw [hsame]
    exact .keep _
  · rw [hnone, held, hrow]
    exact .free (hown l hkeep)

theorem step_release (id : AccountId) (now : Instant) :
    Leases.Step ownerId now (rows.held id) ((rows.release ownerId).held id) := by
  refine step_filter (fun l hkeep => ?_) now
  simpa using hkeep

theorem step_releaseOne (id : AccountId) (acquiredAt : Instant) (now : Instant) :
    Leases.Step ownerId now (rows.held id)
      ((rows.releaseOne accountId ownerId acquiredAt).held id) := by
  refine step_filter (fun l hkeep => ?_) now
  simp only [Bool.not_eq_eq_eq_not, Bool.not_false, Bool.and_eq_true, decide_eq_true_eq] at hkeep
  exact hkeep.1.2

/-! ### Rows of other owners -/

section Foreign

variable {id : AccountId} {l : BrokerSessionLease} (hrow : rows id = some l) (hother : l.ownerId ≠ ownerId)

include hrow hother

theorem renew_foreign (accountIds : List AccountId) :
    (rows.renew ownerId accountIds ttl now).2 id = some l := by
  have hguard : renewable ownerId now l = false := by simp [renewable, hother]
  simp [renew, hrow, hguard]

theorem release_foreign : rows.release ownerId id = some l := by
  simp [release, hrow, Option.filter, hother]

theorem releaseOne_foreign (acquiredAt : Instant) :
    rows.releaseOne accountId ownerId acquiredAt id = some l := by
  simp [releaseOne, hrow, Option.filter, hother]

end Foreign

/-- A late release of an acquire that is not the row's deletes nothing of it. -/
theorem releaseOne_of_ne {id : AccountId} {acquiredAt : Instant}
    (hne : ∀ l, rows id = some l → l.ownerId = ownerId → id = accountId → l.acquiredAt ≠ acquiredAt) :
    rows.releaseOne accountId ownerId acquiredAt id = rows id := by
  rcases filter_row (rows id) (fun l => !(decide (id = accountId) && decide (l.ownerId = ownerId) &&
    decide (l.acquiredAt = acquiredAt))) with hsame | ⟨l, hrow, hkeep, -⟩
  · exact hsame
  · simp only [Bool.not_eq_eq_eq_not, Bool.not_false, Bool.and_eq_true, decide_eq_true_eq] at hkeep
    exact absurd hkeep.2 (hne l hrow hkeep.1.2 hkeep.1.1)

end Statements

end SessionLeases

end Binarius
