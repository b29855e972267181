import Mathlib.Tactic

/-!
# Lib.Tx — transactions: state passing with failure, committed whole or not at all

A transaction over a state type `σ` either fails with an error of type `ε` or answers a value and
leaves a new state.  `commit` runs it against the committed state: a failure leaves the state as it
was (rollback).

* `run_bind_eq_ok`: a sequence succeeds iff its parts do, one after the other.  Every inversion of a
  transaction written in `do` notation goes through it.
* `commit_eq_of_ok`, `commit_eq_of_error`: what a commit leaves.
* `commit_induction`: a property of every successful run of a transaction, and of the state kept by a
  rollback, is a property of what the commit leaves.
-/

namespace Lib

/-- A transaction over the state `σ`: it fails with an `ε`, or answers an `α` and leaves a state. -/
abbrev Tx (σ ε α : Type) := StateT σ (Except ε) α

namespace Tx

variable {σ ε α β : Type}

/-- Refuse the whole transaction. -/
def fail (e : ε) : Tx σ ε α := fun _ => .error e

/-- The state a commit leaves: the transaction's own, or the old one when it failed. -/
def commit (t : Tx σ ε α) (s : σ) : σ :=
  match t.run s with
  | .ok (_, s') => s'
  | .error _ => s

/-- What the caller of a committed transaction gets: the answer, or `none` when it failed. -/
def answer (t : Tx σ ε α) (s : σ) : Option α :=
  match t.run s with
  | .ok (a, _) => some a
  | .error _ => none

/-! ### Runs -/

@[simp] theorem run_fail (e : ε) (s : σ) : (fail e : Tx σ ε α).run s = .error e := rfl

@[simp] theorem run_pure_eq_ok {a b : α} {s s' : σ} :
    (pure (a, s) : Except ε (α × σ)) = .ok (b, s') ↔ a = b ∧ s = s' := by
  simp [pure, Except.pure]

@[simp] theorem run_get_eq_ok {a s s' : σ} :
    (get : Tx σ ε σ).run s = .ok (a, s') ↔ s = a ∧ s = s' := by
  simp [get, getThe, MonadStateOf.get, StateT.get, StateT.run, pure, Except.pure]

@[simp] theorem run_set_eq_ok {n s s' : σ} {u : PUnit} :
    (set n : Tx σ ε PUnit).run s = .ok (u, s') ↔ n = s' := by
  show (Except.ok (PUnit.unit, n) : Except ε (PUnit × σ)) = .ok (u, s') ↔ n = s'
  simp

/-- **Inversion of a sequence**: it succeeds iff the first part does and the rest does after it. -/
theorem run_bind_eq_ok {x : Tx σ ε α} {f : α → Tx σ ε β} {s s' : σ} {b : β} :
    (x >>= f).run s = .ok (b, s') ↔
      ∃ a s₁, x.run s = .ok (a, s₁) ∧ (f a).run s₁ = .ok (b, s') := by
  rw [StateT.run_bind]
  cases h : x.run s with
  | error e => simp [bind, Except.bind]
  | ok p =>
    obtain ⟨a, s₁⟩ := p
    simp [bind, Except.bind]

/-! ### Commits -/

theorem commit_eq_of_ok {t : Tx σ ε α} {s s' : σ} {a : α} (h : t.run s = .ok (a, s')) :
    t.commit s = s' := by
  simp [commit, h]

theorem commit_eq_of_error {t : Tx σ ε α} {s : σ} {e : ε} (h : t.run s = .error e) :
    t.commit s = s := by
  simp [commit, h]

/-- What a sequence commits, when its first part has only read. -/
theorem commit_bind_of_ok {x : Tx σ ε α} {f : α → Tx σ ε β} {s : σ} {a : α} (h : x.run s = .ok (a, s)) :
    (x >>= f).commit s = (f a).commit s := by
  unfold commit
  rw [StateT.run_bind, h]
  rfl

theorem commit_bind_of_error {x : Tx σ ε α} {f : α → Tx σ ε β} {s : σ} {e : ε} (h : x.run s = .error e) :
    (x >>= f).commit s = s := by
  unfold commit
  rw [StateT.run_bind, h]
  rfl

theorem answer_eq_some {t : Tx σ ε α} {s : σ} {a : α} :
    t.answer s = some a ↔ t.run s = .ok (a, t.commit s) := by
  unfold answer commit
  cases h : t.run s with
  | error e => simp
  | ok p =>
    obtain ⟨b, s'⟩ := p
    simp

theorem commit_of_answer_none {t : Tx σ ε α} {s : σ} (h : t.answer s = none) : t.commit s = s := by
  unfold answer at h
  cases hr : t.run s with
  | error e => exact commit_eq_of_error hr
  | ok p => simp [hr] at h

/-- A property of the state kept by a rollback and of every state a successful run leaves is a
property of what the commit leaves. -/
theorem commit_induction {t : Tx σ ε α} {s : σ} {P : σ → Prop} (hkeep : P s)
    (hrun : ∀ a s', t.run s = .ok (a, s') → P s') : P (t.commit s) := by
  cases h : t.run s with
  | error e => rw [commit_eq_of_error h]; exact hkeep
  | ok p =>
    obtain ⟨a, s'⟩ := p
    rw [commit_eq_of_ok h]
    exact hrun a s' h

end Tx

end Lib
