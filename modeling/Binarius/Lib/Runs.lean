import Mathlib.Tactic

/-!
# Lib.Runs — runs of a machine given by its actions

A machine is a total function `act : σ → α → σ`; an action that is not enabled leaves the state as it
is.  A run is a list of actions, first action first.

* `run_induction`: what one action keeps, every run keeps.
* `run_append`, `run_snoc`: a run cut in two.
* `RunOk`, `RunOk.induction`: a run whose actions all meet a condition on the state they start from.
-/

namespace Lib

section Runs

variable {σ α : Type} (act : σ → α → σ)

/-- The state after a list of actions. -/
def run (s : σ) (as : List α) : σ := as.foldl act s

@[simp] theorem run_nil (s : σ) : run act s [] = s := rfl

@[simp] theorem run_cons (s : σ) (a : α) (as : List α) : run act s (a :: as) = run act (act s a) as := rfl

theorem run_append (s : σ) (as bs : List α) : run act s (as ++ bs) = run act (run act s as) bs := by
  simp [run, List.foldl_append]

theorem run_snoc (s : σ) (as : List α) (a : α) : run act s (as ++ [a]) = act (run act s as) a := by
  rw [run_append]
  rfl

variable {act}

/-- **Invariants of a machine**: what every action keeps, every run keeps. -/
theorem run_induction {P : σ → Prop} {s : σ} (hstart : P s) (hact : ∀ s a, P s → P (act s a))
    (as : List α) : P (run act s as) := by
  induction as generalizing s with
  | nil => exact hstart
  | cons a as ih => exact ih (hact s a hstart)

/-- Every action of the run meets a condition on the state it starts from. -/
def RunOk (act : σ → α → σ) (ok : σ → α → Prop) : σ → List α → Prop
  | _, [] => True
  | s, a :: as => ok s a ∧ RunOk act ok (act s a) as

/-- What every action that meets the condition keeps, every run of such actions keeps. -/
theorem RunOk.induction {ok : σ → α → Prop} {P : σ → Prop} {s : σ} {as : List α}
    (h : RunOk act ok s as) (hstart : P s) (hact : ∀ s a, ok s a → P s → P (act s a)) :
    P (run act s as) := by
  induction as generalizing s with
  | nil => exact hstart
  | cons a as ih => exact ih h.2 (hact s a h.1 hstart)

end Runs

end Lib
