import Mathlib.Tactic
import Binarius.Lib.Runs

/-!
# Lib.Reactions — machines that do something outside at a call

A machine is a total function `react : σ → α → σ × List ε`: a call gives the next state and what the machine
does outside, in order.

* `effects_append`: what a run does outside, cut in two.
* `effects_eq_of_simulates`: **two machines related by what the calls to come keep do the same outside.**
-/

namespace Lib

section Reactions

variable {σ τ α ε : Type} (react : σ → α → σ × List ε)

def stateAfter (s : σ) (calls : List α) : σ := run (fun s call => (react s call).1) s calls

def effects : σ → List α → List ε
  | _, [] => []
  | s, call :: calls => (react s call).2 ++ effects (react s call).1 calls

@[simp] theorem stateAfter_nil (s : σ) : stateAfter react s [] = s := rfl

@[simp] theorem stateAfter_cons (s : σ) (call : α) (calls : List α) :
    stateAfter react s (call :: calls) = stateAfter react (react s call).1 calls := rfl

theorem stateAfter_append (s : σ) (calls calls' : List α) :
    stateAfter react s (calls ++ calls') = stateAfter react (stateAfter react s calls) calls' :=
  run_append _ s calls calls'

theorem effects_append (s : σ) (calls calls' : List α) :
    effects react s (calls ++ calls') = effects react s calls ++
      effects react (stateAfter react s calls) calls' := by
  induction calls generalizing s with
  | nil => rfl
  | cons call calls ih =>
    show _ ++ effects react _ (calls ++ calls') = _
    rw [ih, ← List.append_assoc]
    rfl

theorem effects_singleton (s : σ) (call : α) : effects react s [call] = (react s call).2 :=
  List.append_nil _

variable {react} {react' : τ → α → τ × List ε}

/-- **Simulation.**  The relation may speak of the calls to come: of their order in time, say. -/
theorem effects_eq_of_simulates {R : List α → σ → τ → Prop}
    (hstep : ∀ call calls s t, R (call :: calls) s t →
      (react s call).2 = (react' t call).2 ∧ R calls (react s call).1 (react' t call).1)
    {calls : List α} {s : σ} {t : τ} (h : R calls s t) :
    effects react s calls = effects react' t calls ∧
      R [] (stateAfter react s calls) (stateAfter react' t calls) := by
  induction calls generalizing s t with
  | nil => exact ⟨rfl, h⟩
  | cons call calls ih =>
    obtain ⟨heffects, hnext⟩ := hstep call calls s t h
    obtain ⟨hrest, hlast⟩ := ih hnext
    refine ⟨?_, hlast⟩
    show (react s call).2 ++ _ = (react' t call).2 ++ _
    rw [heffects, hrest]

end Reactions

end Lib
