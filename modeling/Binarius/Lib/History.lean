import Mathlib.Tactic

/-!
# Lib.History — logs whose every entry is right by what came before it

* `LogOk`: each entry meets a condition on the entries before it; `LogOk.append`, `LogOk.snoc`.
* `append_eq_split`, `snoc_eq_split`: where an entry of a log stands that has grown, or has grown by one.
-/

namespace Lib

section History

variable {α : Type} {ok : List α → α → Prop} {log es : List α} {a e : α}

/-- Each entry is right by the entries before it. -/
def LogOk (ok : List α → α → Prop) (log : List α) : Prop :=
  ∀ before e after, log = before ++ e :: after → ok before e

theorem LogOk.nil : LogOk ok [] := by
  intro before e after heq
  exact absurd heq.symm (by simp)

/-- An entry of two logs one after the other is an entry of one of them. -/
theorem append_eq_split {before after : List α} (h : log ++ es = before ++ e :: after) :
    (∃ after', after = after' ++ es ∧ log = before ++ e :: after') ∨
      ∃ before', before = log ++ before' ∧ es = before' ++ e :: after := by
  rcases List.append_eq_append_iff.mp h with ⟨mid, hbefore, hes⟩ | ⟨mid, hlog, hafter⟩
  · exact .inr ⟨mid, hbefore, hes⟩
  · cases mid with
    | nil =>
      rw [List.append_nil] at hlog
      rw [List.nil_append] at hafter
      exact .inr ⟨[], by rw [List.append_nil, hlog], hafter.symm⟩
    | cons e' mid =>
      obtain ⟨rfl, rfl⟩ := List.cons.inj hafter
      exact .inl ⟨mid, rfl, hlog⟩

theorem LogOk.append (h : LogOk ok log)
    (hes : ∀ before e after, es = before ++ e :: after → ok (log ++ before) e) : LogOk ok (log ++ es) := by
  intro before e after heq
  rcases append_eq_split heq with ⟨after', -, hlog⟩ | ⟨before', rfl, hnew⟩
  · exact h before e after' hlog
  · exact hes before' e after hnew

theorem LogOk.snoc (h : LogOk ok log) (he : ok log e) : LogOk ok (log ++ [e]) := by
  refine h.append (fun before e' after heq => ?_)
  cases before with
  | nil =>
    obtain ⟨rfl, -⟩ := List.cons.inj heq
    rwa [List.append_nil]
  | cons e'' before => simp at heq

/-- An entry of a log grown by one: an old one, or the new one. -/
theorem snoc_eq_split {before after : List α} (h : log ++ [a] = before ++ e :: after) :
    (∃ after', after = after' ++ [a] ∧ log = before ++ e :: after') ∨ (after = [] ∧ e = a ∧ before = log) := by
  rcases append_eq_split h with hold | ⟨before', rfl, hnew⟩
  · exact .inl hold
  · rcases List.append_eq_singleton_iff.mp hnew.symm with ⟨rfl, hcons⟩ | ⟨-, hcons⟩
    · obtain ⟨rfl, rfl⟩ := List.cons.inj hcons
      exact .inr ⟨rfl, rfl, List.append_nil _⟩
    · cases hcons

end History

end Lib
