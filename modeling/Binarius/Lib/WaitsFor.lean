import Mathlib.Tactic

/-!
# Lib.WaitsFor — no cycle of waits

* `acyclic_of_measure`: **a wait that never comes back**: a measure that grows from a waiter to a waiter
  it waits for leaves no cycle.
-/

namespace Lib

section WaitsFor

variable {α μ : Type} [Preorder μ] {waits : α → α → Prop}

/-- Along a chain of waits that ends in a waiter the measure grows. -/
theorem measure_lt_of_transGen {measure : α → μ}
    (h : ∀ a b c, waits a b → waits b c → measure a < measure b) {a b c : α}
    (hab : Relation.TransGen waits a b) (hbc : waits b c) : measure a < measure b := by
  induction hab generalizing c with
  | single hwait => exact h _ _ _ hwait hbc
  | tail _ hwait ih => exact (ih hwait).trans (h _ _ _ hwait hbc)

/-- **No cycle.** -/
theorem acyclic_of_measure {measure : α → μ}
    (h : ∀ a b c, waits a b → waits b c → measure a < measure b) (a : α) :
    ¬ Relation.TransGen waits a a := by
  intro hcycle
  obtain ⟨b, hab, -⟩ := Relation.TransGen.head'_iff.mp hcycle
  exact lt_irrefl _ (measure_lt_of_transGen h hcycle hab)

end WaitsFor

end Lib
