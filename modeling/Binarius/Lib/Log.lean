import Mathlib.Tactic

/-!
# Lib.Log — a log that grows at the end and whose entries are marked in place

* `AtMostOne`: no two entries of a log satisfy a predicate.
* `AtMostOne.snoc`, `AtMostOne.modify`: the two writes of a log keep it.
-/

namespace Lib

section Log

variable {α : Type} {l : List α} {a b : α} {n m : ℕ} {f : α → α} {p : α → Prop}

theorem getElem?_snoc : (l ++ [a])[n]? = some b ↔ l[n]? = some b ∨ (n = l.length ∧ b = a) := by
  rcases lt_trichotomy n l.length with hlt | rfl | hgt
  · rw [List.getElem?_append_left hlt]
    constructor
    · exact .inl
    · rintro (h | ⟨rfl, _⟩)
      · exact h
      · exact absurd hlt (lt_irrefl _)
  · rw [List.getElem?_concat_length, List.getElem?_eq_none (le_refl _)]
    constructor
    · intro h
      exact .inr ⟨rfl, (Option.some.inj h).symm⟩
    · rintro (h | ⟨_, rfl⟩)
      · exact nomatch h
      · rfl
  · have hlen : (l ++ [a]).length ≤ n := by
      rw [List.length_append, List.length_singleton]
      omega
    rw [List.getElem?_eq_none hlen, List.getElem?_eq_none hgt.le]
    constructor
    · exact nofun
    · rintro (h | ⟨rfl, _⟩)
      · exact h
      · exact absurd hgt (lt_irrefl _)

/-- A longer log has the entries of the shorter one in their places. -/
theorem getElem?_of_longer {l' : List α} (h : l <+: l') (ha : l[n]? = some a) : l'[n]? = some a := by
  obtain ⟨t, rfl⟩ := h
  obtain ⟨hlt, _⟩ := List.getElem?_eq_some_iff.mp ha
  rw [List.getElem?_append_left hlt]
  exact ha

/-- An entry after a mark at one place: the marked one, or as it was. -/
theorem getElem?_modify_some (h : (l.modify n f)[m]? = some b) :
    (n = m ∧ ∃ a, l[n]? = some a ∧ b = f a) ∨ (n ≠ m ∧ l[m]? = some b) := by
  rw [List.getElem?_modify] at h
  obtain ⟨a, ha, hb⟩ := Option.map_eq_some_iff.mp h
  by_cases hn : n = m
  · subst hn
    rw [if_pos rfl] at hb
    exact .inl ⟨rfl, a, ha, hb.symm⟩
  · rw [if_neg hn] at hb
    subst hb
    exact .inr ⟨hn, ha⟩

theorem getElem?_modify_other (hn : n ≠ m) (h : l[m]? = some a) : (l.modify n f)[m]? = some a := by
  rw [List.getElem?_modify, h]
  show some (if n = m then f a else a) = some a
  rw [if_neg hn]

theorem getElem?_modify_self (h : l[n]? = some a) : (l.modify n f)[n]? = some (f a) := by
  rw [List.getElem?_modify, h]
  show some (if n = n then f a else a) = some (f a)
  rw [if_pos rfl]

/-- No two entries satisfy the predicate. -/
def AtMostOne (p : α → Prop) (l : List α) : Prop :=
  ∀ (n m : ℕ) (a b : α), l[n]? = some a → l[m]? = some b → p a → p b → n = m

theorem AtMostOne.nil : AtMostOne p ([] : List α) := by
  intro n m a b ha
  exact nomatch ha

/-- A new entry satisfies the predicate only if no entry does. -/
theorem AtMostOne.snoc (h : AtMostOne p l) (hnew : p a → ∀ (n : ℕ) (b : α), l[n]? = some b → ¬ p b) :
    AtMostOne p (l ++ [a]) := by
  intro n m x y hx hy hpx hpy
  rcases getElem?_snoc.mp hx with hx' | ⟨hn, hxa⟩
  · rcases getElem?_snoc.mp hy with hy' | ⟨_, hya⟩
    · exact h n m x y hx' hy' hpx hpy
    · exact absurd hpx (hnew (hya ▸ hpy) n x hx')
  · rcases getElem?_snoc.mp hy with hy' | ⟨hm, _⟩
    · exact absurd hpy (hnew (hxa ▸ hpx) m y hy')
    · exact hn.trans hm.symm

/-- A mark that makes no entry satisfy the predicate. -/
theorem AtMostOne.modify (h : AtMostOne p l) (hmark : ∀ a, p (f a) → p a) (n : ℕ) :
    AtMostOne p (l.modify n f) := by
  have hback : ∀ (m : ℕ) (b : α), (l.modify n f)[m]? = some b → p b → ∃ a, l[m]? = some a ∧ p a := by
    intro m b hb hpb
    rcases getElem?_modify_some hb with ⟨rfl, a, ha, rfl⟩ | ⟨_, hb⟩
    · exact ⟨a, ha, hmark a hpb⟩
    · exact ⟨b, hb, hpb⟩
  intro i j x y hx hy hpx hpy
  obtain ⟨x', hx', hpx'⟩ := hback i x hx hpx
  obtain ⟨y', hy', hpy'⟩ := hback j y hy hpy
  exact h i j x' y' hx' hy' hpx' hpy'

end Log

end Lib
