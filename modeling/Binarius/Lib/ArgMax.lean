import Mathlib.Tactic

/-!
# Lib.ArgMax — the member of a list with the greatest rank

`greatest rank l` scans the list and keeps the member of the greatest rank.

* `greatest_eq_some_iff`: with an injective rank, **it is the one member no member outranks**.
* `greatest_perm`: the order of the list does not matter.
* `greatest_insert`, `greatest_remove`: a new member changes it to that member only; a member that leaves
  changes it only when it was that member.
-/

namespace Lib

section ArgMax

variable {α ρ : Type} [LinearOrder ρ]

/-- The best so far, after one more member. -/
def better (rank : α → ρ) (best : Option α) (a : α) : Option α :=
  match best with
  | none => some a
  | some b => if rank b < rank a then some a else some b

def greatest (rank : α → ρ) (l : List α) : Option α := l.foldl (better rank) none

variable {rank : α → ρ}

@[simp] theorem greatest_nil : greatest rank [] = none := rfl

theorem greatest_concat (l : List α) (a : α) :
    greatest rank (l ++ [a]) = better rank (greatest rank l) a := by
  simp [greatest, List.foldl_append]

/-- One more member is taken, or what was held stays. -/
theorem better_cases {best : Option α} {a b : α} (h : better rank best a = some b) :
    (b = a ∧ ∀ c, best = some c → rank c < rank a) ∨ (best = some b ∧ rank a ≤ rank b) := by
  unfold better at h
  cases best with
  | none =>
    cases h
    exact Or.inl ⟨rfl, fun c hc => by cases hc⟩
  | some c =>
    simp only at h
    split_ifs at h with hlt
    · cases h
      left
      refine ⟨rfl, fun d hd => ?_⟩
      cases hd
      exact hlt
    · cases h
      exact Or.inr ⟨rfl, not_lt.mp hlt⟩

theorem greatest_eq_none {l : List α} : greatest rank l = none ↔ l = [] := by
  constructor
  · intro h
    induction l using List.reverseRecOn with
    | nil => rfl
    | append_singleton l a ih =>
      rw [greatest_concat] at h
      unfold better at h
      cases hbest : greatest rank l with
      | none => simp [hbest] at h
      | some b =>
        rw [hbest] at h
        simp only at h
        split_ifs at h
  · rintro rfl
    rfl

/-- The result is a member that no member outranks. -/
theorem greatest_spec {l : List α} {b : α} (h : greatest rank l = some b) :
    b ∈ l ∧ ∀ a ∈ l, rank a ≤ rank b := by
  induction l using List.reverseRecOn generalizing b with
  | nil => cases h
  | append_singleton l a ih =>
    rw [greatest_concat] at h
    rcases better_cases h with ⟨rfl, hold⟩ | ⟨hold, hle⟩
    · refine ⟨by simp, fun c hc => ?_⟩
      rcases List.mem_append.mp hc with hc | hc
      · cases hbest : greatest rank l with
        | none => rw [greatest_eq_none.mp hbest] at hc; cases hc
        | some d => exact ((ih hbest).2 c hc).trans (hold d hbest).le
      · rw [List.mem_singleton.mp hc]
    · obtain ⟨hmem, hmax⟩ := ih hold
      refine ⟨List.mem_append_left _ hmem, fun c hc => ?_⟩
      rcases List.mem_append.mp hc with hc | hc
      · exact hmax c hc
      · rw [List.mem_singleton.mp hc]
        exact hle

/-- **With an injective rank it is the one member no member outranks.** -/
theorem greatest_eq_some_iff (hrank : Function.Injective rank) {l : List α} {b : α} :
    greatest rank l = some b ↔ b ∈ l ∧ ∀ a ∈ l, rank a ≤ rank b := by
  refine ⟨greatest_spec, fun ⟨hmem, hmax⟩ => ?_⟩
  cases hbest : greatest rank l with
  | none => rw [greatest_eq_none.mp hbest] at hmem; cases hmem
  | some c =>
    obtain ⟨hcmem, hcmax⟩ := greatest_spec hbest
    rw [hrank (le_antisymm (hmax c hcmem) (hcmax b hmem))]

/-- The result depends on the members only, neither on their order nor on how often each stands. -/
theorem greatest_congr (hrank : Function.Injective rank) {l l' : List α} (h : ∀ a, a ∈ l ↔ a ∈ l') :
    greatest rank l = greatest rank l' := by
  refine Option.ext fun b => ?_
  rw [greatest_eq_some_iff hrank, greatest_eq_some_iff hrank, h b]
  exact and_congr_right fun _ => forall_congr' fun a => by rw [h a]

/-- The order of the list does not matter. -/
theorem greatest_perm (hrank : Function.Injective rank) {l l' : List α} (h : l.Perm l') :
    greatest rank l = greatest rank l' :=
  greatest_congr hrank fun _ => h.mem_iff

/-- **A new member changes the result to that member only.** -/
theorem greatest_insert (hrank : Function.Injective rank) {l l' : List α} {a : α}
    (h : ∀ b, b ∈ l' ↔ b = a ∨ b ∈ l) (hne : greatest rank l' ≠ greatest rank l) :
    greatest rank l' = some a := by
  cases hbest : greatest rank l' with
  | none =>
    have hmem : a ∈ l' := (h a).mpr (Or.inl rfl)
    rw [greatest_eq_none.mp hbest] at hmem
    cases hmem
  | some b =>
    obtain ⟨hmem, hmax⟩ := greatest_spec hbest
    rcases (h b).mp hmem with rfl | hold
    · rfl
    · exfalso
      apply hne
      rw [hbest]
      exact ((greatest_eq_some_iff hrank).mpr ⟨hold, fun c hc => hmax c ((h c).mpr (Or.inr hc))⟩).symm

/-- **A member that leaves changes the result only when it was the result.** -/
theorem greatest_remove (hrank : Function.Injective rank) {l l' : List α} {a : α}
    (h : ∀ b, b ∈ l' ↔ b ∈ l ∧ b ≠ a) (hne : greatest rank l' ≠ greatest rank l) :
    greatest rank l = some a := by
  cases hbest : greatest rank l with
  | none =>
    exfalso
    apply hne
    rw [hbest, greatest_eq_none, List.eq_nil_iff_forall_not_mem]
    intro b hb
    have hmem := ((h b).mp hb).1
    rw [greatest_eq_none.mp hbest] at hmem
    cases hmem
  | some b =>
    obtain ⟨hmem, hmax⟩ := greatest_spec hbest
    by_cases hb : b = a
    · rw [hb]
    · exfalso
      apply hne
      rw [hbest, greatest_eq_some_iff hrank]
      exact ⟨(h b).mpr ⟨hmem, hb⟩, fun c hc => hmax c ((h c).mp hc).1⟩

end ArgMax

end Lib
