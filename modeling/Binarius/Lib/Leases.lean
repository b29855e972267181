import Mathlib.Tactic

/-!
# Lib.Leases — a lease that one owner at a time may trust

A row names an owner and the instant its lease lapses.  An owner trusts the lease up to a bound of its
own, never past the row's.

* `Step`: what a statement of an owner may do to the row: take a free or lapsed lease, move its own to a
  later end, or give its own back.
* `Covered.step`: **a trusted lease survives every step of the others**, and its owner's own as long as
  the row stays.
* `Covered.unique`: two owners never trust it at one instant.
-/

namespace Lib.Leases

variable {ω τ : Type}

/-- A lease taken. -/
structure Held (ω τ : Type) where
  owner : ω
  lapses : τ

variable [LinearOrder τ]

/-- What a statement of `owner` may do to the row, by the clock reading `now`. -/
inductive Step (owner : ω) (now : τ) : Option (Held ω τ) → Option (Held ω τ) → Prop
  | keep (row : Option (Held ω τ)) : Step owner now row row
  | take {row : Option (Held ω τ)} {lapses : τ}
    (hfree : ∀ old, row = some old → old.lapses ≤ now ∨ old.owner = owner)
    (hlater : ∀ old, row = some old → old.lapses ≤ lapses) : Step owner now row (some ⟨owner, lapses⟩)
  | free {old : Held ω τ} (hown : old.owner = owner) : Step owner now (some old) none

/-- A lease that `owner` trusts up to `bound`: the bound is over, or the row is its own until then. -/
def Covered (row : Option (Held ω τ)) (owner : ω) (bound now : τ) : Prop :=
  bound ≤ now ∨ ∃ held, row = some held ∧ held.owner = owner ∧ bound ≤ held.lapses

variable {row row' : Option (Held ω τ)} {owner other : ω} {bound bound' now now' : τ}

/-- Time only takes trust away. -/
theorem Covered.mono (h : Covered row owner bound now) (hnow : now ≤ now') :
    Covered row owner bound now' := by
  rcases h with hover | hheld
  · exact .inl (hover.trans hnow)
  · exact .inr hheld

/-- The later of two bounds. -/
theorem Covered.max (h : Covered row owner bound now) (h' : Covered row owner bound' now) :
    Covered row owner (max bound bound') now := by
  rcases max_choice bound bound' with hmax | hmax
  · rw [hmax]
    exact h
  · rw [hmax]
    exact h'

theorem Covered.of_held {held : Held ω τ} (hrow : row = some held) (howner : held.owner = owner)
    (hbound : bound ≤ held.lapses) : Covered row owner bound now :=
  .inr ⟨held, hrow, howner, hbound⟩

/-- **A trusted lease survives a step**: another owner takes it only once it lapsed, and frees only its
own. -/
theorem Covered.step {stamp : τ} (h : Covered row owner bound now) (hstep : Step other stamp row row')
    (hstamp : stamp ≤ now) (hfree : other = owner → row' = none → row = none) :
    Covered row' owner bound now := by
  rcases h with hover | ⟨held, hrow, howner, hbound⟩
  · exact .inl hover
  · cases hstep with
    | keep => exact .inr ⟨held, hrow, howner, hbound⟩
    | take htake hlater =>
      rcases htake held hrow with hlapsed | hsame
      · exact .inl ((hbound.trans hlapsed).trans hstamp)
      · refine .inr ⟨_, rfl, hsame.symm.trans howner, ?_⟩
        exact hbound.trans (hlater held hrow)
    | free hown =>
      obtain rfl := Option.some.inj hrow
      have hnone := hfree (hown.symm.trans howner) rfl
      simp at hnone

/-- **Two owners never trust one lease at one instant.** -/
theorem Covered.unique (h : Covered row owner bound now) (h' : Covered row other bound' now)
    (hlive : now < bound) (hlive' : now < bound') : owner = other := by
  rcases h with hover | ⟨held, hrow, howner, -⟩
  · exact absurd hover (not_le.mpr hlive)
  rcases h' with hover | ⟨held', hrow', howner', -⟩
  · exact absurd hover (not_le.mpr hlive')
  · obtain rfl := Option.some.inj (hrow.symm.trans hrow')
    exact howner.symm.trans howner'

end Lib.Leases
