import Mathlib.Tactic

/-!
# Lib.TokenBucket — a bucket that is refilled with time and gives one token a taking

* `Bucket`: what the tokens left say of the takings: since any moment, they and the tokens left are at
  most the burst and what the time refilled.
* `Bucket.refill`, `Bucket.cut`, `Bucket.take`: the three changes; a cut moves the clock and refills
  nothing.
* `Bucket.windows`: **the takings of any window** are at most the burst and what its length refills.
-/

namespace Lib

section Bucket

variable {K : Type} [Field K] [LinearOrder K] [IsStrictOrderedRing K]

/-- The takings, in order, the tokens left and the moment of the last refill. -/
structure Bucket (burst rate : K) (takings : List K) (tokens refilledAt : K) : Prop where
  tokens_le : tokens ≤ burst
  tokens_nonneg : 0 ≤ tokens
  past : ∀ t ∈ takings, t ≤ refilledAt
  since : ∀ a ≤ refilledAt, (takings.countP (fun t => decide (a ≤ t)) : K) + tokens ≤
    burst + rate * (refilledAt - a)
  windows : ∀ a b, a ≤ b → (takings.countP (fun t => decide (a ≤ t ∧ t ≤ b)) : K) ≤ burst + rate * (b - a)

variable {burst rate tokens refilledAt now : K} {takings : List K}

theorem Bucket.full (hburst : 0 ≤ burst) (hrate : 0 ≤ rate) (now : K) :
    Bucket burst rate [] burst now := by
  refine ⟨le_refl _, hburst, fun t ht => absurd ht List.not_mem_nil, fun a ha => ?_, fun a b hab => ?_⟩
  · have hmul : 0 ≤ rate * (now - a) := mul_nonneg hrate (sub_nonneg.mpr ha)
    rw [List.countP_nil, Nat.cast_zero]
    linarith
  · have hmul : 0 ≤ rate * (b - a) := mul_nonneg hrate (sub_nonneg.mpr hab)
    rw [List.countP_nil, Nat.cast_zero]
    linarith

omit [IsStrictOrderedRing K] in
/-- No taking is after the last refill. -/
theorem Bucket.countP_after (h : Bucket burst rate takings tokens refilledAt) {a : K} (ha : refilledAt < a) :
    takings.countP (fun t => decide (a ≤ t)) = 0 := by
  rw [List.countP_eq_zero]
  intro t ht hle
  exact absurd ((of_decide_eq_true hle).trans (h.past t ht)) (not_le.mpr ha)

/-- The clock moves on, and the tokens are some between those left and those refilled. -/
theorem Bucket.later (h : Bucket burst rate takings tokens refilledAt) (hrate : 0 ≤ rate)
    (hnow : refilledAt ≤ now) {tokens' : K} (hle : tokens' ≤ burst) (hnonneg : 0 ≤ tokens')
    (hrefill : tokens' ≤ tokens + rate * (now - refilledAt)) : Bucket burst rate takings tokens' now := by
  refine ⟨hle, hnonneg, fun t ht => (h.past t ht).trans hnow, fun a ha => ?_, h.windows⟩
  by_cases hold : a ≤ refilledAt
  · have hsince := h.since a hold
    have hsplit : rate * (now - a) = rate * (now - refilledAt) + rate * (refilledAt - a) := by ring
    linarith
  · have hmul : 0 ≤ rate * (now - a) := mul_nonneg hrate (sub_nonneg.mpr ha)
    rw [h.countP_after (not_le.mp hold), Nat.cast_zero]
    linarith

theorem Bucket.refill (h : Bucket burst rate takings tokens refilledAt) (hrate : 0 ≤ rate)
    (hnow : refilledAt ≤ now) :
    Bucket burst rate takings (min burst (tokens + rate * (now - refilledAt))) now := by
  have hmul : 0 ≤ rate * (now - refilledAt) := mul_nonneg hrate (sub_nonneg.mpr hnow)
  have hnonneg := h.tokens_nonneg
  refine h.later hrate hnow (min_le_left _ _) (le_min (hnonneg.trans h.tokens_le) ?_) (min_le_right _ _)
  linarith

theorem Bucket.cut (h : Bucket burst rate takings tokens refilledAt) (hrate : 0 ≤ rate)
    (hnow : refilledAt ≤ now) : Bucket burst rate takings tokens now := by
  have hmul : 0 ≤ rate * (now - refilledAt) := mul_nonneg hrate (sub_nonneg.mpr hnow)
  exact h.later hrate hnow h.tokens_le h.tokens_nonneg (by linarith)

/-- **A taking** at the moment of the last refill. -/
theorem Bucket.take (h : Bucket burst rate takings tokens refilledAt) (hrate : 0 ≤ rate) (hone : 1 ≤ tokens) :
    Bucket burst rate (takings ++ [refilledAt]) (tokens - 1) refilledAt := by
  have hle := h.tokens_le
  refine ⟨by linarith, by linarith, fun t ht => ?_, fun a ha => ?_, fun a b hab => ?_⟩
  · rcases List.mem_append.mp ht with hold | hnew
    · exact h.past t hold
    · exact (List.mem_singleton.mp hnew).le
  · have hsince := h.since a ha
    rw [List.countP_append, List.countP_singleton, if_pos (decide_eq_true ha)]
    push_cast
    linarith
  · rw [List.countP_append, List.countP_singleton]
    by_cases hin : a ≤ refilledAt ∧ refilledAt ≤ b
    · -- the window's takings so far are among those since its start
      have hsince := h.since a hin.1
      have hmono : takings.countP (fun t => decide (a ≤ t ∧ t ≤ b)) ≤ takings.countP (fun t => decide (a ≤ t)) :=
        List.countP_mono_left (fun t _ ht => decide_eq_true (of_decide_eq_true ht).1)
      have hcast : (takings.countP (fun t => decide (a ≤ t ∧ t ≤ b)) : K) ≤
          takings.countP (fun t => decide (a ≤ t)) := Nat.cast_le.mpr hmono
      have hmul : rate * (refilledAt - a) ≤ rate * (b - a) := mul_le_mul_of_nonneg_left (by linarith [hin.2]) hrate
      rw [if_pos (decide_eq_true hin)]
      push_cast
      linarith
    · rw [if_neg (by simpa using hin), Nat.add_zero]
      exact h.windows a b hab

end Bucket

end Lib
