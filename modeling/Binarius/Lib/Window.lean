import Mathlib.Tactic
import Mathlib.Data.List.TakeWhile

/-!
# Lib.Window — a log of moments of which only the last window is kept

* `Kept`: a list holds of the log all that is still in the window before the clock.
* `Kept.drop`, `Kept.push`, `Kept.later`: what has left the window goes, a moment is added, the clock moves.
* `Narrow`: a set of moments no wider than the window; `Kept.countP_push`: **the newest moment sees all of
  its set among those kept**.
-/

namespace Lib

section Window

variable {T : Type} [AddCommGroup T] [LinearOrder T]

/-- The log is what was dropped, all before the window, and what is kept; nothing is ahead of the clock. -/
structure Kept (width : T) (log kept : List T) (clock : T) : Prop where
  split : ∃ dropped, log = dropped ++ kept ∧ ∀ t ∈ dropped, t ≤ clock - width
  past : ∀ t ∈ log, t ≤ clock

/-- Any two moments of the set are less than the width apart. -/
def Narrow (width : T) (P : T → Bool) : Prop := ∀ t t', P t = true → P t' = true → t' - width < t

variable {width clock now : T} {log kept : List T} {P : T → Bool}

theorem Kept.later [IsOrderedAddMonoid T] (h : Kept width log kept clock) (hnow : clock ≤ now) :
    Kept width log kept now := by
  obtain ⟨dropped, hlog, hdropped⟩ := h.split
  refine ⟨⟨dropped, hlog, fun t ht => ?_⟩, fun t ht => (h.past t ht).trans hnow⟩
  exact (hdropped t ht).trans (sub_le_sub_right hnow width)

/-- What is at the front and out of the window goes. -/
theorem Kept.drop (h : Kept width log kept clock) :
    Kept width log (kept.dropWhile (fun t => decide (t ≤ clock - width))) clock := by
  obtain ⟨dropped, hlog, hdropped⟩ := h.split
  refine ⟨⟨dropped ++ kept.takeWhile (fun t => decide (t ≤ clock - width)), ?_, fun t ht => ?_⟩, h.past⟩
  · rw [List.append_assoc, List.takeWhile_append_dropWhile]
    exact hlog
  · rcases List.mem_append.mp ht with hold | hnew
    · exact hdropped t hold
    · have hout := List.mem_takeWhile_imp (p := fun t => decide (t ≤ clock - width)) hnew
      exact of_decide_eq_true hout

theorem Kept.push (h : Kept width log kept clock) : Kept width (log ++ [clock]) (kept ++ [clock]) clock := by
  obtain ⟨dropped, hlog, hdropped⟩ := h.split
  refine ⟨⟨dropped, ?_, hdropped⟩, fun t ht => ?_⟩
  · rw [hlog, List.append_assoc]
  · rcases List.mem_append.mp ht with hold | hnew
    · exact h.past t hold
    · rw [List.mem_singleton.mp hnew]

/-- **A new moment's narrow set** is among those kept, or it is the set it was. -/
theorem Kept.countP_push (h : Kept width log kept clock) (hP : Narrow width P) :
    (log ++ [clock]).countP P ≤ kept.length + 1 ∨ (log ++ [clock]).countP P = log.countP P := by
  rw [List.countP_append, List.countP_singleton]
  by_cases hnew : P clock = true
  · left
    obtain ⟨dropped, hlog, hdropped⟩ := h.split
    have hnone : dropped.countP P = 0 := by
      rw [List.countP_eq_zero]
      intro t ht hPt
      exact absurd (hP t clock hPt hnew) (not_lt.mpr (hdropped t ht))
    have hkept : kept.countP P ≤ kept.length := List.countP_le_length
    rw [if_pos hnew, hlog, List.countP_append, hnone]
    omega
  · right
    rw [if_neg hnew, Nat.add_zero]

/-- What the window before the clock holds is among those kept. -/
theorem Kept.countP_window (h : Kept width log kept clock) :
    log.countP (fun t => decide (clock - width < t)) = kept.countP (fun t => decide (clock - width < t)) := by
  obtain ⟨dropped, hlog, hdropped⟩ := h.split
  have hnone : dropped.countP (fun t => decide (clock - width < t)) = 0 := by
    rw [List.countP_eq_zero]
    intro t ht hin
    exact absurd (of_decide_eq_true hin) (not_lt.mpr (hdropped t ht))
  rw [hlog, List.countP_append, hnone, Nat.zero_add]

end Window

end Lib
