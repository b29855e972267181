import Mathlib.Tactic

/-!
# Lib.Slices — contiguous slices of a strictly ordered list

A page of a list is `slice l offset n`: at most `n` elements from `offset` on.  In a list ordered by a
transitive irreflexive relation, an element that comes after a slice's head is in the slice or behind all
of it (`mem_slice_or_after`); so is any element, for a slice that starts at the head of the list.
`take_append_slice` puts a slice behind what was read before it.
-/

namespace Lib

section Slices

variable {α : Type}

/-- At most `n` elements from `offset` on. -/
def slice (l : List α) (offset n : ℕ) : List α := (l.drop offset).take n

theorem mem_of_mem_slice {l : List α} {offset n : ℕ} {x : α} (h : x ∈ slice l offset n) : x ∈ l :=
  List.mem_of_mem_drop (List.mem_of_mem_take h)

/-- An element behind the offset is in the slice, or the slice is full and ends before it. -/
theorem mem_slice_or_after_of_mem_drop {r : α → α → Prop} {l : List α} (hl : l.Pairwise r)
    {offset n : ℕ} {x : α} (hx : x ∈ l.drop offset) :
    x ∈ slice l offset n ∨ ((∀ y ∈ slice l offset n, r y x) ∧ (slice l offset n).length = n) := by
  have hsplit : slice l offset n ++ (l.drop offset).drop n = l.drop offset := List.take_append_drop _ _
  rw [← hsplit, List.mem_append] at hx
  rcases hx with hx | hx
  · exact .inl hx
  · have hdrop : (l.drop offset).Pairwise r := hl.sublist (List.drop_sublist _ _)
    rw [← hsplit, List.pairwise_append] at hdrop
    refine .inr ⟨fun y hy => hdrop.2.2 y hy x hx, ?_⟩
    have hlen : n ≤ (l.drop offset).length := by
      by_contra hlt
      rw [List.drop_eq_nil_of_le (by omega)] at hx
      simp at hx
    exact List.length_take_of_le hlen

/-- **Where an element is when it is not in the slice**: one that comes after some element of the slice is
behind a full slice. -/
theorem mem_slice_or_after {r : α → α → Prop} (hirrefl : ∀ a, ¬ r a a)
    (htrans : ∀ a b c, r a b → r b c → r a c) {l : List α} (hl : l.Pairwise r) {offset n : ℕ} {x y : α}
    (hx : x ∈ l) (hy : y ∈ slice l offset n) (hyx : r y x) :
    x ∈ slice l offset n ∨ ((∀ z ∈ slice l offset n, r z x) ∧ (slice l offset n).length = n) := by
  refine mem_slice_or_after_of_mem_drop hl ?_
  rw [← List.take_append_drop offset l, List.mem_append] at hx
  rcases hx with hx | hx
  · -- an element before the offset comes before the whole slice
    have hsplit := hl
    rw [← List.take_append_drop offset l, List.pairwise_append] at hsplit
    have hxy := hsplit.2.2 x hx y (List.mem_of_mem_take hy)
    exact absurd (htrans x y x hxy hyx) (hirrefl x)
  · exact hx

/-- The first slice of a list. -/
theorem mem_slice_zero_or_after {r : α → α → Prop} {l : List α} (hl : l.Pairwise r) {n : ℕ} {x : α}
    (hx : x ∈ l) :
    x ∈ slice l 0 n ∨ ((∀ z ∈ slice l 0 n, r z x) ∧ (slice l 0 n).length = n) :=
  mem_slice_or_after_of_mem_drop hl (by simpa using hx)

/-! ### Slices of one list -/

theorem slice_cons {l : List α} {offset n : ℕ} {x : α} (hx : l[offset]? = some x) (hn : 1 ≤ n) :
    slice l offset n = x :: slice l (offset + 1) (n - 1) := by
  obtain ⟨hlt, rfl⟩ := List.getElem?_eq_some_iff.mp hx
  obtain ⟨n, rfl⟩ := Nat.exists_eq_add_of_le' hn
  rw [slice, List.drop_eq_getElem_cons hlt, List.take_succ_cons]
  rfl

theorem slice_eq_nil {l : List α} {offset n : ℕ} (h : l.length ≤ offset) : slice l offset n = [] := by
  rw [slice, List.drop_eq_nil_of_le h, List.take_nil]

/-- What was read up to a slice, and the slice. -/
theorem take_append_slice {l : List α} {offset n : ℕ} :
    l.take offset ++ slice l offset n = l.take (offset + (slice l offset n).length) := by
  rw [List.take_add, slice, List.length_take, List.take_eq_take_min (i := n)]

theorem slice_getLast {l : List α} {offset n : ℕ} (h : slice l offset n ≠ []) :
    l[offset + ((slice l offset n).length - 1)]? = some ((slice l offset n).getLast h) := by
  have hpos : 0 < (slice l offset n).length := List.length_pos_of_ne_nil h
  have hle : (slice l offset n).length ≤ n := List.length_take_le _ _
  rw [List.getLast_eq_getElem, ← List.getElem?_eq_getElem (by omega)]
  rw [slice, List.getElem?_take_of_lt (by rw [slice] at hpos hle; omega), List.getElem?_drop]

end Slices

end Lib
