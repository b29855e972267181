import Mathlib.Tactic

/-!
# Lib.Rows — rows in a list, found by a key

A list of rows need not have distinct keys: `rowAt` is the first row of a key, and `modifyAt` writes every
row of it.  That the keys are distinct is a property to keep (`nodup_cons_key`, `map_key_modifyAt`).

* `rowAt_cons`, `rowAt_modifyAt`: the lookups after a write.
* `rowAt_of_mem`: with distinct keys, a row is the row of its key.
-/

namespace Lib

section Rows

variable {ρ κ : Type} [DecidableEq κ] {key : ρ → κ} {rows : List ρ} {k : κ} {r : ρ}

/-- The first row of a key. -/
def rowAt (key : ρ → κ) (rows : List ρ) (k : κ) : Option ρ := rows.find? (fun r => key r = k)

/-- Every row of a key, written. -/
def modifyAt (key : ρ → κ) (k : κ) (f : ρ → ρ) (rows : List ρ) : List ρ :=
  rows.map (fun r => if key r = k then f r else r)

@[simp] theorem rowAt_nil (k : κ) : rowAt key [] k = none := rfl

theorem rowAt_cons (r : ρ) (rows : List ρ) (k : κ) :
    rowAt key (r :: rows) k = if key r = k then some r else rowAt key rows k := by
  unfold rowAt
  rw [List.find?_cons]
  by_cases h : key r = k <;> simp [h]

theorem mem_of_rowAt (h : rowAt key rows k = some r) : r ∈ rows := List.mem_of_find?_eq_some h

theorem key_of_rowAt (h : rowAt key rows k = some r) : key r = k := by
  simpa using List.find?_some h

theorem rowAt_eq_none : rowAt key rows k = none ↔ ∀ r ∈ rows, key r ≠ k := by
  unfold rowAt
  rw [List.find?_eq_none]
  simp

/-- A row of the key is there. -/
theorem exists_rowAt (h : r ∈ rows) : ∃ r', rowAt key rows (key r) = some r' := by
  cases hr : rowAt key rows (key r) with
  | none => exact absurd rfl (rowAt_eq_none.mp hr r h)
  | some r' => exact ⟨r', rfl⟩

theorem rowAt_of_mem (hnodup : (rows.map key).Nodup) (h : r ∈ rows) : rowAt key rows (key r) = some r := by
  obtain ⟨r', hr'⟩ : ∃ r', rowAt key rows (key r) = some r' := exists_rowAt h
  rw [hr', List.inj_on_of_nodup_map hnodup (mem_of_rowAt hr') h (key_of_rowAt hr')]

theorem nodup_cons_key (hnodup : (rows.map key).Nodup) (hfree : rowAt key rows (key r) = none) :
    ((r :: rows).map key).Nodup := by
  rw [List.map_cons, List.nodup_cons]
  refine ⟨fun hmem => ?_, hnodup⟩
  obtain ⟨r', hr', hk⟩ := List.mem_map.mp hmem
  exact rowAt_eq_none.mp hfree r' hr' hk

theorem map_key_modifyAt {f : ρ → ρ} (hf : ∀ r, key (f r) = key r) (k : κ) (rows : List ρ) :
    (modifyAt key k f rows).map key = rows.map key := by
  unfold modifyAt
  rw [List.map_map]
  refine List.map_congr_left (fun r _ => ?_)
  by_cases h : key r = k <;> simp [h, hf]

theorem rowAt_modifyAt {f : ρ → ρ} (hf : ∀ r, key (f r) = key r) (k k' : κ) (rows : List ρ) :
    rowAt key (modifyAt key k f rows) k' = if k = k' then (rowAt key rows k').map f else rowAt key rows k' := by
  induction rows with
  | nil => simp [modifyAt]
  | cons r rows ih =>
    have hcons : modifyAt key k f (r :: rows) = (if key r = k then f r else r) :: modifyAt key k f rows := rfl
    rw [hcons, rowAt_cons, rowAt_cons, ih]
    by_cases hr : key r = k
    · by_cases hk : k = k'
      · simp [hr, hk, hf]
      · simp [hr, hk, hf]
    · by_cases hk : k = k'
      · subst hk
        simp [hr]
      · simp [hr, hk]

/-- Every row of several keys, written: a second write of one key changes nothing more. -/
theorem rowAt_foldl_modifyAt {f : ρ → ρ} (hf : ∀ r, key (f r) = key r) (hidem : ∀ r, f (f r) = f r)
    (ks : List κ) (k' : κ) (rows : List ρ) :
    rowAt key (ks.foldl (fun rows k => modifyAt key k f rows) rows) k' =
      if k' ∈ ks then (rowAt key rows k').map f else rowAt key rows k' := by
  induction ks generalizing rows with
  | nil => simp
  | cons k ks ih =>
    rw [List.foldl_cons, ih, rowAt_modifyAt hf]
    by_cases hk : k = k'
    · subst hk
      by_cases hmem : k ∈ ks <;> simp [hmem, Option.map_map, Function.comp_def, hidem]
    · have hk' : ¬ k' = k := fun h => hk h.symm
      simp [hk, hk']

theorem map_key_foldl_modifyAt {f : ρ → ρ} (hf : ∀ r, key (f r) = key r) (ks : List κ) (rows : List ρ) :
    (ks.foldl (fun rows k => modifyAt key k f rows) rows).map key = rows.map key := by
  induction ks generalizing rows with
  | nil => rfl
  | cons k ks ih => rw [List.foldl_cons, ih, map_key_modifyAt hf]

end Rows

end Lib
