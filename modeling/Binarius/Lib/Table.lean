import Mathlib.Tactic

/-!
# Lib.Table — keyed tables

A `Table ρ` is a list of rows with pairwise distinct keys (`Keyed.key`), so a lookup by key has at
most one answer and a write by key changes at most one row.

* `find?`, `insert?` (refuses a key that is taken), `put` (writes the row of a key that is there),
  `sum` (a measure over all rows).
* `updateAt`: the compare-and-set of a row by its key, with the row it returns.
* `find?_put`, `find?_of_insert?`: the lookups after a write.
* `sum_put`, `sum_of_insert?`: **a measure after a write**, as a difference at the one row written.
-/

namespace Lib

/-- A row type with its primary key. -/
class Keyed (ρ : Type) (κ : outParam Type) where
  key : ρ → κ

export Keyed (key)

/-- A table: its rows have pairwise distinct keys. -/
structure Table (ρ : Type) {κ : Type} [Keyed ρ κ] where
  rows : List ρ
  nodup : (rows.map key).Nodup

namespace Table

variable {ρ κ : Type} [Keyed ρ κ]

@[ext] theorem ext {t u : Table ρ} (h : t.rows = u.rows) : t = u := by
  cases t
  cases u
  simpa using h

/-- The table with no row. -/
def empty : Table ρ := ⟨[], List.nodup_nil⟩

instance : Inhabited (Table ρ) := ⟨empty⟩

instance : Membership ρ (Table ρ) := ⟨fun t r => r ∈ t.rows⟩

theorem mem_rows {t : Table ρ} {r : ρ} : r ∈ t.rows ↔ r ∈ t := Iff.rfl

@[simp] theorem not_mem_empty (r : ρ) : ¬ r ∈ (empty : Table ρ) := by
  simp [← mem_rows, empty]

/-- Two rows of one key are one row. -/
theorem eq_of_key {t : Table ρ} {r r' : ρ} (h : r ∈ t) (h' : r' ∈ t) (hk : key r = key r') :
    r = r' :=
  List.inj_on_of_nodup_map t.nodup h h' hk

/-- Sum of a measure over all rows. -/
def sum (t : Table ρ) (w : ρ → ℤ) : ℤ := (t.rows.map w).sum

@[simp] theorem sum_empty (w : ρ → ℤ) : (empty : Table ρ).sum w = 0 := rfl

variable [DecidableEq κ]

/-! ### Lookups -/

/-- The row of a key. -/
def find? (t : Table ρ) (k : κ) : Option ρ := t.rows.find? (fun r => key r = k)

@[simp] theorem find?_empty (k : κ) : (empty : Table ρ).find? k = none := rfl

theorem find?_eq_some {t : Table ρ} {k : κ} {r : ρ} : t.find? k = some r ↔ r ∈ t ∧ key r = k := by
  constructor
  · intro h
    exact ⟨List.mem_of_find?_eq_some h, by simpa using List.find?_some h⟩
  · rintro ⟨hr, rfl⟩
    cases h : t.find? (key r) with
    | none =>
      have hne := List.find?_eq_none.mp h r hr
      simp at hne
    | some r' =>
      have hk : key r' = key r := by simpa using List.find?_some h
      rw [eq_of_key (List.mem_of_find?_eq_some h) hr hk]

theorem find?_eq_none {t : Table ρ} {k : κ} : t.find? k = none ↔ ∀ r ∈ t, key r ≠ k := by
  unfold find?
  rw [List.find?_eq_none]
  simp [mem_rows]

theorem find?_of_mem {t : Table ρ} {r : ρ} (h : r ∈ t) : t.find? (key r) = some r :=
  find?_eq_some.mpr ⟨h, rfl⟩

theorem mem_of_find? {t : Table ρ} {k : κ} {r : ρ} (h : t.find? k = some r) : r ∈ t :=
  (find?_eq_some.mp h).1

theorem key_of_find? {t : Table ρ} {k : κ} {r : ρ} (h : t.find? k = some r) : key r = k :=
  (find?_eq_some.mp h).2

/-! ### Writes -/

/-- `INSERT`, refused (a unique violation) when the key is taken. -/
def insert? (t : Table ρ) (r : ρ) : Option (Table ρ) :=
  if h : key r ∈ t.rows.map key then none
  else some ⟨r :: t.rows, by simpa using ⟨by simpa using h, t.nodup⟩⟩

/-- Write the row of its key; a key that is not there changes nothing. -/
def put (t : Table ρ) (r : ρ) : Table ρ where
  rows := t.rows.map (fun r' => if key r' = key r then r else r')
  nodup := by
    have h : (key : ρ → κ) ∘ (fun r' => if key r' = key r then r else r') = key := by
      funext r'
      by_cases hk : key r' = key r <;> simp [hk]
    rw [List.map_map, h]
    exact t.nodup

/-- `UPDATE … SET f WHERE key = k AND guard … RETURNING *`, a compare-and-set: the row written and
the table after it, or `none` when no row matched. -/
def updateAt (t : Table ρ) (k : κ) (guard : ρ → Bool) (f : ρ → ρ) : Option (ρ × Table ρ) :=
  match t.find? k with
  | none => none
  | some r => if guard r then some (f r, t.put (f r)) else none

/-- `INSERT … ON CONFLICT DO NOTHING`. -/
def inserted (t : Table ρ) (r : ρ) : Table ρ := (t.insert? r).getD t

/-- `UPDATE … SET f WHERE key = k`. -/
def modified (t : Table ρ) (k : κ) (f : ρ → ρ) : Table ρ :=
  match t.find? k with
  | some r => t.put (f r)
  | none => t

theorem insert?_eq_some {t t' : Table ρ} {r : ρ} :
    t.insert? r = some t' ↔ t.find? (key r) = none ∧ t'.rows = r :: t.rows := by
  unfold insert?
  rw [find?_eq_none]
  by_cases h : key r ∈ t.rows.map key
  · rw [dif_pos h]
    obtain ⟨r', hr', hk⟩ := List.mem_map.mp h
    simp only [reduceCtorEq, false_iff, not_and]
    exact fun hn => absurd hk (hn r' hr')
  · rw [dif_neg h]
    have hn : ∀ r' ∈ t, key r' ≠ key r := fun r' hr' hk => h (List.mem_map.mpr ⟨r', hr', hk⟩)
    rw [Option.some.injEq, Table.ext_iff]
    exact ⟨fun h' => ⟨hn, h'.symm⟩, fun h' => h'.2.symm⟩

theorem insert?_eq_none {t : Table ρ} {r : ρ} : t.insert? r = none ↔ ∃ r', t.find? (key r) = some r' := by
  constructor
  · intro h
    cases hf : t.find? (key r) with
    | none =>
      have hnot : ¬ key r ∈ t.rows.map key := by
        intro hm
        obtain ⟨r', hr', hk⟩ := List.mem_map.mp hm
        exact find?_eq_none.mp hf r' hr' hk
      simp [insert?, hnot] at h
    | some r' => exact ⟨r', rfl⟩
  · rintro ⟨r', hr'⟩
    have hm : key r ∈ t.rows.map key :=
      List.mem_map.mpr ⟨r', mem_of_find? hr', key_of_find? hr'⟩
    simp [insert?, hm]

theorem updateAt_eq_some {t t' : Table ρ} {k : κ} {guard : ρ → Bool} {f : ρ → ρ} {r' : ρ} :
    t.updateAt k guard f = some (r', t') ↔
      ∃ r, t.find? k = some r ∧ guard r = true ∧ r' = f r ∧ t' = t.put r' := by
  unfold updateAt
  cases h : t.find? k with
  | none => simp
  | some r =>
    by_cases hg : guard r = true
    · simp only [hg, if_true, Option.some.injEq, Prod.mk.injEq, exists_eq_left', true_and]
      constructor
      · rintro ⟨rfl, rfl⟩
        exact ⟨rfl, rfl⟩
      · rintro ⟨rfl, rfl⟩
        exact ⟨rfl, rfl⟩
    · simp [hg]

theorem updateAt_eq_none {t : Table ρ} {k : κ} {guard : ρ → Bool} {f : ρ → ρ} :
    t.updateAt k guard f = none ↔ ∀ r, t.find? k = some r → guard r = false := by
  unfold updateAt
  cases h : t.find? k with
  | none => simp
  | some r => by_cases hg : guard r = true <;> simp [hg]

theorem mem_of_insert? {t t' : Table ρ} {r r' : ρ} (h : t.insert? r = some t') :
    r' ∈ t' ↔ r' = r ∨ r' ∈ t := by
  rw [← mem_rows, (insert?_eq_some.mp h).2, List.mem_cons, mem_rows]

theorem find?_of_insert? {t t' : Table ρ} {r : ρ} (h : t.insert? r = some t') (k : κ) :
    t'.find? k = if key r = k then some r else t.find? k := by
  unfold find?
  rw [(insert?_eq_some.mp h).2, List.find?_cons]
  by_cases hk : key r = k <;> simp [hk]

theorem mem_put {t : Table ρ} {r r' : ρ} :
    r' ∈ t.put r ↔ ∃ r₀ ∈ t, (if key r₀ = key r then r else r₀) = r' := by
  simp [← mem_rows, put]

theorem find?_put (t : Table ρ) (r : ρ) (k : κ) :
    (t.put r).find? k = if key r = k then (t.find? k).map (fun _ => r) else t.find? k := by
  have hk : ∀ r' : ρ, key (if key r' = key r then r else r') = key r' := by
    intro r'
    by_cases hk : key r' = key r <;> simp [hk]
  unfold find? put
  rw [List.find?_map]
  have hcomp : ((fun r' => decide (key r' = k)) ∘ fun r' => if key r' = key r then r else r') =
      fun r' => decide (key r' = k) := by
    funext r'
    simp [hk]
  rw [hcomp]
  by_cases h : key r = k
  · rw [if_pos h]
    cases hf : t.rows.find? (fun r' => key r' = k) with
    | none => rfl
    | some r' =>
      have hk' : key r' = k := by simpa using List.find?_some hf
      simp [hk', h]
  · rw [if_neg h]
    cases hf : t.rows.find? (fun r' => key r' = k) with
    | none => rfl
    | some r' =>
      have hk' : key r' = k := by simpa using List.find?_some hf
      have hne : ¬ k = key r := fun he => h he.symm
      simp [hk', hne]

/-- The lookups after a write at a key that is there. -/
theorem find?_put_of_find? {t : Table ρ} {r r₀ : ρ} (h : t.find? (key r) = some r₀) (k : κ) :
    (t.put r).find? k = if key r = k then some r else t.find? k := by
  rw [find?_put]
  by_cases hk : key r = k
  · subst hk
    simp [h]
  · simp [hk]

theorem find?_inserted {t : Table ρ} {r : ρ} (h : t.find? (key r) = none) (k : κ) :
    (t.inserted r).find? k = if key r = k then some r else t.find? k := by
  unfold inserted
  cases hi : t.insert? r with
  | none =>
    obtain ⟨r', hr'⟩ := insert?_eq_none.mp hi
    exact nomatch h.symm.trans hr'
  | some t' => exact find?_of_insert? hi k

theorem find?_modified {t : Table ρ} {f : ρ → ρ} (hf : ∀ r, key (f r) = key r) (k k' : κ) :
    (t.modified k f).find? k' = if k = k' then (t.find? k').map f else t.find? k' := by
  unfold modified
  cases h : t.find? k with
  | none =>
    by_cases hk : k = k'
    · subst hk
      simp [h]
    · simp [hk]
  | some r =>
    have hkey : key (f r) = k := (hf r).trans (key_of_find? h)
    have hput : (t.put (f r)).find? k' = if key (f r) = k' then some (f r) else t.find? k' :=
      find?_put_of_find? (by rw [hkey]; exact h) k'
    rw [hkey] at hput
    by_cases hk : k = k'
    · subst hk
      rw [hput]
      simp [h]
    · rw [hput]
      simp [hk]

/-- Several rows written: a second write of one row changes nothing more. -/
theorem find?_foldl_modified {f : ρ → ρ} (hf : ∀ r, key (f r) = key r) (hidem : ∀ r, f (f r) = f r)
    (ks : List κ) (k' : κ) (t : Table ρ) :
    (ks.foldl (fun t k => t.modified k f) t).find? k' =
      if k' ∈ ks then (t.find? k').map f else t.find? k' := by
  induction ks generalizing t with
  | nil => simp
  | cons k ks ih =>
    rw [List.foldl_cons, ih, find?_modified hf]
    by_cases hk : k = k'
    · subst hk
      by_cases hmem : k ∈ ks <;> simp [hmem, Option.map_map, Function.comp_def, hidem]
    · have hk' : ¬ k' = k := fun h => hk h.symm
      simp [hk, hk']

/-- What holds of every row after a write holds of the row written and of every other row. -/
theorem forall_mem_put {t : Table ρ} {r r₀ : ρ} {P : ρ → Prop} (h : t.find? (key r) = some r₀) :
    (∀ x ∈ t.put r, P x) ↔ P r ∧ ∀ x ∈ t, key x ≠ key r → P x := by
  constructor
  · intro hall
    refine ⟨hall r (mem_put.mpr ⟨r₀, mem_of_find? h, if_pos (key_of_find? h)⟩), ?_⟩
    intro x hx hne
    exact hall x (mem_put.mpr ⟨x, hx, if_neg hne⟩)
  · rintro ⟨hr, hother⟩ x hx
    obtain ⟨x₀, hx₀, rfl⟩ := mem_put.mp hx
    by_cases hk : key x₀ = key r
    · rw [if_pos hk]
      exact hr
    · rw [if_neg hk]
      exact hother x₀ hx₀ hk

theorem forall_mem_of_insert? {t t' : Table ρ} {r : ρ} {P : ρ → Prop} (h : t.insert? r = some t') :
    (∀ x ∈ t', P x) ↔ P r ∧ ∀ x ∈ t, P x := by
  constructor
  · intro hall
    exact ⟨hall r ((mem_of_insert? h).mpr (.inl rfl)),
      fun x hx => hall x ((mem_of_insert? h).mpr (.inr hx))⟩
  · rintro ⟨hr, hother⟩ x hx
    rcases (mem_of_insert? h).mp hx with rfl | hx
    · exact hr
    · exact hother x hx

/-- A key that is there stays there. -/
theorem exists_find?_put {t : Table ρ} {r x : ρ} {k : κ} (h : t.find? k = some x) :
    ∃ y, (t.put r).find? k = some y := by
  rw [find?_put]
  by_cases hk : key r = k <;> simp [hk, h]

theorem exists_find?_of_insert? {t t' : Table ρ} {r x : ρ} {k : κ} (hi : t.insert? r = some t')
    (h : t.find? k = some x) : ∃ y, t'.find? k = some y := by
  rw [find?_of_insert? hi]
  by_cases hk : key r = k <;> simp [hk, h]

/-- A row that is there is the row written over, or is still there. -/
theorem find?_put_or {t : Table ρ} {r r₀ old : ρ} {k : κ} (h : t.find? (key r) = some r₀)
    (hold : t.find? k = some old) :
    (old = r₀ ∧ (t.put r).find? k = some r) ∨ (t.put r).find? k = some old := by
  have hput := find?_put_of_find? h k
  by_cases hkey : key r = k
  · rw [if_pos hkey] at hput
    rw [hkey, hold] at h
    exact .inl ⟨Option.some.inj h, hput⟩
  · rw [if_neg hkey] at hput
    exact .inr (hput.trans hold)

/-- An `INSERT` leaves every row that is there. -/
theorem find?_of_insert?_of_find? {t t' : Table ρ} {r old : ρ} {k : κ} (h : t.insert? r = some t')
    (hold : t.find? k = some old) : t'.find? k = some old := by
  have hfind := find?_of_insert? h k
  by_cases hkey : key r = k
  · have hnone := (insert?_eq_some.mp h).1
    rw [hkey, hold] at hnone
    exact nomatch hnone
  · rw [if_neg hkey] at hfind
    exact hfind.trans hold

/-- A write at the key just inserted is the insertion of the written row. -/
theorem insert?_put {t t' : Table ρ} {r : ρ} (r' : ρ) (h : t.insert? r = some t')
    (hk : key r' = key r) :
    t.insert? r' = some (t'.put r') := by
  obtain ⟨hf, hrows⟩ := insert?_eq_some.mp h
  refine insert?_eq_some.mpr ⟨by rw [hk]; exact hf, ?_⟩
  have htail : t.rows.map (fun r'' => if key r'' = key r' then r' else r'') = t.rows.map id := by
    refine List.map_congr_left (fun r'' hr'' => ?_)
    have hne : key r'' ≠ key r' := by
      rw [hk]
      exact find?_eq_none.mp hf r'' hr''
    simp [hne]
  simp only [put, hrows, List.map_cons, hk.symm, if_true, htail, List.map_id_fun, id_eq]

/-! ### Aggregates -/

theorem sum_of_insert? {t t' : Table ρ} {r : ρ} (h : t.insert? r = some t') (w : ρ → ℤ) :
    t'.sum w = w r + t.sum w := by
  simp [sum, (insert?_eq_some.mp h).2]

omit [DecidableEq κ] in
theorem key_not_mem_tail {a : ρ} {l : List ρ} (hl : ((a :: l).map key).Nodup) :
    ∀ r' ∈ l, key r' ≠ key a := by
  intro r' hr' he
  rw [List.map_cons, List.nodup_cons] at hl
  exact hl.1 (List.mem_map.mpr ⟨r', hr', he⟩)

theorem sum_map_put (l : List ρ) (hl : (l.map key).Nodup) (w : ρ → ℤ) {r r₀ : ρ} (hr : r₀ ∈ l)
    (hk : key r₀ = key r) :
    ((l.map (fun r' => if key r' = key r then r else r')).map w).sum = (l.map w).sum - w r₀ + w r := by
  induction l with
  | nil => simp at hr
  | cons a l ih =>
    by_cases ha : key a = key r
    · -- the row written is the head: the tail holds no other row of its key
      have hra : r₀ = a := by
        rcases List.mem_cons.mp hr with h | h
        · exact h
        · exact absurd (hk.trans ha.symm) (key_not_mem_tail hl r₀ h)
      subst hra
      have htail : l.map (fun r' => if key r' = key r then r else r') = l.map id := by
        refine List.map_congr_left (fun r' hr' => ?_)
        have hne : key r' ≠ key r := fun he => key_not_mem_tail hl r' hr' (he.trans ha.symm)
        simp [hne]
      simp only [List.map_cons, if_pos ha, List.sum_cons, htail, List.map_id_fun, id_eq]
      ring
    · have hrl : r₀ ∈ l := by
        rcases List.mem_cons.mp hr with h | h
        · exact absurd (h ▸ hk) ha
        · exact h
      have := ih (by simpa using (List.nodup_cons.mp (by simpa using hl)).2) hrl
      simp only [List.map_cons, if_neg ha, List.sum_cons, this]
      ring

/-- **A measure after a write at one key**: it moves by the difference at the row written. -/
theorem sum_put {t : Table ρ} {r r₀ : ρ} (h : t.find? (key r) = some r₀) (w : ρ → ℤ) :
    (t.put r).sum w = t.sum w - w r₀ + w r := by
  have := sum_map_put t.rows t.nodup w (mem_of_find? h) (key_of_find? h)
  simpa [sum, put] using this

end Table

end Lib
