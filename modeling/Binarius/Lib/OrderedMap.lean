import Mathlib.Tactic

/-!
# Lib.OrderedMap — maps that keep the order of insertion

An `OrderedMap κ ν` is a list of entries with pairwise distinct keys.  A write at a key that is there
stays in its place; at a new key it goes to the end.

* `get?`, `set`, `erase`, `mapVal`: lookup, the two writes, one change of every value.
* `get?_set`, `get?_erase`, `get?_mapVal`: **the lookups after a write**.
* `length_set`, `length_erase`: the sizes.
* `filterMap_flatMap_of_key`: what a pass over the entries says about one key.
-/

namespace Lib

/-- The entries, in the order their keys were first written. -/
structure OrderedMap (κ ν : Type) where
  entries : List (κ × ν)
  nodup : (entries.map Prod.fst).Nodup

namespace OrderedMap

variable {κ ν : Type}

@[ext] theorem ext {m m' : OrderedMap κ ν} (h : m.entries = m'.entries) : m = m' := by
  cases m
  cases m'
  simpa using h

def empty : OrderedMap κ ν := ⟨[], List.nodup_nil⟩

instance : Inhabited (OrderedMap κ ν) := ⟨empty⟩

def keys (m : OrderedMap κ ν) : List κ := m.entries.map Prod.fst

/-- One change of every value. -/
def mapVal (m : OrderedMap κ ν) (f : κ → ν → ν) : OrderedMap κ ν where
  entries := m.entries.map (fun e => (e.1, f e.1 e.2))
  nodup := by
    have hcomp : (Prod.fst ∘ fun e : κ × ν => (e.1, f e.1 e.2)) = Prod.fst := rfl
    rw [List.map_map, hcomp]
    exact m.nodup

variable [DecidableEq κ]

def get? (m : OrderedMap κ ν) (k : κ) : Option ν := (m.entries.find? (fun e => e.1 = k)).map Prod.snd

def has (m : OrderedMap κ ν) (k : κ) : Bool := (m.get? k).isSome

@[simp] theorem get?_empty (k : κ) : (empty : OrderedMap κ ν).get? k = none := rfl

theorem get?_eq_some {m : OrderedMap κ ν} {k : κ} {v : ν} : m.get? k = some v ↔ (k, v) ∈ m.entries := by
  unfold get?
  rw [Option.map_eq_some_iff]
  constructor
  · rintro ⟨e, he, rfl⟩
    have hk : e.1 = k := by simpa using List.find?_some he
    rw [← hk]
    exact List.mem_of_find?_eq_some he
  · intro hmem
    cases hfind : m.entries.find? (fun e => e.1 = k) with
    | none =>
      have hne := List.find?_eq_none.mp hfind (k, v) hmem
      simp at hne
    | some e =>
      have hk : e.1 = k := by simpa using List.find?_some hfind
      have heq : e = (k, v) :=
        List.inj_on_of_nodup_map m.nodup (List.mem_of_find?_eq_some hfind) hmem hk
      exact ⟨e, rfl, by rw [heq]⟩

theorem get?_eq_none {m : OrderedMap κ ν} {k : κ} : m.get? k = none ↔ k ∉ m.keys := by
  unfold get? keys
  rw [Option.map_eq_none_iff, List.find?_eq_none]
  constructor
  · intro hall hmem
    obtain ⟨e, he, rfl⟩ := List.mem_map.mp hmem
    simpa using hall e he
  · intro hnot e he hk
    exact hnot (List.mem_map.mpr ⟨e, he, by simpa using hk⟩)

theorem mem_keys {m : OrderedMap κ ν} {k : κ} : k ∈ m.keys ↔ ∃ v, m.get? k = some v := by
  cases h : m.get? k with
  | none => simpa using get?_eq_none.mp h
  | some v =>
    have hmem : k ∈ m.keys := by
      by_contra hnot
      exact nomatch h.symm.trans (get?_eq_none.mpr hnot)
    simpa using hmem

/-- A write of one key: in its place, or at the end. -/
def set (m : OrderedMap κ ν) (k : κ) (v : ν) : OrderedMap κ ν :=
  if h : k ∈ m.entries.map Prod.fst then m.mapVal (fun k' v' => if k' = k then v else v')
  else ⟨m.entries ++ [(k, v)], by
    rw [List.map_append, List.nodup_append]
    refine ⟨m.nodup, List.nodup_singleton _, ?_⟩
    intro a ha b hb hab
    have hbk : b = k := by simpa using hb
    exact h (hbk ▸ hab ▸ ha)⟩

def erase (m : OrderedMap κ ν) (k : κ) : OrderedMap κ ν where
  entries := m.entries.filter (fun e => e.1 ≠ k)
  nodup := m.nodup.sublist (List.filter_sublist.map _)

/-- The entries that meet a test. -/
def filter (m : OrderedMap κ ν) (p : κ × ν → Bool) : OrderedMap κ ν where
  entries := m.entries.filter p
  nodup := m.nodup.sublist (List.filter_sublist.map _)

theorem get?_filter_eq_some {m : OrderedMap κ ν} {p : κ × ν → Bool} {k : κ} {v : ν} :
    (m.filter p).get? k = some v ↔ m.get? k = some v ∧ p (k, v) = true := by
  rw [get?_eq_some, get?_eq_some]
  exact List.mem_filter

theorem get?_mapVal (m : OrderedMap κ ν) (f : κ → ν → ν) (k : κ) :
    (m.mapVal f).get? k = (m.get? k).map (f k) := by
  unfold get? mapVal
  rw [List.find?_map]
  have hcomp : ((fun e : κ × ν => decide (e.1 = k)) ∘ fun e : κ × ν => (e.1, f e.1 e.2)) =
      fun e : κ × ν => decide (e.1 = k) := rfl
  rw [hcomp]
  cases hfind : m.entries.find? (fun e => e.1 = k) with
  | none => rfl
  | some e =>
    have hk : e.1 = k := by simpa using List.find?_some hfind
    simp [hk]

theorem get?_set (m : OrderedMap κ ν) (k : κ) (v : ν) (k' : κ) :
    (m.set k v).get? k' = if k = k' then some v else m.get? k' := by
  unfold set
  by_cases hmem : k ∈ m.entries.map Prod.fst
  · rw [dif_pos hmem, get?_mapVal]
    by_cases hk : k = k'
    · subst hk
      obtain ⟨v', hv'⟩ := mem_keys.mp hmem
      simp [hv']
    · rw [if_neg hk]
      cases m.get? k' with
      | none => rfl
      | some v' => simp [show ¬ k' = k from fun h => hk h.symm]
  · rw [dif_neg hmem]
    unfold get?
    rw [List.find?_append]
    by_cases hk : k = k'
    · subst hk
      have hnone : m.entries.find? (fun e => e.1 = k) = none := by
        rw [← Option.map_eq_none_iff (f := Prod.snd)]
        exact get?_eq_none.mpr hmem
      simp [hnone]
    · simp [hk]

theorem get?_erase (m : OrderedMap κ ν) (k k' : κ) :
    (m.erase k).get? k' = if k = k' then none else m.get? k' := by
  by_cases hk : k = k'
  · subst hk
    rw [if_pos rfl, get?_eq_none]
    unfold keys erase
    intro hmem
    obtain ⟨e, he, hek⟩ := List.mem_map.mp hmem
    have hne := List.of_mem_filter he
    simp [hek] at hne
  · rw [if_neg hk]
    refine Option.ext (fun v => ?_)
    rw [get?_eq_some, get?_eq_some]
    unfold erase
    rw [List.mem_filter]
    simp [show ¬ k' = k from fun h => hk h.symm]

/-- A new key's entry goes to the end. -/
theorem entries_set_of_none {m : OrderedMap κ ν} {k : κ} (h : m.get? k = none) (v : ν) :
    (m.set k v).entries = m.entries ++ [(k, v)] := by
  have hnot : k ∉ m.entries.map Prod.fst := get?_eq_none.mp h
  unfold set
  rw [dif_neg hnot]

@[simp] theorem entries_erase (m : OrderedMap κ ν) (k : κ) :
    (m.erase k).entries = m.entries.filter (fun e => e.1 ≠ k) := rfl

/-- Erasing the key of the first entry leaves the rest. -/
theorem entries_erase_head {m : OrderedMap κ ν} {e : κ × ν} {rest : List (κ × ν)} (h : m.entries = e :: rest) :
    (m.erase e.1).entries = rest := by
  have hnodup := m.nodup
  rw [h, List.map_cons, List.nodup_cons] at hnodup
  rw [entries_erase, h, List.filter_cons_of_neg (by simp), List.filter_eq_self]
  intro e' he'
  have hne : e'.1 ≠ e.1 := by
    intro heq
    exact hnodup.1 (List.mem_map.mpr ⟨e', he', heq⟩)
  simpa using hne

/-- A write in place keeps the size; a new key adds one. -/
theorem length_set (m : OrderedMap κ ν) (k : κ) (v : ν) :
    (m.set k v).entries.length = if m.get? k = none then m.entries.length + 1 else m.entries.length := by
  unfold set
  by_cases hmem : k ∈ m.entries.map Prod.fst
  · obtain ⟨v', hv'⟩ := mem_keys.mp hmem
    rw [dif_pos hmem, hv', if_neg (by simp)]
    unfold mapVal
    rw [List.length_map]
  · rw [dif_neg hmem, if_pos (get?_eq_none.mpr hmem)]
    simp

/-- An erased key leaves one entry less. -/
theorem length_erase {m : OrderedMap κ ν} {k : κ} {v : ν} (h : m.get? k = some v) :
    (m.erase k).entries.length + 1 = m.entries.length := by
  have hmem := get?_eq_some.mp h
  obtain ⟨entries, nodup⟩ := m
  unfold erase
  simp only at hmem ⊢
  clear h
  induction entries with
  | nil => cases hmem
  | cons e entries ih =>
    rw [List.map_cons, List.nodup_cons] at nodup
    by_cases hk : e.1 = k
    · have hself : entries.filter (fun e => e.1 ≠ k) = entries := by
        rw [List.filter_eq_self]
        intro e' he'
        have hne : e'.1 ≠ k := by
          intro heq
          exact nodup.1 (List.mem_map.mpr ⟨e', he', heq.trans hk.symm⟩)
        simpa using hne
      rw [List.filter_cons_of_neg (by simpa using hk), hself, List.length_cons]
    · have hmem' : (k, v) ∈ entries := by
        rcases List.mem_cons.mp hmem with rfl | hmem
        · exact absurd rfl hk
        · exact hmem
      rw [List.filter_cons_of_pos (by simpa using hk), List.length_cons, List.length_cons,
        ih nodup.2 hmem']

/-- **A pass over the entries, read at one key**: only that key's entry counts. -/
theorem filterMap_flatMap_of_key {β γ : Type} (m : OrderedMap κ ν) {g : κ → ν → List β}
    {proj : β → Option γ} {k : κ} (h : ∀ k' v, k' ≠ k → (g k' v).filterMap proj = []) :
    (m.entries.flatMap (fun e => g e.1 e.2)).filterMap proj =
      match m.get? k with
      | some v => (g k v).filterMap proj
      | none => [] := by
  obtain ⟨entries, nodup⟩ := m
  unfold get?
  simp only
  induction entries with
  | nil => rfl
  | cons e entries ih =>
    rw [List.map_cons, List.nodup_cons] at nodup
    rw [List.flatMap_cons, List.filterMap_append, ih nodup.2, List.find?_cons]
    by_cases hk : e.1 = k
    · have hnone : entries.find? (fun e => e.1 = k) = none := by
        rw [List.find?_eq_none]
        intro e' he' hk'
        have hk'' : e'.1 = k := by simpa using hk'
        exact nodup.1 (List.mem_map.mpr ⟨e', he', hk''.trans hk.symm⟩)
      simp [hk, hnone]
    · rw [h e.1 e.2 hk]
      simp [hk]

end OrderedMap

end Lib
