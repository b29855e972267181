import Mathlib.Tactic
import Binarius.Lib.OrderedMap

/-!
# Lib.BoundedMap — an ordered map of at most so many entries

A write goes to the end; where the map is full, the oldest entry leaves.

* `renew`, `evicts`: the write, and the key it drives out.
* `get?_renew`, `length_renew_le`: **the lookups and the size after a write**.
* `trim`: the oldest entries leave until no more than the bound stay.
* `InOrder`: the entries stand in the order of their keys' last writes; `InOrder.evicted`: **a key driven
  out** has seen as many other keys written since its own last write as the map holds.
-/

namespace Lib

namespace OrderedMap

variable {κ ν : Type} [DecidableEq κ] (m : OrderedMap κ ν) (maxEntries : ℕ) (k : κ) (v : ν)

/-- The key a write drives out: the oldest of a full map. -/
def evicts : Option κ :=
  if maxEntries ≤ (m.erase k).entries.length then (m.erase k).keys.head? else none

/-- A write at the end. -/
def renew : OrderedMap κ ν :=
  match m.evicts maxEntries k with
  | none => (m.erase k).set k v
  | some oldest => ((m.erase k).erase oldest).set k v

variable {m maxEntries k v}

theorem evicts_ne {oldest : κ} (h : m.evicts maxEntries k = some oldest) : oldest ≠ k := by
  unfold evicts at h
  split_ifs at h with hfull
  have hmem : oldest ∈ (m.erase k).keys := List.mem_of_head? h
  obtain ⟨v', hv'⟩ := mem_keys.mp hmem
  rw [get?_erase] at hv'
  rintro rfl
  rw [if_pos rfl] at hv'
  cases hv'

theorem get?_renew (k' : κ) : (m.renew maxEntries k v).get? k' =
    if k = k' then some v else if m.evicts maxEntries k = some k' then none else m.get? k' := by
  unfold renew
  cases hevicts : m.evicts maxEntries k with
  | none =>
    show ((m.erase k).set k v).get? k' = _
    rw [get?_set, get?_erase]
    split_ifs with hk
    · rfl
    · rename_i hnone
      cases hnone
    · rfl
  | some oldest =>
    show (((m.erase k).erase oldest).set k v).get? k' = _
    rw [get?_set, get?_erase, get?_erase]
    by_cases hk : k = k'
    · rw [if_pos hk, if_pos hk]
    · rw [if_neg hk, if_neg hk, if_neg hk]
      by_cases ho : oldest = k'
      · rw [if_pos ho, if_pos (congrArg some ho)]
      · rw [if_neg ho, if_neg (fun h => ho (Option.some.inj h))]

/-- What a write leaves of the map before it. -/
theorem renew_entries : ∃ q : κ × ν → Bool,
    (m.renew maxEntries k v).entries = m.entries.filter q ++ [(k, v)] ∧ ∀ e, q e = true → e.1 ≠ k := by
  have hset : ∀ m' : OrderedMap κ ν, m'.get? k = none → (m'.set k v).entries = m'.entries ++ [(k, v)] := by
    intro m' hnone
    have habsent : k ∉ m'.entries.map Prod.fst := get?_eq_none.mp hnone
    unfold set
    rw [dif_neg habsent]
  have hgone : (m.erase k).get? k = none := by rw [get?_erase, if_pos rfl]
  unfold renew
  cases hevicts : m.evicts maxEntries k with
  | none =>
    refine ⟨fun e => decide (e.1 ≠ k), ?_, fun e he => of_decide_eq_true he⟩
    exact hset _ hgone
  | some oldest =>
    refine ⟨fun e => decide (e.1 ≠ oldest) && decide (e.1 ≠ k), ?_, fun e he => ?_⟩
    · have hgone' : ((m.erase k).erase oldest).get? k = none := by rw [get?_erase, if_neg (evicts_ne hevicts), hgone]
      show (((m.erase k).erase oldest).set k v).entries = _
      rw [hset _ hgone']
      show (m.entries.filter _).filter _ ++ _ = _
      rw [List.filter_filter]
    · exact of_decide_eq_true (Bool.and_eq_true_iff.mp he).2

/-- An entry less, where the key was there. -/
theorem length_erase_le : (m.erase k).entries.length ≤ m.entries.length := List.length_filter_le _ _

theorem length_renew_le (hmax : 0 < maxEntries) (h : m.entries.length ≤ maxEntries) :
    (m.renew maxEntries k v).entries.length ≤ maxEntries := by
  have hadd : ∀ m' : OrderedMap κ ν, (m'.set k v).entries.length ≤ m'.entries.length + 1 := by
    intro m'
    rw [length_set]
    split_ifs <;> omega
  unfold renew
  cases hevicts : m.evicts maxEntries k with
  | none =>
    have hlen := hadd (m.erase k)
    unfold evicts at hevicts
    split_ifs at hevicts with hfull
    · -- a full map that drives nothing out is empty
      have hempty := List.head?_eq_none_iff.mp hevicts
      have hzero : (m.erase k).entries.length = 0 := by
        rw [← List.length_map (f := Prod.fst), show (m.erase k).entries.map Prod.fst = [] from hempty, List.length_nil]
      show ((m.erase k).set k v).entries.length ≤ maxEntries
      omega
    · show ((m.erase k).set k v).entries.length ≤ maxEntries
      omega
  | some oldest =>
    have hlen := hadd ((m.erase k).erase oldest)
    have hmem : oldest ∈ (m.erase k).keys := by
      unfold evicts at hevicts
      split_ifs at hevicts with hfull
      exact List.mem_of_head? hevicts
    obtain ⟨v', hv'⟩ := mem_keys.mp hmem
    have hless := length_erase hv'
    have hle : (m.erase k).entries.length ≤ m.entries.length := length_erase_le
    show (((m.erase k).erase oldest).set k v).entries.length ≤ maxEntries
    omega

/-- The newest entries, as many as may stay. -/
def trim (m : OrderedMap κ ν) (maxEntries : ℕ) : OrderedMap κ ν where
  entries := m.entries.drop (m.entries.length - maxEntries)
  nodup := m.nodup.sublist ((List.drop_sublist _ _).map _)

omit [DecidableEq κ] in
theorem length_trim_le : (m.trim maxEntries).entries.length ≤ maxEntries := by
  unfold trim
  rw [List.length_drop]
  omega

omit [DecidableEq κ] in
theorem trim_eq_self (h : m.entries.length ≤ maxEntries) : m.trim maxEntries = m := by
  unfold trim
  refine OrderedMap.ext ?_
  show m.entries.drop (m.entries.length - maxEntries) = m.entries
  rw [Nat.sub_eq_zero_of_le h, List.drop_zero]

theorem get?_of_trim (h : (m.trim maxEntries).get? k = some v) : m.get? k = some v := by
  rw [get?_eq_some] at h ⊢
  exact List.mem_of_mem_drop h

/-- The entries in the order of their keys' last writes. -/
def InOrder (writes : List κ) (m : OrderedMap κ ν) : Prop :=
  ∀ front e back, m.entries = front ++ e :: back →
    ∃ before since, writes = before ++ e.1 :: since ∧ ∀ e' ∈ back, e'.1 ∈ since

omit [DecidableEq κ] in
theorem inOrder_empty : InOrder [] (empty : OrderedMap κ ν) := by
  intro front e back h
  exact absurd h.symm (by simp [empty])

theorem InOrder.renew {writes : List κ} (h : InOrder writes m) :
    InOrder (writes ++ [k]) (m.renew maxEntries k v) := by
  obtain ⟨q, hentries, -⟩ := @renew_entries _ _ _ m maxEntries k v
  intro front e back heq
  rw [hentries] at heq
  rcases List.append_eq_append_iff.mp heq with ⟨mid, hfront, hback⟩ | ⟨mid, hfilter, hback⟩
  · -- the new entry, at the end
    rcases List.append_eq_singleton_iff.mp hback.symm with ⟨rfl, hlast⟩ | ⟨rfl, hlast⟩
    · obtain ⟨rfl, rfl⟩ := List.cons.inj hlast
      exact ⟨writes, [], rfl, fun e' he' => absurd he' List.not_mem_nil⟩
    · cases hlast
  · cases mid with
    | nil =>
      obtain ⟨rfl, rfl⟩ := List.cons.inj hback
      exact ⟨writes, [], rfl, fun e' he' => absurd he' List.not_mem_nil⟩
    | cons e' mid =>
      obtain ⟨rfl, rfl⟩ := List.cons.inj hback
      obtain ⟨front', rest, hsplit, -, hrest⟩ := List.filter_eq_append_iff.mp hfilter
      obtain ⟨skipped, back', rfl, -, -, hback'⟩ := List.filter_eq_cons_iff.mp hrest
      rw [← List.append_assoc] at hsplit
      obtain ⟨before, since, hwrites, hsince⟩ := h _ e back' hsplit
      refine ⟨before, since ++ [k], by rw [hwrites, List.append_assoc, List.cons_append], fun e' he' => ?_⟩
      rcases List.mem_append.mp he' with hold | hnew
      · rw [← hback'] at hold
        exact List.mem_append_left _ (hsince e' (List.mem_filter.mp hold).1)
      · rw [List.mem_singleton.mp hnew]
        exact List.mem_append_right _ (List.mem_singleton.mpr rfl)

/-- **A key driven out**: since its last write, as many others were written as the map holds. -/
theorem InOrder.evicted {writes : List κ} {oldest : κ} (h : InOrder writes m)
    (hmax : m.entries.length ≤ maxEntries) (hevicts : m.evicts maxEntries k = some oldest) :
    ∃ (before since others : List κ), writes ++ [k] = before ++ oldest :: since ∧ others.Nodup ∧
      others.length = maxEntries ∧ oldest ∉ others ∧ ∀ k' ∈ others, k' ∈ since := by
  have hne := evicts_ne hevicts
  unfold evicts at hevicts
  split_ifs at hevicts with hfull
  have habsent : m.get? k = none := by
    cases hget : m.get? k with
    | none => rfl
    | some v' =>
      have hless := length_erase hget
      omega
  -- the map is full of other keys, the oldest first
  have hsame : (m.erase k).entries = m.entries := by
    refine List.filter_eq_self.mpr (fun e he => decide_eq_true ?_)
    intro hek
    exact get?_eq_none.mp habsent (hek ▸ List.mem_map_of_mem he)
  unfold keys at hevicts
  rw [hsame] at hevicts hfull
  have hnodup := m.nodup
  cases hentries : m.entries with
  | nil =>
    rw [hentries] at hevicts
    cases hevicts
  | cons e back =>
    rw [hentries] at hevicts hnodup hfull hmax
    obtain rfl := Option.some.inj hevicts
    obtain ⟨before, since, hwrites, hsince⟩ := h [] e back hentries
    rw [List.map_cons, List.nodup_cons] at hnodup
    refine ⟨before, since ++ [k], back.map Prod.fst ++ [k], ?_, ?_, ?_, ?_, fun k' hk' => ?_⟩
    · rw [hwrites, List.append_assoc, List.cons_append]
    · rw [List.nodup_append]
      refine ⟨hnodup.2, List.nodup_singleton _, fun a ha b hb hab => ?_⟩
      rw [List.mem_singleton.mp hb] at hab
      refine get?_eq_none.mp habsent ?_
      unfold keys
      rw [hentries, List.map_cons, ← hab]
      exact List.mem_cons_of_mem _ ha
    · rw [List.length_append, List.length_map, List.length_singleton]
      rw [List.length_cons] at hfull hmax
      omega
    · rw [List.mem_append, List.mem_singleton]
      rintro (hin | hin)
      · exact hnodup.1 hin
      · exact hne hin
    · rcases List.mem_append.mp hk' with hin | hin
      · obtain ⟨e', he', rfl⟩ := List.mem_map.mp hin
        exact List.mem_append_left _ (hsince e' he')
      · exact List.mem_append_right _ hin

end OrderedMap

end Lib
