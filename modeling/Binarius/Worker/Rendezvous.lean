import Mathlib
import Binarius.Lib.ArgMax

/-!
# Worker.Rendezvous — the process that owns an account (apps/trading-worker/src/fleet/rendezvous.ts)

A string is the list of its UTF-16 code units and a buffer the list of its bytes; `<` on strings and
`Buffer.compare` are the lexicographic orders on them.  The digest, `sha256` by default, is a parameter.

* `ownerOf_eq_greatest`: the scan keeps the owner of the greatest weight, the lower id on equal weights.
* `ownerOf_stable`: **the owner does not depend on the order of the list; a join moves accounts to the
  newcomer only; a leave moves only the leaver's accounts**.
-/

namespace Binarius

open Lib

abbrev Utf16 := List (Fin 65536)

abbrev Bytes := List (Fin 256)

abbrev Digest := Utf16 → Bytes

namespace Rendezvous

/-- The text `${owner}:${accountId}`. -/
def weightText (owner accountId : Utf16) : Utf16 := owner ++ 0x3A :: accountId

/-- `Buffer.compare`: the first byte that differs decides, then the length. -/
def bufferCompare (a b : Bytes) : Ordering :=
  if a < b then Ordering.lt else if a = b then Ordering.eq else Ordering.gt

theorem bufferCompare_gt {a b : Bytes} : bufferCompare a b = Ordering.gt ↔ b < a := by
  unfold bufferCompare
  split_ifs with hlt heq
  · simp [hlt.le]
  · simp [heq]
  · simpa using lt_of_le_of_ne (not_lt.mp hlt) (Ne.symm heq)

theorem bufferCompare_eq {a b : Bytes} : bufferCompare a b = Ordering.eq ↔ a = b := by
  unfold bufferCompare
  split_ifs with hlt heq
  · simp [hlt.ne]
  · simp [heq]
  · simp [heq]

/-- `best` and `bestWeight` of the loop. -/
structure Best where
  best : Option Utf16
  bestWeight : Option Bytes

/-- One turn of the loop over `live`. -/
def turn (accountId : Utf16) (digest : Digest) (s : Best) (owner : Utf16) : Best :=
  let weight := digest (weightText owner accountId)
  let order :=
    match s.bestWeight with
    | none => Ordering.gt
    | some bestWeight => bufferCompare weight bestWeight
  -- `owner < undefined` is false
  let lower :=
    match s.best with
    | none => false
    | some best => decide (owner < best)
  if order = Ordering.gt ∨ (order = Ordering.eq ∧ lower = true) then ⟨some owner, some weight⟩ else s

def ownerOf (accountId : Utf16) (live : List Utf16) (digest : Digest) : Option Utf16 :=
  (live.foldl (turn accountId digest) ⟨none, none⟩).best

/-! ## The rank of an owner -/

/-- The weight first, then the lower id. -/
def rank (accountId : Utf16) (digest : Digest) (owner : Utf16) : Bytes ×ₗ Utf16ᵒᵈ :=
  toLex (digest (weightText owner accountId), OrderDual.toDual owner)

theorem rank_injective (accountId : Utf16) (digest : Digest) :
    Function.Injective (rank accountId digest) := by
  intro owner owner' h
  have hsnd := congrArg (fun r => OrderDual.ofDual (ofLex r).2) h
  exact hsnd

theorem rank_lt_iff {accountId : Utf16} {digest : Digest} {best owner : Utf16} :
    rank accountId digest best < rank accountId digest owner ↔
      digest (weightText best accountId) < digest (weightText owner accountId) ∨
        digest (weightText best accountId) = digest (weightText owner accountId) ∧ owner < best := by
  unfold rank
  rw [Prod.Lex.toLex_lt_toLex]
  exact Iff.rfl

/-- What the loop holds of a best owner. -/
def holding (accountId : Utf16) (digest : Digest) (best : Option Utf16) : Best :=
  ⟨best, best.map fun owner => digest (weightText owner accountId)⟩

/-- One turn keeps the owner of the greater rank. -/
theorem turn_holding (accountId : Utf16) (digest : Digest) (best : Option Utf16) (owner : Utf16) :
    turn accountId digest (holding accountId digest best) owner =
      holding accountId digest (better (rank accountId digest) best owner) := by
  cases best with
  | none => rfl
  | some best =>
    unfold turn holding better
    simp only [Option.map_some]
    by_cases hlt : rank accountId digest best < rank accountId digest owner
    · rw [if_pos hlt, if_pos]
      · rfl
      · rcases rank_lt_iff.mp hlt with hweight | ⟨heq, hlower⟩
        · exact Or.inl (bufferCompare_gt.mpr hweight)
        · exact Or.inr ⟨bufferCompare_eq.mpr heq.symm, by simpa using hlower⟩
    · rw [if_neg hlt, if_neg]
      · rfl
      · rintro (hweight | ⟨heq, hlower⟩)
        · exact hlt (rank_lt_iff.mpr (Or.inl (bufferCompare_gt.mp hweight)))
        · exact hlt (rank_lt_iff.mpr (Or.inr ⟨(bufferCompare_eq.mp heq).symm, by simpa using hlower⟩))

theorem foldl_turn (accountId : Utf16) (digest : Digest) (live : List Utf16) (best : Option Utf16) :
    live.foldl (turn accountId digest) (holding accountId digest best) =
      holding accountId digest (live.foldl (better (rank accountId digest)) best) := by
  induction live generalizing best with
  | nil => rfl
  | cons owner live ih =>
    rw [List.foldl_cons, List.foldl_cons, turn_holding]
    exact ih _

/-- The scan of the code is the scan for the greatest rank. -/
theorem ownerOf_eq_greatest (accountId : Utf16) (live : List Utf16) (digest : Digest) :
    ownerOf accountId live digest = greatest (rank accountId digest) live :=
  congrArg Best.best (foldl_turn accountId digest live none)

/-- **Rendezvous assignment is stable**: the order of the live set does not matter, an account moves at a
join to the newcomer only, and at a leave only when it was the leaver's. -/
theorem ownerOf_stable (accountId : Utf16) (live : List Utf16) (digest : Digest) :
    (∀ live', live'.Perm live → ownerOf accountId live' digest = ownerOf accountId live digest) ∧
      (∀ worker live', live'.Perm (worker :: live) →
        ownerOf accountId live' digest ≠ ownerOf accountId live digest →
        ownerOf accountId live' digest = some worker) ∧
      ∀ worker live', live.Perm (worker :: live') →
        ownerOf accountId live' digest ≠ ownerOf accountId live digest →
        ownerOf accountId live digest = some worker := by
  have hrank := rank_injective accountId digest
  simp only [ownerOf_eq_greatest]
  refine ⟨fun live' h => greatest_perm hrank h, fun worker live' h => greatest_insert hrank ?_,
    fun worker live' h hne => ?_⟩
  · intro b
    rw [h.mem_iff, List.mem_cons]
  · -- a worker listed twice has not left with one of its two entries
    have hnot : worker ∉ live' := by
      intro hmem
      refine hne (greatest_congr hrank fun b => ?_)
      rw [h.mem_iff, List.mem_cons]
      exact ⟨Or.inr, fun hb => hb.elim (fun heq => heq ▸ hmem) id⟩
    refine greatest_remove hrank (fun b => ?_) hne
    rw [h.mem_iff, List.mem_cons]
    constructor
    · intro hb
      refine ⟨Or.inr hb, ?_⟩
      rintro rfl
      exact hnot hb
    · rintro ⟨rfl | hb, hne'⟩
      · exact absurd rfl hne'
      · exact hb

end Rendezvous

end Binarius
