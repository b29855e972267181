import Mathlib.Tactic

/-!
# Lib.Reads — computations over a lookup, as the reads they make

A computation asks for one key after another, by what it has read so far, and ends with a value.

* `run`: its value over a lookup; `asked`: the keys it reads on the way, in order.
* `run_congr`: **lookups that agree on the keys read give the same run**.
-/

namespace Lib

inductive Reads (κ ν α : Type) where
  | done (value : α)
  | ask (key : κ) (next : ν → Reads κ ν α)

namespace Reads

variable {κ ν α : Type}

def run (lookup : κ → ν) : Reads κ ν α → α
  | done value => value
  | ask key next => (next (lookup key)).run lookup

def asked (lookup : κ → ν) : Reads κ ν α → List κ
  | done _ => []
  | ask key next => key :: (next (lookup key)).asked lookup

theorem run_congr {lookup lookup' : κ → ν} {reads : Reads κ ν α}
    (h : ∀ k ∈ reads.asked lookup, lookup' k = lookup k) : reads.run lookup' = reads.run lookup := by
  induction reads with
  | done value => rfl
  | ask key next ih =>
    have hkey : lookup' key = lookup key := h key List.mem_cons_self
    show (next (lookup' key)).run lookup' = (next (lookup key)).run lookup
    rw [hkey]
    exact ih (lookup key) (fun k hk => h k (List.mem_cons_of_mem _ hk))

end Reads

end Lib
