import Mathlib.Tactic

/-!
# Lib.CellRing — a ring of the newest values of a stream

Position `i` of the stream is stored in cell `i mod capacity`, so a write overwrites the value
`capacity` positions before it and no other value of the newest `capacity` positions.

* `CellRing.read_write_self`, `CellRing.read_write_near`: **what a write leaves of the window around it**.
-/

namespace Lib

/-- The cells of a ring, by their index below the capacity. -/
structure CellRing (α : Type) where
  cell : ℕ → Option α

namespace CellRing

variable {α : Type}

def empty : CellRing α := ⟨fun _ => none⟩

instance : Inhabited (CellRing α) := ⟨empty⟩

/-- The cell of a position. -/
def slot (capacity : ℕ) (i : ℤ) : ℕ := (i % capacity).toNat

def read (r : CellRing α) (capacity : ℕ) (i : ℤ) : Option α := r.cell (slot capacity i)

def write (r : CellRing α) (capacity : ℕ) (i : ℤ) (v : Option α) : CellRing α :=
  ⟨Function.update r.cell (slot capacity i) v⟩

@[simp] theorem read_write_self (r : CellRing α) (capacity : ℕ) (i : ℤ) (v : Option α) :
    (r.write capacity i v).read capacity i = v := by
  simp [read, write]

theorem slot_lt {capacity : ℕ} (h : 0 < capacity) (i : ℤ) : slot capacity i < capacity := by
  have hlt : i % capacity < capacity := Int.emod_lt_of_pos i (by omega)
  have hnonneg : 0 ≤ i % capacity := Int.emod_nonneg i (by omega)
  unfold slot
  omega

/-- Two positions less than a capacity apart have different cells. -/
theorem slot_ne {capacity : ℕ} {i j : ℤ} (hlt : i < j) (hnear : j < i + capacity) :
    slot capacity i ≠ slot capacity j := by
  intro heq
  have hpos : (0 : ℤ) < capacity := by omega
  have hi := Int.emod_nonneg i hpos.ne'
  have hj := Int.emod_nonneg j hpos.ne'
  have hmod : i % capacity = j % capacity := by
    unfold slot at heq
    omega
  have hdvd : (capacity : ℤ) ∣ j - i := Int.ModEq.dvd hmod
  have hle := Int.le_of_dvd (by omega) hdvd
  omega

/-- **A write leaves every other position of the window.** -/
theorem read_write_near {r : CellRing α} {capacity : ℕ} {i j : ℤ} (hlt : i < j)
    (hnear : j < i + capacity) (v : Option α) :
    (r.write capacity j v).read capacity i = r.read capacity i := by
  unfold read write
  exact Function.update_of_ne (slot_ne hlt hnear) _ _

end CellRing

end Lib
