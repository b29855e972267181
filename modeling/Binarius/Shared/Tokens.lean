import Mathlib.Tactic

/-!
# Shared.Tokens — manual adjustments and Stars packages (packages/shared: ledger.ts, payments.ts)

A note is a list of code points.  The Unicode category `C` that a note may not hold is the runtime's
table: a parameter `isControl` of the check.

* `checkTokenAdjustment_eq_none`: what an adjustment that passes the check moves.
* `starPackageOf_tokens_pos`: every package credits tokens.
-/

namespace Binarius

/-- TOKEN_ADJUSTMENT_MAX_TOKENS. -/
def tokenAdjustmentMaxTokens : ℤ := 1000

/-- TOKEN_LEDGER_NOTE_MAX, in code points. -/
def tokenLedgerNoteMax : ℕ := 512

inductive TokenAdjustmentProblem
  | zero
  | overLimit
  | noteEmpty
  | noteTooLong
  | noteControlChars
  deriving DecidableEq, Repr

def checkTokenDelta (delta : ℤ) : Option TokenAdjustmentProblem :=
  if delta = 0 then some .zero
  else
    let magnitude := if delta < 0 then -delta else delta
    if magnitude > tokenAdjustmentMaxTokens then some .overLimit else none

/-- The white space and line terminators that `String.prototype.trim` strips. -/
def isJsSpace (c : Char) : Bool :=
  let n := c.toNat
  (9 ≤ n && n ≤ 13) || n = 0x20 || n = 0xA0 || n = 0x1680 || (0x2000 ≤ n && n ≤ 0x200A) ||
    n = 0x2028 || n = 0x2029 || n = 0x202F || n = 0x205F || n = 0x3000 || n = 0xFEFF

def checkTokenNote (isControl : Char → Bool) (note : List Char) : Option TokenAdjustmentProblem :=
  if note.all isJsSpace then some .noteEmpty
  else if note.length > tokenLedgerNoteMax then some .noteTooLong
  else if note.any isControl then some .noteControlChars
  else none

def checkTokenAdjustment (isControl : Char → Bool) (delta : ℤ) (note : List Char) :
    Option TokenAdjustmentProblem :=
  (checkTokenDelta delta).or (checkTokenNote isControl note)

theorem checkTokenAdjustment_eq_none {isControl : Char → Bool} {delta : ℤ} {note : List Char}
    (h : checkTokenAdjustment isControl delta note = none) :
    delta ≠ 0 ∧ |delta| ≤ tokenAdjustmentMaxTokens ∧ note ≠ [] := by
  unfold checkTokenAdjustment at h
  obtain ⟨hd, hn⟩ := Option.or_eq_none_iff.mp h
  have hdelta : delta ≠ 0 ∧ |delta| ≤ tokenAdjustmentMaxTokens := by
    unfold checkTokenDelta at hd
    split at hd
    · simp at hd
    · rename_i h0
      refine ⟨h0, ?_⟩
      by_cases hneg : delta < 0
      · rw [abs_of_neg hneg]
        simpa [hneg] using hd
      · rw [abs_of_nonneg (not_lt.mp hneg)]
        simpa [hneg] using hd
  refine ⟨hdelta.1, hdelta.2, ?_⟩
  rintro rfl
  simp [checkTokenNote] at hn

structure StarPackage where
  code : String
  tokens : ℤ
  stars : ℤ
  deriving DecidableEq, Repr

/-- STAR_PACKAGES. -/
def starPackages : List StarPackage :=
  [⟨"p50", 50, 100⟩, ⟨"p150", 150, 250⟩, ⟨"p500", 500, 750⟩]

def starPackageOf (code : String) : Option StarPackage :=
  starPackages.find? (fun candidate => candidate.code = code)

theorem starPackageOf_tokens_pos {code : String} {pack : StarPackage}
    (h : starPackageOf code = some pack) : 0 < pack.tokens := by
  have hm : pack ∈ starPackages := List.mem_of_find?_eq_some h
  have hall : ∀ p ∈ starPackages, 0 < p.tokens := by decide
  exact hall pack hm

/-- STARS_CURRENCY. -/
def starsCurrency : String := "XTR"

end Binarius
