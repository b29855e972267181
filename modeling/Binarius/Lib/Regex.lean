import Mathlib.Tactic
import Mathlib.Data.List.TakeWhile

/-!
# Lib.Regex — regular expressions with groups, matched by ordered choice

A backtracking matcher tries the readings of a prefix in order: a class repeat takes as many characters as
it can, an alternative its left side first, an option its body first.  Groups that took no part are `none`.

* `run`: the readings of a prefix, in the matcher's order; `exec`, `test`: of a whole text.
* `Reads`: a text read whole, and its groups; `mem_run`: **the matcher finds exactly the readings**.
* `exec_eq_some`, `test_eq_false_iff`: a text of one reading, and of none.
-/

namespace Lib

/-- A regular expression: literals and alternatives of literals, repeats of a class, and their
combinations. -/
inductive Rx
  | lit (s : List Char)
  | oneOf (texts : List (List Char))
  | rep (p : Char → Bool) (lo hi : ℕ)
  | seq (a b : Rx)
  | alt (a b : Rx)
  | opt (a : Rx)
  | group (a : Rx)

namespace Rx

/-- What the groups of a match took, in the order of their opening parentheses. -/
abbrev Groups := List (Option (List Char))

/-- How many groups an expression has. -/
def groups : Rx → ℕ
  | lit _ => 0
  | oneOf _ => 0
  | rep _ _ _ => 0
  | seq a b => a.groups + b.groups
  | alt a b => a.groups + b.groups
  | opt a => a.groups
  | group a => a.groups + 1

/-- Groups that took no part. -/
def skipped (a : Rx) : Groups := List.replicate a.groups none

/-- The readings of a prefix with what is left, in the order they are tried. -/
def run : Rx → List Char → List (Groups × List Char)
  | lit s, t => if s.isPrefixOf t then [([], t.drop s.length)] else []
  | oneOf texts, t => (texts.filter (fun s => s.isPrefixOf t)).map fun s => ([], t.drop s.length)
  | rep p lo hi, t =>
    ((List.range (hi + 1)).reverse.filter fun n => lo ≤ n && n ≤ (t.takeWhile p).length).map
      fun n => ([], t.drop n)
  | seq a b, t => (run a t).flatMap fun m => (run b m.2).map fun m' => (m.1 ++ m'.1, m'.2)
  | alt a b, t =>
    (run a t).map (fun m => (m.1 ++ skipped b, m.2)) ++ (run b t).map fun m => (skipped a ++ m.1, m.2)
  | opt a, t => run a t ++ [(skipped a, t)]
  | group a, t => (run a t).map fun m => (some (t.take (t.length - m.2.length)) :: m.1, m.2)

/-- The groups of the first reading of the whole text: an expression between `^` and `$`. -/
def exec (r : Rx) (t : List Char) : Option Groups := ((run r t).find? (fun m => m.2.isEmpty)).map Prod.fst

def test (r : Rx) (t : List Char) : Bool := (exec r t).isSome

/-- The group of a number, as a match has it. -/
def groupOf (m : Groups) (i : ℕ) : Option (List Char) := (m[i - 1]?).join

/-! ### Readings -/

/-- The expression reads the whole text with these groups. -/
def Reads : Rx → List Char → Groups → Prop
  | lit s, w, c => w = s ∧ c = []
  | oneOf texts, w, c => w ∈ texts ∧ c = []
  | rep p lo hi, w, c => (∀ x ∈ w, p x = true) ∧ lo ≤ w.length ∧ w.length ≤ hi ∧ c = []
  | seq a b, w, c => ∃ w₁ w₂ c₁ c₂, w = w₁ ++ w₂ ∧ c = c₁ ++ c₂ ∧ Reads a w₁ c₁ ∧ Reads b w₂ c₂
  | alt a b, w, c => (∃ c₁, Reads a w c₁ ∧ c = c₁ ++ skipped b) ∨ ∃ c₂, Reads b w c₂ ∧ c = skipped a ++ c₂
  | opt a, w, c => Reads a w c ∨ (w = [] ∧ c = skipped a)
  | group a, w, c => ∃ c₁, Reads a w c₁ ∧ c = some w :: c₁

theorem isPrefixOf_drop {s t r : List Char} :
    (s.isPrefixOf t = true ∧ r = t.drop s.length) ↔ t = s ++ r := by
  rw [List.isPrefixOf_iff_prefix]
  constructor
  · rintro ⟨⟨r', rfl⟩, rfl⟩
    rw [List.drop_left]
  · rintro rfl
    exact ⟨⟨r, rfl⟩, by rw [List.drop_left]⟩

theorem mem_run_rep {p : Char → Bool} {lo hi : ℕ} {t r : List Char} {c : Groups} :
    (c, r) ∈ run (rep p lo hi) t ↔ ∃ w, t = w ++ r ∧ Reads (rep p lo hi) w c := by
  unfold run Reads
  rw [List.mem_map]
  constructor
  · rintro ⟨n, hn, heq⟩
    obtain ⟨rfl, rfl⟩ := Prod.mk.inj heq
    obtain ⟨hrange, hbounds⟩ := List.mem_filter.mp hn
    rw [List.mem_reverse, List.mem_range] at hrange
    rw [Bool.and_eq_true, decide_eq_true_eq, decide_eq_true_eq] at hbounds
    have htake : t.take n = (t.takeWhile p).take n := by
      conv_lhs => rw [← List.takeWhile_append_dropWhile (p := p) (l := t)]
      rw [List.take_append_of_le_length hbounds.2]
    have hlen : (t.take n).length = n := by
      have hle := (List.takeWhile_sublist (p := p) (l := t)).length_le
      rw [List.length_take]
      omega
    refine ⟨t.take n, (List.take_append_drop n t).symm, ?_, by omega, by omega, rfl⟩
    intro x hx
    rw [htake] at hx
    exact List.mem_takeWhile_imp (List.mem_of_mem_take hx)
  · rintro ⟨w, rfl, hall, hlo, hhi, hc⟩
    refine ⟨w.length, List.mem_filter.mpr ⟨?_, ?_⟩, ?_⟩
    · rw [List.mem_reverse, List.mem_range]
      omega
    · have hle : w.length ≤ ((w ++ r).takeWhile p).length := by
        rw [List.takeWhile_append_of_pos hall, List.length_append]
        omega
      rw [Bool.and_eq_true, decide_eq_true_eq, decide_eq_true_eq]
      exact ⟨hlo, hle⟩
    · rw [List.drop_left, hc]

/-- **The matcher finds exactly the readings.** -/
theorem mem_run {x : Rx} {t r : List Char} {c : Groups} :
    (c, r) ∈ run x t ↔ ∃ w, t = w ++ r ∧ Reads x w c := by
  induction x generalizing t c r with
  | lit s =>
    unfold run Reads
    constructor
    · intro h
      split_ifs at h with hbegins
      · rw [List.mem_singleton, Prod.mk.injEq] at h
        exact ⟨s, isPrefixOf_drop.mp ⟨hbegins, h.2⟩, rfl, h.1⟩
      · cases h
    · rintro ⟨w, ht, rfl, hc⟩
      obtain ⟨hbegins, hr⟩ := isPrefixOf_drop.mpr ht
      rw [if_pos hbegins, List.mem_singleton, Prod.mk.injEq]
      exact ⟨hc, hr⟩
  | oneOf texts =>
    unfold run Reads
    rw [List.mem_map]
    constructor
    · rintro ⟨s, hs, heq⟩
      obtain ⟨hmem, hbegins⟩ := List.mem_filter.mp hs
      obtain ⟨rfl, rfl⟩ := Prod.mk.inj heq
      exact ⟨s, isPrefixOf_drop.mp ⟨hbegins, rfl⟩, hmem, rfl⟩
    · rintro ⟨w, ht, hmem, hc⟩
      obtain ⟨hbegins, hr⟩ := isPrefixOf_drop.mpr ht
      exact ⟨w, List.mem_filter.mpr ⟨hmem, hbegins⟩, Prod.ext hc.symm hr.symm⟩
  | rep p lo hi => exact mem_run_rep
  | seq a b iha ihb =>
    unfold run Reads
    rw [List.mem_flatMap]
    constructor
    · rintro ⟨⟨c₁, r₁⟩, ha, hmem⟩
      obtain ⟨⟨c₂, r₂⟩, hb, heq⟩ := List.mem_map.mp hmem
      obtain ⟨rfl, rfl⟩ := Prod.mk.inj heq
      obtain ⟨w₁, rfl, hread₁⟩ := iha.mp ha
      obtain ⟨w₂, hr₁, hread₂⟩ : ∃ w₂, r₁ = w₂ ++ r₂ ∧ Reads b w₂ c₂ := ihb.mp hb
      refine ⟨w₁ ++ w₂, ?_, w₁, w₂, c₁, c₂, rfl, rfl, hread₁, hread₂⟩
      show w₁ ++ r₁ = w₁ ++ w₂ ++ r₂
      rw [hr₁, List.append_assoc]
    · rintro ⟨w, rfl, w₁, w₂, c₁, c₂, rfl, hc, hread₁, hread₂⟩
      refine ⟨(c₁, w₂ ++ r), iha.mpr ⟨w₁, by rw [List.append_assoc], hread₁⟩, List.mem_map.mpr ?_⟩
      exact ⟨(c₂, r), ihb.mpr ⟨w₂, rfl, hread₂⟩, Prod.ext hc.symm rfl⟩
  | alt a b iha ihb =>
    unfold run Reads
    rw [List.mem_append, List.mem_map, List.mem_map]
    constructor
    · rintro (⟨⟨c₁, r₁⟩, ha, heq⟩ | ⟨⟨c₂, r₂⟩, hb, heq⟩)
      · obtain ⟨rfl, rfl⟩ := Prod.mk.inj heq
        obtain ⟨w, ht, hread⟩ := iha.mp ha
        exact ⟨w, ht, Or.inl ⟨c₁, hread, rfl⟩⟩
      · obtain ⟨rfl, rfl⟩ := Prod.mk.inj heq
        obtain ⟨w, ht, hread⟩ := ihb.mp hb
        exact ⟨w, ht, Or.inr ⟨c₂, hread, rfl⟩⟩
    · rintro ⟨w, ht, ⟨c₁, hread, hc⟩ | ⟨c₂, hread, hc⟩⟩
      · exact Or.inl ⟨(c₁, r), iha.mpr ⟨w, ht, hread⟩, Prod.ext hc.symm rfl⟩
      · exact Or.inr ⟨(c₂, r), ihb.mpr ⟨w, ht, hread⟩, Prod.ext hc.symm rfl⟩
  | opt a iha =>
    unfold run Reads
    rw [List.mem_append, List.mem_singleton, iha]
    constructor
    · rintro (⟨w, ht, hread⟩ | heq)
      · exact ⟨w, ht, Or.inl hread⟩
      · obtain ⟨rfl, rfl⟩ := Prod.mk.inj heq
        exact ⟨[], rfl, Or.inr ⟨rfl, rfl⟩⟩
    · rintro ⟨w, ht, hread | ⟨rfl, hc⟩⟩
      · exact Or.inl ⟨w, ht, hread⟩
      · exact Or.inr (Prod.ext hc ht.symm)
  | group a iha =>
    unfold run Reads
    rw [List.mem_map]
    constructor
    · rintro ⟨⟨c₁, r₁⟩, ha, heq⟩
      obtain ⟨rfl, rfl⟩ := Prod.mk.inj heq
      obtain ⟨w, rfl, hread⟩ := iha.mp ha
      refine ⟨w, rfl, c₁, hread, ?_⟩
      simp
    · rintro ⟨w, rfl, c₁, hread, hc⟩
      refine ⟨(c₁, r), iha.mpr ⟨w, rfl, hread⟩, ?_⟩
      simp [hc]

/-- A whole reading is what the matcher finds with nothing left. -/
theorem mem_run_nil {x : Rx} {t : List Char} {c : Groups} : (c, []) ∈ run x t ↔ Reads x t c := by
  rw [mem_run]
  constructor
  · rintro ⟨w, ht, hread⟩
    rw [List.append_nil] at ht
    exact ht ▸ hread
  · intro hread
    exact ⟨t, (List.append_nil t).symm, hread⟩

/-- What is found is a reading. -/
theorem reads_of_exec {x : Rx} {t : List Char} {c : Groups} (h : exec x t = some c) : Reads x t c := by
  unfold exec at h
  obtain ⟨⟨c', r⟩, hfind, rfl⟩ := Option.map_eq_some_iff.mp h
  have hnil : r = [] := by simpa using List.find?_some hfind
  rw [hnil] at hfind
  exact mem_run_nil.mp (List.mem_of_find?_eq_some hfind)

theorem test_eq_false_iff {x : Rx} {t : List Char} : test x t = false ↔ ∀ c, ¬ Reads x t c := by
  unfold test
  rw [Option.isSome_eq_false_iff, Option.isNone_iff_eq_none]
  constructor
  · intro hnone c hread
    unfold exec at hnone
    rw [Option.map_eq_none_iff, List.find?_eq_none] at hnone
    exact hnone _ (mem_run_nil.mpr hread) rfl
  · intro hall
    cases hexec : exec x t with
    | none => rfl
    | some c => exact absurd (reads_of_exec hexec) (hall c)

/-- **A text of one reading is matched with its groups.** -/
theorem exec_eq_some {x : Rx} {t : List Char} {c : Groups} (h : Reads x t c)
    (hone : ∀ c', Reads x t c' → c' = c) : exec x t = some c := by
  cases hexec : exec x t with
  | none =>
    have hfalse : test x t = false := by
      unfold test
      rw [hexec]
      rfl
    exact absurd h (test_eq_false_iff.mp hfalse c)
  | some c' => rw [hone c' (reads_of_exec hexec)]

/-! ### Readings of a known text -/

/-- A reading has a group for each of the expression. -/
theorem Reads.length {x : Rx} {w : List Char} {c : Groups} (h : Reads x w c) : c.length = x.groups := by
  induction x generalizing w c with
  | lit s => rw [h.2]; rfl
  | oneOf texts => rw [h.2]; rfl
  | rep p lo hi => rw [h.2.2.2]; rfl
  | seq a b iha ihb =>
    obtain ⟨w₁, w₂, c₁, c₂, -, rfl, ha, hb⟩ := h
    rw [List.length_append, iha ha, ihb hb]
    rfl
  | alt a b iha ihb =>
    rcases h with ⟨c₁, ha, rfl⟩ | ⟨c₂, hb, rfl⟩
    · rw [List.length_append, iha ha, skipped, List.length_replicate]
      rfl
    · rw [List.length_append, ihb hb, skipped, List.length_replicate]
      rfl
  | opt a iha =>
    rcases h with ha | ⟨-, rfl⟩
    · exact iha ha
    · rw [skipped, List.length_replicate]
      rfl
  | group a iha =>
    obtain ⟨c₁, ha, rfl⟩ := h
    rw [List.length_cons, iha ha]
    rfl

/-- An expression without groups. -/
theorem Reads.nil {x : Rx} {w : List Char} {c : Groups} (h : Reads x w c) (hx : x.groups = 0) : c = [] :=
  List.length_eq_zero_iff.mp (h.length.trans hx)

theorem reads_group {x : Rx} (hx : x.groups = 0) {w : List Char} {c : Groups} :
    Reads (group x) w c ↔ Reads x w [] ∧ c = [some w] := by
  constructor
  · rintro ⟨c₁, hread, rfl⟩
    obtain rfl := hread.nil hx
    exact ⟨hread, rfl⟩
  · rintro ⟨hread, rfl⟩
    exact ⟨[], hread, rfl⟩

/-- The readings of a text whose run is known. -/
theorem reads_iff_of_run {x : Rx} {t : List Char} {c c₀ : Groups}
    (h : (run x t).filter (fun m => m.2.isEmpty) = [(c₀, [])]) : Reads x t c ↔ c = c₀ := by
  rw [← mem_run_nil]
  have hmem : (c, []) ∈ run x t ↔ (c, []) ∈ (run x t).filter fun m => m.2.isEmpty := by
    rw [List.mem_filter]
    exact ⟨fun hrun => ⟨hrun, rfl⟩, And.left⟩
  rw [hmem, h, List.mem_singleton, Prod.mk.injEq]
  exact ⟨And.left, fun heq => ⟨heq, rfl⟩⟩

/-- The expressions of a list, one behind the other. -/
def cat : List Rx → Rx
  | [] => .lit []
  | [a] => a
  | a :: rest => .seq a (cat rest)

theorem reads_cat_cons {a : Rx} {rest : List Rx} {w : List Char} {c : Groups} :
    Reads (cat (a :: rest)) w c ↔
      ∃ w₁ w₂ c₁ c₂, w = w₁ ++ w₂ ∧ c = c₁ ++ c₂ ∧ Reads a w₁ c₁ ∧ Reads (cat rest) w₂ c₂ := by
  cases rest with
  | nil =>
    constructor
    · intro hread
      exact ⟨w, [], c, [], (List.append_nil w).symm, (List.append_nil c).symm, hread, rfl, rfl⟩
    · rintro ⟨w₁, w₂, c₁, c₂, rfl, rfl, hread, rfl, rfl⟩
      rw [List.append_nil, List.append_nil]
      exact hread
  | cons b rest => exact Iff.rfl

theorem reads_lit {s : List Char} {rest : List Rx} {r : List Char} {c : Groups} :
    Reads (cat (lit s :: rest)) (s ++ r) c ↔ Reads (cat rest) r c := by
  rw [reads_cat_cons]
  constructor
  · rintro ⟨w₁, w₂, c₁, c₂, heq, rfl, ⟨rfl, rfl⟩, hread⟩
    rw [List.append_cancel_left heq]
    exact hread
  · intro hread
    exact ⟨s, r, [], c, rfl, rfl, ⟨rfl, rfl⟩, hread⟩

/-- A text begins with the literal its reading begins with. -/
theorem prefix_of_reads_lit {s : List Char} {rest : List Rx} {t : List Char} {c : Groups}
    (h : Reads (cat (lit s :: rest)) t c) : s <+: t := by
  obtain ⟨w₁, w₂, c₁, c₂, rfl, -, ⟨rfl, -⟩, -⟩ := reads_cat_cons.mp h
  exact List.prefix_append _ _

/-! ### Fields between separators -/

/-- A text of a field, the separator and a rest is cut in one way. -/
theorem field_inj {c : Char} {w w' r r' : List Char} (hw : c ∉ w) (hw' : c ∉ w') :
    w ++ c :: r = w' ++ c :: r' ↔ w = w' ∧ r = r' := by
  constructor
  · intro heq
    induction w generalizing w' with
    | nil =>
      cases w' with
      | nil => exact ⟨rfl, (List.cons.inj heq).2⟩
      | cons d w' =>
        have hhead := (List.cons.inj heq).1
        exact absurd (hhead ▸ List.mem_cons_self) hw'
    | cons d w ih =>
      cases w' with
      | nil =>
        have hhead := (List.cons.inj heq).1
        exact absurd (hhead ▸ List.mem_cons_self) hw
      | cons d' w' =>
        obtain ⟨rfl, htail⟩ := List.cons.inj heq
        obtain ⟨rfl, rfl⟩ := ih (fun h => hw (List.mem_cons_of_mem _ h))
          (fun h => hw' (List.mem_cons_of_mem _ h)) htail
        exact ⟨rfl, rfl⟩
  · rintro ⟨rfl, rfl⟩
    rfl

/-- A field has no separator. -/
theorem field_ne {c : Char} {w w' r : List Char} (hw' : c ∉ w') : w ++ c :: r ≠ w' := by
  rintro rfl
  exact hw' (List.mem_append_right _ List.mem_cons_self)

/-- Nothing, or the separator and more. -/
def Tail (c : Char) (r : List Char) : Prop := r = [] ∨ ∃ r', r = c :: r'

theorem field_tail_inj {c : Char} {w w' r r' : List Char} (hw : c ∉ w) (hw' : c ∉ w') (hr : Tail c r)
    (hr' : Tail c r') : w ++ r = w' ++ r' ↔ w = w' ∧ r = r' := by
  constructor
  · intro heq
    rcases hr with rfl | ⟨r, rfl⟩ <;> rcases hr' with rfl | ⟨r', rfl⟩
    · rw [List.append_nil, List.append_nil] at heq
      exact ⟨heq, rfl⟩
    · rw [List.append_nil] at heq
      exact absurd heq.symm (field_ne hw)
    · rw [List.append_nil] at heq
      exact absurd heq (field_ne hw')
    · obtain ⟨rfl, rfl⟩ := (field_inj hw hw').mp heq
      exact ⟨rfl, rfl⟩
  · rintro ⟨rfl, rfl⟩
    rfl

/-- **A group that takes no separator, before a tail, takes the field.** -/
theorem reads_field {c : Char} {a : Rx} {rest : List Rx} (ha : a.groups = 0)
    (hsep : ∀ w, Reads a w [] → c ∉ w) (hrest : ∀ w g, Reads (cat rest) w g → Tail c w)
      {field r : List Char}
    (hfield : c ∉ field) (hr : Tail c r) {g : Groups} :
    Reads (cat (group a :: rest)) (field ++ r) g ↔
      Reads a field [] ∧ ∃ g', g = some field :: g' ∧ Reads (cat rest) r g' := by
  rw [reads_cat_cons]
  constructor
  · rintro ⟨w₁, w₂, g₁, g₂, heq, rfl, hgroup, hread⟩
    obtain ⟨hbody, rfl⟩ := (reads_group ha).mp hgroup
    obtain ⟨rfl, rfl⟩ := (field_tail_inj hfield (hsep w₁ hbody) hr (hrest w₂ g₂ hread)).mp heq
    exact ⟨hbody, g₂, rfl, hread⟩
  · rintro ⟨hbody, g', rfl, hread⟩
    exact ⟨field, r, [some field], g', rfl, rfl, (reads_group ha).mpr ⟨hbody, rfl⟩, hread⟩

/-- A list that begins with the separator reads a tail. -/
theorem tail_of_lit {c : Char} {rest : List Rx} {w : List Char} {g : Groups}
    (h : Reads (cat (lit [c] :: rest)) w g) : Tail c w := by
  obtain ⟨r, rfl⟩ := prefix_of_reads_lit h
  exact Or.inr ⟨r, rfl⟩

/-- So does a list that begins with an option of it, before a tail. -/
theorem tail_of_opt {c : Char} {a rest : List Rx} (hrest : ∀ w g, Reads (cat rest) w g → Tail c w)
    {w : List Char} {g : Groups} (h : Reads (cat (opt (cat (lit [c] :: a)) :: rest)) w g) : Tail c w := by
  obtain ⟨w₁, w₂, g₁, g₂, rfl, -, hopt, hread⟩ := reads_cat_cons.mp h
  rcases hopt with hread₁ | ⟨rfl, -⟩
  · obtain ⟨r, rfl⟩ := prefix_of_reads_lit hread₁
    exact Or.inr ⟨r ++ w₂, rfl⟩
  · exact hrest w₂ g₂ hread

theorem tail_of_nil {c : Char} {w : List Char} {g : Groups} (h : Reads (cat []) w g) : Tail c w :=
  Or.inl h.1

end Rx

end Lib
