import Mathlib.Data.List.TakeWhile
import Mathlib.Tactic
import Binarius.Shared.TelegramHtml

/-!
# Shared.MarkedHtml — Telegram HTML with open holes

A marked text holds characters and the names of holes.  `fill` puts a text into every hole; with the
stand-in it keeps every symbol one character long.

* `MarkedState.step`: the TAG pattern over a marked text, which lets a hole into a quoted value only.
* `accepted_fill`: **a marked text the tokenizer accepts with stand-ins is accepted with any escaped
  strings just when the class of every code tag stays one**.
* `holeAfterLanguage_iff`: which classes do not.
-/

namespace Binarius

/-- A character, or a hole under its name. -/
abbrev Sym := Char ⊕ String

abbrev MarkedText := List Sym

def fill (f : String → Text) (text : MarkedText) : Text := text.flatMap (Sum.elim (fun c => [c]) f)

/-- The symbol with its hole at the stand-in. -/
def symChar : Sym → Char := Sum.elim id (fun _ => '·')

@[simp] theorem fill_nil (f : String → Text) : fill f [] = [] := rfl

@[simp] theorem fill_char (f : String → Text) (c : Char) (text : MarkedText) :
    fill f (.inl c :: text) = c :: fill f text := rfl

@[simp] theorem fill_hole (f : String → Text) (x : String) (text : MarkedText) :
    fill f (.inr x :: text) = f x ++ fill f text := rfl

@[simp] theorem fill_append (f : String → Text) (a b : MarkedText) :
    fill f (a ++ b) = fill f a ++ fill f b := List.flatMap_append

@[simp] theorem fill_chars (f : String → Text) (text : Text) : fill f (text.map Sum.inl) = text := by
  induction text with
  | nil => rfl
  | cons c text ih => rw [List.map_cons, fill_char, ih]

theorem fill_standIn (text : MarkedText) : fill (fun _ => ['·']) text = text.map symChar := by
  induction text with
  | nil => rfl
  | cons s text ih =>
    cases s with
    | inl c => rw [fill_char, ih]; rfl
    | inr x => rw [fill_hole, ih]; rfl

/-- A text without the stand-in's character has no hole. -/
theorem eq_chars_of_map {text : MarkedText} {chars : Text} (h : text.map symChar = chars)
    (hno : '·' ∉ chars) : text = chars.map Sum.inl := by
  induction text generalizing chars with
  | nil =>
    subst h
    rfl
  | cons s text ih =>
    cases chars with
    | nil => cases h
    | cons c chars =>
      rw [List.map_cons, List.cons.injEq] at h
      rw [List.mem_cons, not_or] at hno
      cases s with
      | inl c' =>
        have hc : c' = c := h.1
        rw [List.map_cons, ih h.2 hno.2, hc]
      | inr x => exact absurd h.1 hno.1

/-! ### Escaped values -/

/-- No escaped value holds a character that ends a tag, opens one or closes a quote. -/
theorem mem_escape {value : Text} {c : Char} (h : c ∈ escapeTelegramHtml value) :
    c ≠ '<' ∧ c ≠ '>' ∧ c ≠ '"' := by
  unfold escapeTelegramHtml at h
  obtain ⟨d, -, hd⟩ := List.mem_flatMap.mp h
  unfold escapeOf at hd
  split_ifs at hd with h₁ h₂ h₃ h₄
  · fin_cases hd <;> decide
  · fin_cases hd <;> decide
  · fin_cases hd <;> decide
  · fin_cases hd <;> decide
  · have hcd : c = d := List.mem_singleton.mp hd
    subst hcd
    exact ⟨h₂, h₃, h₄⟩

/-! ### Tags -/

structure MarkedTag where
  closing : Bool
  name : Text
  attributes : List (Text × Option MarkedText)

namespace MarkedTag

def add (tag : MarkedTag) (attr : Text × Option MarkedText) : MarkedTag :=
  { tag with attributes := tag.attributes ++ [attr] }

def fillAttribute (f : String → Text) (attr : Text × Option MarkedText) : TagAttribute :=
  (attr.1, attr.2.map (fill f))

def fill (f : String → Text) (tag : MarkedTag) : Tag :=
  ⟨tag.closing, tag.name, tag.attributes.map (fillAttribute f)⟩

end MarkedTag

/-- `TagState` over a marked text. -/
inductive MarkedState
  | opening (closing : Bool)
  | named (tag : MarkedTag)
  | gap (tag : MarkedTag)
  | attr (tag : MarkedTag) (name : Text)
  | equals (tag : MarkedTag) (name : Text)
  | quoted (tag : MarkedTag) (name : Text) (value : MarkedText)
  | valued (tag : MarkedTag)

namespace MarkedState

def fill (f : String → Text) : MarkedState → TagState
  | .opening closing => .opening closing
  | .named tag => .named (tag.fill f)
  | .gap tag => .gap (tag.fill f)
  | .attr tag name => .attr (tag.fill f) name
  | .equals tag name => .equals (tag.fill f) name
  | .quoted tag name value => .quoted (tag.fill f) name (Binarius.fill f value)
  | .valued tag => .valued (tag.fill f)

def stepChar : MarkedState → Char → Option MarkedState
  | .opening closing, c =>
    if c = '/' ∧ closing = false then some (.opening true)
    else if isLetter c then some (.named ⟨closing, [c], []⟩)
    else none
  | .named tag, c =>
    if isNameChar c then some (.named { tag with name := tag.name ++ [c] })
    else if isSpace c then some (.gap tag)
    else none
  | .gap tag, c =>
    if isLetter c then some (.attr tag [c])
    else if isSpace c then some (.gap tag)
    else none
  | .attr tag name, c =>
    if isNameChar c then some (.attr tag (name ++ [c]))
    else if c = '=' then some (.equals tag name)
    else if isSpace c then some (.gap (tag.add (name, none)))
    else none
  | .equals tag name, c => if c = '"' then some (.quoted tag name []) else none
  | .quoted tag name value, c =>
    if c = '"' then some (.valued (tag.add (name, some value)))
    else if c = '<' then none
    else some (.quoted tag name (value ++ [.inl c]))
  | .valued tag, c => if isSpace c then some (.gap tag) else none

/-- A hole stands in a quoted value or nowhere. -/
def stepHole : MarkedState → String → Option MarkedState
  | .quoted tag name value, x => some (.quoted tag name (value ++ [.inr x]))
  | _, _ => none

def step (state : MarkedState) : Sym → Option MarkedState
  | .inl c => state.stepChar c
  | .inr x => state.stepHole x

def steps (state : MarkedState) (text : MarkedText) : Option MarkedState := text.foldlM step state

def tag? : MarkedState → Option MarkedTag
  | .opening _ => none
  | .named tag => some tag
  | .gap tag => some tag
  | .attr tag name => some (tag.add (name, none))
  | .equals _ _ => none
  | .quoted _ _ _ => none
  | .valued tag => some tag

end MarkedState

theorem fill_with (f : String → Text) (tag : MarkedTag) (attr : Text × Option MarkedText) :
    (tag.add attr).fill f = (tag.fill f).add (MarkedTag.fillAttribute f attr) := by
  unfold MarkedTag.add MarkedTag.fill Tag.add
  simp

/-- A character's step, whatever the holes hold. -/
theorem fill_stepChar (f : String → Text) (state : MarkedState) (c : Char) :
    (state.fill f).step c = (state.stepChar c).map (MarkedState.fill f) := by
  cases state with
  | opening closing =>
    simp only [MarkedState.fill, TagState.step, MarkedState.stepChar]
    split_ifs <;> rfl
  | named tag =>
    simp only [MarkedState.fill, TagState.step, MarkedState.stepChar]
    split_ifs <;> rfl
  | gap tag =>
    simp only [MarkedState.fill, TagState.step, MarkedState.stepChar]
    split_ifs <;> rfl
  | attr tag name =>
    simp only [MarkedState.fill, TagState.step, MarkedState.stepChar]
    split_ifs
    · rfl
    · rfl
    · simp [MarkedState.fill, fill_with, MarkedTag.fillAttribute]
    · rfl
  | equals tag name =>
    simp only [MarkedState.fill, TagState.step, MarkedState.stepChar]
    split_ifs <;> rfl
  | quoted tag name value =>
    simp only [MarkedState.fill, TagState.step, MarkedState.stepChar]
    split_ifs
    · simp [MarkedState.fill, fill_with, MarkedTag.fillAttribute]
    · rfl
    · simp [MarkedState.fill]
  | valued tag =>
    simp only [MarkedState.fill, TagState.step, MarkedState.stepChar]
    split_ifs <;> rfl

theorem fill_tag? (f : String → Text) (state : MarkedState) :
    (state.fill f).tag? = state.tag?.map (MarkedTag.fill f) := by
  cases state <;> simp [MarkedState.fill, TagState.tag?, MarkedState.tag?, fill_with,
    MarkedTag.fillAttribute]

/-- The stand-in's step is the hole's. -/
theorem fill_stepHole (state : MarkedState) (x : String) :
    (state.fill (fun _ => ['·'])).step '·' =
      (state.stepHole x).map (MarkedState.fill (fun _ => ['·'])) := by
  have hletter : isLetter '·' = false := by decide
  have hname : isNameChar '·' = false := by decide
  have hspace : isSpace '·' = false := by decide
  have hslash : ¬ '·' = '/' := by decide
  have hequals : ¬ '·' = '=' := by decide
  have hquote : ¬ '·' = '"' := by decide
  have hopen : ¬ '·' = '<' := by decide
  cases state <;> simp [MarkedState.fill, TagState.step, MarkedState.stepHole, hletter, hname, hspace,
    hslash, hequals, hquote, hopen]

/-- An escaped value passes where its hole does. -/
theorem fill_stepsHole {f : String → Text} {x : String} {state state' : MarkedState}
    (hsafe : ∀ c ∈ f x, c ≠ '<' ∧ c ≠ '"') (h : state.stepHole x = some state') :
    (state.fill f).steps (f x) = some (state'.fill f) := by
  cases state with
  | quoted tag name value =>
    simp only [MarkedState.stepHole, Option.some.injEq] at h
    subst h
    -- the value grows by one character after another
    have hgrow : ∀ (chars : Text) (read : Text), (∀ c ∈ chars, c ≠ '<' ∧ c ≠ '"') →
        (TagState.quoted (tag.fill f) name read).steps chars =
          some (.quoted (tag.fill f) name (read ++ chars)) := by
      intro chars
      induction chars with
      | nil =>
        intro read _
        simp [TagState.steps]
      | cons c chars ih =>
        intro read hchars
        obtain ⟨hlt, hquote⟩ := hchars c List.mem_cons_self
        have hrest := ih (read ++ [c]) (fun d hd => hchars d (List.mem_cons_of_mem _ hd))
        unfold TagState.steps at hrest ⊢
        rw [List.foldlM_cons]
        simp only [TagState.step, if_neg hquote, if_neg hlt]
        show List.foldlM TagState.step _ chars = _
        rw [hrest, List.append_assoc]
        rfl
    show (TagState.quoted (tag.fill f) name (fill f value)).steps (f x) = _
    rw [hgrow (f x) (fill f value) hsafe]
    simp [MarkedState.fill]
  | _ => cases h

theorem fill_steps_standIn (state : MarkedState) (text : MarkedText) :
    (state.fill (fun _ => ['·'])).steps (text.map symChar) =
      (state.steps text).map (MarkedState.fill (fun _ => ['·'])) := by
  induction text generalizing state with
  | nil => rfl
  | cons s text ih =>
    have hstep : (state.fill (fun _ => ['·'])).step (symChar s) =
        (state.step s).map (MarkedState.fill (fun _ => ['·'])) := by
      cases s with
      | inl c => exact fill_stepChar _ state c
      | inr x => exact fill_stepHole state x
    unfold TagState.steps MarkedState.steps at *
    rw [List.map_cons, List.foldlM_cons, List.foldlM_cons, hstep]
    cases hmarked : state.step s with
    | none => rfl
    | some state' => exact ih state'

theorem fill_steps {f : String → Text} (hsafe : ∀ x, ∀ c ∈ f x, c ≠ '<' ∧ c ≠ '"')
    {state state' : MarkedState} {text : MarkedText} (h : state.steps text = some state') :
    (state.fill f).steps (fill f text) = some (state'.fill f) := by
  induction text generalizing state with
  | nil =>
    unfold MarkedState.steps at h
    rw [List.foldlM_nil] at h
    injection h with h
    rw [h]
    rfl
  | cons s text ih =>
    unfold MarkedState.steps at h
    rw [List.foldlM_cons] at h
    cases hstep : state.step s with
    | none =>
      rw [hstep] at h
      cases h
    | some next =>
      rw [hstep] at h
      have hrest := ih h
      cases s with
      | inl c =>
        have hchar : (state.fill f).step c = some (next.fill f) := by
          rw [fill_stepChar, show state.stepChar c = some next from hstep]
          rfl
        unfold TagState.steps at hrest ⊢
        rw [fill_char, List.foldlM_cons, hchar]
        exact hrest
      | inr x =>
        have hhole := fill_stepsHole (hsafe x) hstep
        unfold TagState.steps at hrest hhole ⊢
        rw [fill_hole, List.foldlM_append, hhole]
        exact hrest

/-- The TAG pattern over a marked text. -/
def markedTagAt (text : MarkedText) : Option (MarkedTag × MarkedText) :=
  let inside := text.takeWhile (fun s => symChar s ≠ '>')
  if text.dropWhile (fun s => symChar s ≠ '>') = [] then none
  else do
    let state ← (MarkedState.opening false).steps inside
    let tag ← state.tag?
    pure (tag, inside)

/-- What the values must not hold. -/
def SafeValues (f : String → Text) : Prop := ∀ x, ∀ c ∈ f x, c ≠ '<' ∧ c ≠ '>' ∧ c ≠ '"'

theorem safe_escape (values : String → Text) : SafeValues (fun x => escapeTelegramHtml (values x)) :=
  fun _ _ h => mem_escape h

theorem markedTagAt_split {text inside : MarkedText} {tag : MarkedTag}
    (h : markedTagAt text = some (tag, inside)) :
    (∃ rest, text = inside ++ .inl '>' :: rest) ∧ (∀ s ∈ inside, symChar s ≠ '>') ∧
      ∃ state, (MarkedState.opening false).steps inside = some state ∧ state.tag? = some tag := by
  unfold markedTagAt at h
  simp only at h
  split_ifs at h with hempty
  rw [Option.bind_eq_bind, Option.bind_eq_some_iff] at h
  obtain ⟨state, hstate, h⟩ := h
  rw [Option.bind_eq_bind, Option.bind_eq_some_iff] at h
  obtain ⟨tag', htag, h⟩ := h
  have hpair : (tag', text.takeWhile (fun s => symChar s ≠ '>')) = (tag, inside) := by
    simpa using h
  obtain ⟨rfl, rfl⟩ := Prod.mk.injEq _ _ _ _ ▸ hpair
  refine ⟨?_, ?_, state, hstate, htag⟩
  · cases hrest : text.dropWhile (fun s => symChar s ≠ '>') with
    | nil => exact absurd hrest hempty
    | cons s rest =>
      -- the pattern stops at a `>`, which no hole is
      have hhead : symChar s = '>' := by
        have hne : text.dropWhile (fun s => decide (symChar s ≠ '>')) ≠ [] := by
          rw [hrest]
          exact List.cons_ne_nil _ _
        have hnot := List.head_dropWhile_not (fun s => decide (symChar s ≠ '>')) hne
        simp only [hrest, List.head_cons] at hnot
        simpa using hnot
      have hs : s = .inl '>' := by
        cases s with
        | inl c => exact congrArg Sum.inl hhead
        | inr x =>
          have hdot : ¬ '·' = '>' := by decide
          exact absurd hhead hdot
      refine ⟨rest, ?_⟩
      have happend := List.takeWhile_append_dropWhile (p := fun s => decide (symChar s ≠ '>')) (l := text)
      rw [hrest, hs] at happend
      exact happend.symm
  · intro s hs
    simpa using List.mem_takeWhile_imp hs

/-- With stand-ins the pattern reads what it reads of the marked text. -/
theorem tagAt_standIn (text : MarkedText) :
    tagAt (text.map symChar) =
      (markedTagAt text).map (fun p => (p.1.fill (fun _ => ['·']), p.2.map symChar)) := by
  unfold tagAt markedTagAt
  simp only [List.takeWhile_map, List.dropWhile_map, List.map_eq_nil_iff]
  have hcomp : ((fun c => decide (c ≠ '>')) ∘ symChar) = fun s => decide (symChar s ≠ '>') := rfl
  rw [hcomp]
  split_ifs with hempty
  · rfl
  · have hsteps := fill_steps_standIn (.opening false) (text.takeWhile (fun s => symChar s ≠ '>'))
    have hopening : (MarkedState.opening false).fill (fun _ => ['·']) = TagState.opening false := rfl
    rw [hopening] at hsteps
    rw [hsteps]
    cases hstate : (MarkedState.opening false).steps (text.takeWhile (fun s => symChar s ≠ '>')) with
    | none => rfl
    | some state =>
      simp only [Option.map_some, Option.bind_eq_bind, Option.bind_some]
      rw [fill_tag?]
      cases state.tag? <;> rfl

theorem takeWhile_fill {f : String → Text} (hsafe : SafeValues f) {inside : MarkedText} (rest : MarkedText)
    (hinside : ∀ s ∈ inside, symChar s ≠ '>') :
    (fill f (inside ++ .inl '>' :: rest)).takeWhile (· ≠ '>') = fill f inside ∧
      (fill f (inside ++ .inl '>' :: rest)).dropWhile (· ≠ '>') = '>' :: fill f rest := by
  have hall : ∀ c ∈ fill f inside, (decide (c ≠ '>')) = true := by
    intro c hc
    unfold fill at hc
    obtain ⟨s, hs, hcs⟩ := List.mem_flatMap.mp hc
    cases s with
    | inl d =>
      have hcd : c = d := List.mem_singleton.mp hcs
      have hne : d ≠ '>' := hinside _ hs
      rw [hcd]
      simpa using hne
    | inr x => simpa using (hsafe x c hcs).2.1
  rw [fill_append, fill_char]
  constructor
  · rw [List.takeWhile_append_of_pos hall]
    simp
  · rw [List.dropWhile_append_of_pos hall]
    simp

/-- **The pattern reads the same tag**, its values filled. -/
theorem tagAt_fill {f : String → Text} (hsafe : SafeValues f) {text inside : MarkedText}
    {tag : MarkedTag} (h : markedTagAt text = some (tag, inside)) :
    tagAt (fill f text) = some (tag.fill f, fill f inside) := by
  obtain ⟨⟨rest, rfl⟩, hinside, state, hstate, htag⟩ := markedTagAt_split h
  obtain ⟨htake, hdrop⟩ := takeWhile_fill hsafe rest hinside
  unfold tagAt
  simp only [htake, hdrop, List.cons_ne_nil, if_false]
  have hsteps := fill_steps (fun x c hc => ⟨(hsafe x c hc).1, (hsafe x c hc).2.2⟩) hstate
  have hopening : (MarkedState.opening false).fill f = TagState.opening false := rfl
  rw [hopening] at hsteps
  rw [hsteps]
  simp [fill_tag?, htag]

/-! ### What a tag's values decide -/

/-- The class of a code tag stays one. -/
def LanguageOk (f : String → Text) (tag : MarkedTag) : Prop :=
  tag.closing = false → lowerCase tag.name = "code" →
    ∀ value, ((tag.attributes.reverse.find? (fun a => lowerCase a.1 = "class")).map Prod.snd) =
      some (some value) → isLanguageClass (fill f value) = true

theorem seenValue_fill (f : String → Text) (attributes : List (Text × Option MarkedText))
    (name : String) :
    seenValue (attributes.map (MarkedTag.fillAttribute f)) name =
      ((attributes.reverse.find? (fun a => lowerCase a.1 = name)).map Prod.snd).map
        (Option.map (fill f)) := by
  unfold seenValue
  rw [← List.map_reverse, List.find?_map]
  have hcomp : ((fun a : TagAttribute => decide (lowerCase a.1 = name)) ∘ MarkedTag.fillAttribute f) =
      fun a => decide (lowerCase a.1 = name) := rfl
  rw [hcomp]
  cases attributes.reverse.find? (fun a => decide (lowerCase a.1 = name)) <;> rfl

theorem attributeProblems_fill (f g : String → Text) (name : String)
    (allowed : List (String × AttributeRule)) (attributes : List (Text × Option MarkedText)) :
    (attributes.map (MarkedTag.fillAttribute f)).flatMap (attributeProblems name allowed) =
      (attributes.map (MarkedTag.fillAttribute g)).flatMap (attributeProblems name allowed) := by
  induction attributes with
  | nil => rfl
  | cons attr attributes ih =>
    rw [List.map_cons, List.map_cons, List.flatMap_cons, List.flatMap_cons, ih]
    congr 1
    unfold attributeProblems MarkedTag.fillAttribute
    cases attr.2 <;> rfl

/-- A class with stand-ins, and with any values. -/
theorem classProblems_fill {f : String → Text} {name : String}
    {attributes : List (Text × Option MarkedText)} {«open» : List String}
    (h : classProblems name (attributes.map (MarkedTag.fillAttribute (fun _ => ['·']))) «open» = []) :
    classProblems name (attributes.map (MarkedTag.fillAttribute f)) «open» = [] ↔
      (name = "code" → ∀ value,
        ((attributes.reverse.find? (fun a => lowerCase a.1 = "class")).map Prod.snd) =
          some (some value) → isLanguageClass (fill f value) = true) := by
  unfold classProblems at h ⊢
  rw [seenValue_fill] at h ⊢
  cases hseen : (attributes.reverse.find? (fun a => lowerCase a.1 = "class")).map Prod.snd with
  | none => simp
  | some written =>
    rw [hseen] at h
    simp only [Option.map_some, List.append_eq_nil_iff] at h ⊢
    obtain ⟨hspan, hcode⟩ := h
    -- the spoiler's class holds no hole, so it is the same with any values
    have hspan' : (if name = "span" ∧ Option.map (fill f) written ≠ some "tg-spoiler".toList then
        ["<span> is only a spoiler: class=\"tg-spoiler\""] else []) = [] := by
      rw [if_neg]
      rintro ⟨hname, hne⟩
      split_ifs at hspan with hno
      have hsame : Option.map (fill (fun _ => ['·'])) written = some "tg-spoiler".toList := by
        by_contra hother
        exact hno ⟨hname, hother⟩
      cases written with
      | none => cases hsame
      | some value =>
        have hvalue : value.map symChar = "tg-spoiler".toList := by
          rw [← fill_standIn]
          simpa using hsame
        have hchars := eq_chars_of_map hvalue (by decide)
        refine hne ?_
        rw [hchars, Option.map_some, fill_chars]
    rw [hspan']
    by_cases hname : name = "code"
    · rw [if_pos hname] at hcode ⊢
      rw [List.append_eq_nil_iff] at hcode ⊢
      obtain ⟨hlanguage, hinside⟩ := hcode
      have hbare : written ≠ none := by
        rintro rfl
        rw [if_neg (by decide)] at hlanguage
        cases hlanguage
      cases written with
      | none => exact absurd rfl hbare
      | some value =>
        constructor
        · rintro ⟨-, hok, -⟩ - value' hvalue'
          injection hvalue' with hvalue'
          injection hvalue' with hvalue'
          subst hvalue'
          by_contra hnot
          simp only [Option.map_some, Option.getD_some, if_neg hnot] at hok
          cases hok
        · intro hok
          refine ⟨rfl, ?_, hinside⟩
          simp only [Option.map_some, Option.getD_some, if_pos (hok hname value rfl)]
    · rw [if_neg hname]
      simp [hname]

/-- **A tag that is right with stand-ins** is right with any values just when its class stays one, and
leaves the same tags open. -/
theorem tagProblems_fill {f : String → Text} {tag : MarkedTag} {«open» : List String}
    (h : (tagProblems (tag.fill (fun _ => ['·'])) «open»).1 = []) :
    ((tagProblems (tag.fill f) «open»).1 = [] ↔ LanguageOk f tag) ∧
      (tagProblems (tag.fill f) «open»).2 =
        (tagProblems (tag.fill (fun _ => ['·'])) «open»).2 := by
  have hname : ∀ g, (tag.fill g).name = tag.name := fun _ => rfl
  have hclosing : ∀ g, (tag.fill g).closing = tag.closing := fun _ => rfl
  have hattributes : ∀ g, (tag.fill g).attributes = tag.attributes.map (MarkedTag.fillAttribute g) :=
    fun _ => rfl
  unfold tagProblems at h ⊢
  simp only [hname, hclosing, hattributes] at h ⊢
  unfold LanguageOk
  by_cases hclose : tag.closing = true
  · rw [if_pos hclose] at h ⊢
    rw [if_pos hclose]
    -- a closing tag's attributes count by being there
    have hsame : closingTagProblems (lowerCase tag.name)
        (tag.attributes.map (MarkedTag.fillAttribute f)) «open» =
        closingTagProblems (lowerCase tag.name)
          (tag.attributes.map (MarkedTag.fillAttribute (fun _ => ['·']))) «open» := by
      unfold closingTagProblems
      simp only [ne_eq, List.map_eq_nil_iff]
    rw [hsame]
    refine ⟨⟨fun _ hnot => ?_, fun _ => h⟩, rfl⟩
    rw [hclose] at hnot
    cases hnot
  · rw [if_neg hclose] at h ⊢
    rw [if_neg hclose]
    have hfalse : tag.closing = false := by simpa using hclose
    refine ⟨?_, rfl⟩
    unfold openingTagProblems at h ⊢
    cases hrules : tagRules (lowerCase tag.name) with
    | none =>
      rw [hrules] at h
      cases h
    | some allowed =>
      rw [hrules] at h
      simp only [List.append_eq_nil_iff] at h ⊢
      obtain ⟨⟨⟨hattr, hrequired⟩, hclass⟩, hnesting⟩ := h
      rw [attributeProblems_fill f (fun _ => ['·'])]
      have hseen : ∀ g a, (seenValue (tag.attributes.map (MarkedTag.fillAttribute g)) a).isNone =
          ((tag.attributes.reverse.find? (fun b => lowerCase b.1 = a)).map Prod.snd).isNone := by
        intro g a
        rw [seenValue_fill, Option.isNone_map]
      simp only [hseen] at hrequired ⊢
      have hiff := classProblems_fill (f := f) hclass
      constructor
      · rintro ⟨⟨-, hclass'⟩, -⟩ -
        exact hiff.mp hclass'
      · intro hok
        exact ⟨⟨⟨hattr, hrequired⟩, hiff.mpr (hok hfalse)⟩, hnesting⟩

/-! ### The tokenizer -/

/-- The tokenizer finds nothing wrong, the tags `open` being open. -/
def Accepted («open» : List String) (text : Text) : Prop := tokenProblems 0 0 «open» text = []

/-- Whether anything is wrong does not depend on where the count starts. -/
theorem tokenProblems_index (skip index index' : ℕ) («open» : List String) (text : Text) :
    tokenProblems skip index «open» text = [] ↔ tokenProblems skip index' «open» text = [] := by
  induction text generalizing skip index index' «open» with
  | nil => cases skip <;> exact Iff.rfl
  | cons c text ih =>
    cases skip with
    | succ skip => exact ih skip _ _ «open»
    | zero =>
      simp only [tokenProblems]
      split_ifs
      · cases tagAt text with
        | none => simp
        | some found =>
          simp only [List.append_eq_nil_iff]
          rw [ih (found.2.length + 1) (index + unitsOf c) (index' + unitsOf c)]
      · simp
      · cases entityAt text with
        | none => simp
        | some body => exact ih _ _ _ _
      · exact ih _ _ _ _

/-- A match is passed over. -/
theorem tokenProblems_skip (index : ℕ) («open» : List String) (before text : Text) :
    tokenProblems before.length index «open» (before ++ text) = [] ↔ Accepted «open» text := by
  induction before generalizing index with
  | nil => exact tokenProblems_index 0 index 0 «open» text
  | cons c before ih => exact ih (index + unitsOf c)

theorem accepted_tag {«open» : List String} {text inside rest : Text} {tag : Tag}
    (h : tagAt text = some (tag, inside)) (hsplit : text = inside ++ '>' :: rest) :
    Accepted «open» ('<' :: text) ↔
      (tagProblems tag «open»).1 = [] ∧ Accepted (tagProblems tag «open»).2 rest := by
  have hpassed := tokenProblems_skip (0 + unitsOf '<') (tagProblems tag «open»).2 (inside ++ ['>']) rest
  have hlength : (inside ++ ['>']).length = inside.length + 1 := by simp
  have htext : (inside ++ ['>']) ++ rest = text := by rw [hsplit]; simp
  rw [hlength, htext] at hpassed
  unfold Accepted
  simp only [tokenProblems, if_true, h, List.append_eq_nil_iff]
  rw [hpassed]
  rfl

theorem not_accepted_bare {«open» : List String} {text : Text} (h : tagAt text = none) :
    ¬ Accepted «open» ('<' :: text) := by
  unfold Accepted
  simp [tokenProblems, h]

theorem not_accepted_end {«open» : List String} {text : Text} : ¬ Accepted «open» ('>' :: text) := by
  unfold Accepted
  simp [tokenProblems]

theorem accepted_entity {«open» : List String} {text body rest : Text}
    (h : entityAt text = some body) (hsplit : text = body ++ ';' :: rest) :
    Accepted «open» ('&' :: text) ↔ Accepted «open» rest := by
  have hpassed := tokenProblems_skip (0 + unitsOf '&') «open» (body ++ [';']) rest
  have hlength : (body ++ [';']).length = body.length + 1 := by simp
  have htext : (body ++ [';']) ++ rest = text := by rw [hsplit]; simp
  rw [hlength, htext] at hpassed
  rw [← hpassed]
  unfold Accepted
  simp [tokenProblems, h]

theorem not_accepted_ampersand {«open» : List String} {text : Text} (h : entityAt text = none) :
    ¬ Accepted «open» ('&' :: text) := by
  unfold Accepted
  simp [tokenProblems, h]

theorem accepted_char {«open» : List String} {c : Char} {text : Text} (hlt : c ≠ '<') (hgt : c ≠ '>')
    (hamp : c ≠ '&') : Accepted «open» (c :: text) ↔ Accepted «open» text := by
  unfold Accepted
  simp only [tokenProblems, if_neg hlt, if_neg hgt, if_neg hamp]
  exact tokenProblems_index 0 _ 0 «open» text

theorem entityAt_body {body rest : Text} (hbody : isEntityBody body = true)
    (hno : ∀ c ∈ body, c ≠ ';') : entityAt (body ++ ';' :: rest) = some body := by
  have hall : ∀ c ∈ body, decide (c ≠ ';') = true := fun c hc => by simpa using hno c hc
  have htake : (body ++ ';' :: rest).takeWhile (fun c => decide (c ≠ ';')) = body := by
    rw [List.takeWhile_append_of_pos hall]
    simp
  have hdrop : (body ++ ';' :: rest).dropWhile (fun c => decide (c ≠ ';')) = ';' :: rest := by
    rw [List.dropWhile_append_of_pos hall]
    simp
  unfold entityAt
  simp only [htake, hdrop]
  simp [hbody]

/-- **An escaped value in a text's own position changes nothing.** -/
theorem accepted_escape (value : Text) («open» : List String) (text : Text) :
    Accepted «open» (escapeTelegramHtml value ++ text) ↔ Accepted «open» text := by
  induction value with
  | nil => rfl
  | cons c value ih =>
    have hcons : escapeTelegramHtml (c :: value) ++ text =
        escapeOf c ++ (escapeTelegramHtml value ++ text) := by
      unfold escapeTelegramHtml
      rw [List.flatMap_cons, List.append_assoc]
    have hentity : ∀ body : Text, isEntityBody body = true → (∀ d ∈ body, d ≠ ';') →
        (Accepted «open» ('&' :: (body ++ ';' :: (escapeTelegramHtml value ++ text))) ↔
          Accepted «open» text) := by
      intro body hbody hno
      rw [accepted_entity (entityAt_body hbody hno) rfl, ih]
    rw [hcons]
    unfold escapeOf
    split_ifs with hamp hlt hgt hquote
    · exact hentity ['a', 'm', 'p'] (by decide) (by simp)
    · exact hentity ['l', 't'] (by decide) (by simp)
    · exact hentity ['g', 't'] (by decide) (by simp)
    · exact hentity ['q', 'u', 'o', 't'] (by decide) (by simp)
    · show Accepted «open» (c :: (escapeTelegramHtml value ++ text)) ↔ _
      rw [accepted_char hlt hgt hamp, ih]

/-- An entity holds neither the stand-in nor a `<`. -/
theorem mem_entityBody {body : Text} (h : isEntityBody body = true) :
    ∀ c ∈ body, c ≠ '·' ∧ c ≠ '<' := by
  have hhex : ∀ c, isHexDigit c = true → c ≠ '·' ∧ c ≠ '<' := by
    intro c hc
    constructor
    · rintro rfl
      have hnot : isHexDigit '·' = false := by decide
      rw [hnot] at hc
      cases hc
    · rintro rfl
      have hnot : isHexDigit '<' = false := by decide
      rw [hnot] at hc
      cases hc
  have hdigit : ∀ c, isDigit c = true → isHexDigit c = true := by
    intro c hc
    unfold isHexDigit
    rw [hc]
    rfl
  unfold isEntityBody at h
  split at h
  · rename_i digits
    have hall : ∀ c ∈ digits, isHexDigit c = true := by
      have hdigits := (Bool.and_eq_true_iff.mp h).2
      exact List.all_eq_true.mp hdigits
    intro c hc
    rcases List.mem_cons.mp hc with rfl | hc
    · decide
    · rcases List.mem_cons.mp hc with rfl | hc
      · decide
      · exact hhex c (hall c hc)
  · rename_i digits _
    have hall : ∀ c ∈ digits, isDigit c = true := by
      have hdigits := (Bool.and_eq_true_iff.mp h).2
      exact List.all_eq_true.mp hdigits
    intro c hc
    rcases List.mem_cons.mp hc with rfl | hc
    · decide
    · exact hhex c (hdigit c (hall c hc))
  · simp only [Bool.or_eq_true, decide_eq_true_eq] at h
    rcases h with ((rfl | rfl) | rfl) | rfl <;> simp

/-- A text up to a character that stands in it. -/
theorem split_at_first {text : Text} {d : Char} (h : text.dropWhile (· ≠ d) ≠ []) :
    ∃ rest, text = text.takeWhile (· ≠ d) ++ d :: rest := by
  cases hdrop : text.dropWhile (fun c => decide (c ≠ d)) with
  | nil => exact absurd hdrop h
  | cons c rest =>
    have hne : text.dropWhile (fun c => decide (c ≠ d)) ≠ [] := by
      rw [hdrop]
      exact List.cons_ne_nil _ _
    have hc : c = d := by
      have hnot := List.head_dropWhile_not (fun c => decide (c ≠ d)) hne
      simp only [hdrop, List.head_cons] at hnot
      simpa using hnot
    refine ⟨rest, ?_⟩
    have happend := List.takeWhile_append_dropWhile (p := fun c => decide (c ≠ d)) (l := text)
    rw [hdrop, hc] at happend
    exact happend.symm

theorem entityAt_split {text body : Text} (h : entityAt text = some body) :
    (∃ rest, text = body ++ ';' :: rest) ∧ isEntityBody body = true ∧ ∀ c ∈ body, c ≠ ';' := by
  unfold entityAt at h
  simp only at h
  split_ifs at h with hbody
  obtain ⟨hrest, hbody⟩ := hbody
  injection h with h
  subst h
  exact ⟨split_at_first hrest, hbody, fun c hc => by simpa using List.mem_takeWhile_imp hc⟩

/-! ### A text with open holes -/

/-- The tags of a marked text; `skip` symbols of a match are to pass. -/
def markedTags : ℕ → MarkedText → List MarkedTag
  | _, [] => []
  | skip + 1, _ :: text => markedTags skip text
  | 0, s :: text =>
    if symChar s = '<' then
      match markedTagAt text with
      | none => markedTags 0 text
      | some (tag, inside) => tag :: markedTags (inside.length + 1) text
    else markedTags 0 text

theorem markedTags_skip (before text : MarkedText) :
    markedTags before.length (before ++ text) = markedTags 0 text := by
  induction before with
  | nil => rfl
  | cons s before ih => exact ih

theorem markedTags_tag {inside rest : MarkedText} {tag : MarkedTag}
    (h : markedTagAt (inside ++ .inl '>' :: rest) = some (tag, inside)) :
    markedTags 0 (.inl '<' :: (inside ++ .inl '>' :: rest)) = tag :: markedTags 0 rest := by
  have hpassed := markedTags_skip (inside ++ [.inl '>']) rest
  have hlength : (inside ++ [Sum.inl '>']).length = inside.length + 1 := by simp
  have htext : (inside ++ [Sum.inl '>']) ++ rest = inside ++ .inl '>' :: rest := by simp
  rw [hlength, htext] at hpassed
  have hchar : symChar (.inl '<') = '<' := rfl
  simp only [markedTags, hchar, if_true, h]
  rw [hpassed]

theorem markedTags_plain {s : Sym} {text : MarkedText} (h : symChar s ≠ '<') :
    markedTags 0 (s :: text) = markedTags 0 text := by
  simp only [markedTags, if_neg h]

theorem markedTags_chars {chars : Text} (h : ∀ c ∈ chars, c ≠ '<') (text : MarkedText) :
    markedTags 0 (chars.map Sum.inl ++ text) = markedTags 0 text := by
  induction chars with
  | nil => rfl
  | cons c chars ih =>
    have hc : symChar (.inl c) ≠ '<' := h c List.mem_cons_self
    rw [List.map_cons, List.cons_append, markedTags_plain hc]
    exact ih (fun d hd => h d (List.mem_cons_of_mem _ hd))

/-- **A text accepted with stand-ins** is accepted with any escaped values just when the class of every
code tag stays one.  By induction on the text, a match at a time. -/
theorem accepted_fill (values : String → Text) :
    ∀ (n : ℕ) (text : MarkedText), text.length ≤ n → ∀ «open» : List String,
      Accepted «open» (text.map symChar) →
      (Accepted «open» (fill (fun x => escapeTelegramHtml (values x)) text) ↔
        ∀ tag ∈ markedTags 0 text, LanguageOk (fun x => escapeTelegramHtml (values x)) tag) := by
  intro n
  induction n with
  | zero =>
    intro text hlength «open» haccepted
    have hnil : text = [] := List.length_eq_zero_iff.mp (by omega)
    subst hnil
    simpa [markedTags] using haccepted
  | succ n ih =>
    intro text hlength «open» haccepted
    have hsafe := safe_escape values
    cases text with
    | nil => simpa [markedTags] using haccepted
    | cons s text =>
      have hshort : text.length ≤ n := by
        rw [List.length_cons] at hlength
        omega
      rw [List.map_cons] at haccepted
      cases s with
      | inr x =>
        have hdot : symChar (.inr x) = '·' := rfl
        rw [hdot, accepted_char (by decide) (by decide) (by decide)] at haccepted
        rw [fill_hole, accepted_escape, markedTags_plain (by rw [hdot]; decide)]
        exact ih text hshort «open» haccepted
      | inl c =>
        have hchar : symChar (.inl c) = c := rfl
        rw [hchar] at haccepted
        rw [fill_char]
        by_cases hlt : c = '<'
        · subst hlt
          cases htag : markedTagAt text with
          | none =>
            have hnone : tagAt (text.map symChar) = none := by
              rw [tagAt_standIn, htag]
              rfl
            exact absurd haccepted (not_accepted_bare hnone)
          | some found =>
            obtain ⟨tag, inside⟩ := found
            obtain ⟨⟨rest, hsplit⟩, -, -⟩ := markedTagAt_split htag
            have hstandIn : tagAt (text.map symChar) =
                some (tag.fill (fun _ => ['·']), inside.map symChar) := by
              rw [tagAt_standIn, htag]
              rfl
            have hsplitStandIn : text.map symChar = inside.map symChar ++ '>' :: rest.map symChar := by
              rw [hsplit, List.map_append, List.map_cons]
              rfl
            rw [accepted_tag hstandIn hsplitStandIn] at haccepted
            obtain ⟨htagOk, hrest⟩ := haccepted
            have hfilled := tagAt_fill hsafe htag
            have hsplitFilled : fill (fun x => escapeTelegramHtml (values x)) text =
                fill (fun x => escapeTelegramHtml (values x)) inside ++
                  '>' :: fill (fun x => escapeTelegramHtml (values x)) rest := by
              rw [hsplit, fill_append, fill_char]
            rw [accepted_tag hfilled hsplitFilled]
            obtain ⟨hiff, hopen⟩ := tagProblems_fill (f := fun x => escapeTelegramHtml (values x)) htagOk
            have hshorter : rest.length ≤ n := by
              rw [hsplit, List.length_append, List.length_cons] at hshort
              omega
            rw [hiff, hopen, ih rest hshorter _ hrest]
            rw [hsplit] at htag ⊢
            rw [markedTags_tag htag, List.forall_mem_cons]
        · by_cases hgt : c = '>'
          · subst hgt
            exact absurd haccepted not_accepted_end
          · by_cases hamp : c = '&'
            · subst hamp
              cases hentity : entityAt (text.map symChar) with
              | none => exact absurd haccepted (not_accepted_ampersand hentity)
              | some body =>
                obtain ⟨⟨rest, hsplit⟩, hbody, hno⟩ := entityAt_split hentity
                rw [accepted_entity hentity hsplit] at haccepted
                -- no hole stands in the entity, nor at its `;`
                obtain ⟨first, last, htext, hfirst, hlast⟩ := List.map_eq_append_iff.mp hsplit
                have hfirst' := eq_chars_of_map hfirst (fun hmem => (mem_entityBody hbody _ hmem).1 rfl)
                obtain ⟨s, rest', hlast', hs, hrest'⟩ := List.map_eq_cons_iff.mp hlast
                have hsemicolon : s = .inl ';' := by
                  cases s with
                  | inl d => exact congrArg Sum.inl hs
                  | inr x =>
                    have hdot : ¬ '·' = ';' := by decide
                    exact absurd hs hdot
                subst hsemicolon
                have htext' : text = body.map Sum.inl ++ .inl ';' :: rest' := by
                  rw [htext, hfirst', hlast']
                have hfilled : fill (fun x => escapeTelegramHtml (values x)) text =
                    body ++ ';' :: fill (fun x => escapeTelegramHtml (values x)) rest' := by
                  rw [htext', fill_append, fill_char, fill_chars]
                have hat : entityAt (fill (fun x => escapeTelegramHtml (values x)) text) = some body := by
                  rw [hfilled]
                  exact entityAt_body hbody hno
                rw [accepted_entity hat hfilled]
                have hshorter : rest'.length ≤ n := by
                  rw [htext', List.length_append, List.length_cons] at hshort
                  omega
                rw [← hrest'] at haccepted
                rw [ih rest' hshorter «open» haccepted, htext', markedTags_plain (by decide),
                  markedTags_chars (fun d hd => (mem_entityBody hbody d hd).2),
                  markedTags_plain (by decide)]
            · rw [accepted_char hlt hgt hamp] at haccepted ⊢
              rw [markedTags_plain (by rw [hchar]; exact hlt)]
              exact ih text hshort «open» haccepted

/-! ### Which classes do not stay one -/

/-- A hole stands right after `language-` at the start of the class of an opening code tag. -/
def HoleAfterLanguage (tag : MarkedTag) : Prop :=
  tag.closing = false ∧ lowerCase tag.name = "code" ∧ ∃ x rest,
    ((tag.attributes.reverse.find? (fun a => lowerCase a.1 = "class")).map Prod.snd) =
      some (some ("language-".toList.map Sum.inl ++ .inr x :: rest))

theorem isLanguageClass_iff (value : Text) :
    isLanguageClass value = true ↔
      ∃ c rest, value = "language-".toList ++ c :: rest ∧ isLineEnd c = false := by
  have hsplit := List.take_append_drop 9 value
  unfold isLanguageClass
  cases hdrop : value.drop 9 with
  | nil =>
    constructor
    · intro h
      cases h
    · rintro ⟨c, rest, rfl, -⟩
      rw [List.drop_append_of_le_length (by decide)] at hdrop
      exact absurd hdrop (by simp)
  | cons c rest =>
    rw [hdrop] at hsplit
    simp only [Bool.and_eq_true, decide_eq_true_eq, Bool.not_eq_true']
    constructor
    · rintro ⟨htake, hline⟩
      rw [htake] at hsplit
      exact ⟨c, rest, hsplit.symm, hline⟩
    · rintro ⟨c', rest', hvalue, hline⟩
      have hlength : (value.take 9).length = "language-".toList.length := by
        have hle : 9 ≤ value.length := by
          rw [hvalue, List.length_append]
          have hnine : "language-".toList.length = 9 := by decide
          omega
        have hnine : "language-".toList.length = 9 := by decide
        rw [List.length_take, hnine]
        omega
      obtain ⟨htake, hcons⟩ := List.append_inj (hsplit.trans hvalue) hlength
      injection hcons with hc _
      exact ⟨htake, hc ▸ hline⟩

/-- A class right with stand-ins stays one unless a hole stands right after `language-`. -/
theorem isLanguageClass_fill {f : String → Text} {value : MarkedText}
    (hstandIn : isLanguageClass (value.map symChar) = true)
    (hno : ¬ ∃ x rest, value = "language-".toList.map Sum.inl ++ .inr x :: rest) :
    isLanguageClass (fill f value) = true := by
  obtain ⟨c, rest, hvalue, hline⟩ := (isLanguageClass_iff _).mp hstandIn
  obtain ⟨first, last, htext, hfirst, hlast⟩ := List.map_eq_append_iff.mp hvalue
  have hfirst' := eq_chars_of_map hfirst (by decide)
  obtain ⟨s, rest', hlast', hs, -⟩ := List.map_eq_cons_iff.mp hlast
  cases s with
  | inl d =>
    have hd : d = c := hs
    refine (isLanguageClass_iff _).mpr ⟨c, fill f rest', ?_, hline⟩
    rw [htext, hfirst', hlast', fill_append, fill_chars, fill_char, hd]
  | inr x => exact absurd ⟨x, rest', by rw [htext, hfirst', hlast']⟩ hno

/-- The classes stay with every value just when no hole stands right after `language-`. -/
theorem languageOk_iff {tag : MarkedTag} (hstandIn : LanguageOk (fun _ => ['·']) tag) :
    (∀ values : String → Text, LanguageOk (fun x => escapeTelegramHtml (values x)) tag) ↔
      ¬ HoleAfterLanguage tag := by
  constructor
  · rintro hall ⟨hclosing, hname, x, rest, hvalue⟩
    -- a line feed is the value no class survives
    have hok := hall (fun _ => ['\n']) hclosing hname _ hvalue
    obtain ⟨c, rest', hfill, hline⟩ := (isLanguageClass_iff _).mp hok
    rw [fill_append, fill_chars, fill_hole] at hfill
    have hrest := List.append_cancel_left hfill
    have hescape : escapeTelegramHtml ['\n'] = ['\n'] := by decide
    rw [hescape] at hrest
    injection hrest with hc _
    rw [← hc] at hline
    have hfeed : isLineEnd '\n' = true := by decide
    rw [hfeed] at hline
    cases hline
  · intro hno values hclosing hname value hvalue
    have hok := hstandIn hclosing hname value hvalue
    rw [fill_standIn] at hok
    refine isLanguageClass_fill hok ?_
    rintro ⟨x, rest, rfl⟩
    exact hno ⟨hclosing, hname, x, rest, hvalue⟩

/-- **A text accepted with stand-ins is accepted with any escaped values** just when no hole stands
right after `language-` in a code tag's class. -/
theorem accepted_all_iff {text : MarkedText} (h : Accepted [] (text.map symChar)) :
    (∀ values : String → Text, Accepted [] (fill (fun x => escapeTelegramHtml (values x)) text)) ↔
      ∀ tag ∈ markedTags 0 text, ¬ HoleAfterLanguage tag := by
  have hescape : (fun _ : String => escapeTelegramHtml ['·']) = fun _ => ['·'] := by
    funext _
    decide
  -- the stand-in is a value too
  have hstandIn : ∀ tag ∈ markedTags 0 text, LanguageOk (fun _ => ['·']) tag := by
    have hiff := accepted_fill (fun _ => ['·']) text.length text le_rfl [] h
    rw [hescape, fill_standIn] at hiff
    exact hiff.mp h
  have hiff := fun values => accepted_fill values text.length text le_rfl [] h
  constructor
  · intro hall tag htag
    refine (languageOk_iff (hstandIn tag htag)).mp (fun values => ?_)
    exact (hiff values).mp (hall values) tag htag
  · intro hno values
    refine (hiff values).mpr (fun tag htag => ?_)
    exact (languageOk_iff (hstandIn tag htag)).mpr (hno tag htag) values

end Binarius
