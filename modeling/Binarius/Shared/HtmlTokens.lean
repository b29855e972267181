import Mathlib.Tactic
import Binarius.Lib.OrderedMap
import Binarius.Shared.MarkedHtml

/-!
# Shared.HtmlTokens — the three readers of telegram-html.ts (packages/shared/src/telegram-html.ts)

* `telegramHtmlTokens`: the tokenizer, by the patterns of `telegramHtmlProblems`.
* `Balanced`: every opened tag closed, in order.
* `accepted_cases`: **how a text without problems begins**.
* `html_readers_agree`: the tokens of such a text hold `plainTextOf` and balance; an escaped text reads
  as written.

What a numeric entity reads as is a parameter of both readers.
-/

namespace Binarius

open Lib

inductive TelegramHtmlToken
  | «open» (name : String) (attributes : OrderedMap String (Option Text))
  | close (name : String)
  | text (text : Text)

/-- Attribute values as written, a bare one `none`; the last of a name is kept. -/
def tokenAttributes (attributes : List TagAttribute) : OrderedMap String (Option Text) :=
  attributes.foldl (fun kept attr => kept.set (lowerCase attr.1) attr.2) .empty

def tagToken (tag : Tag) : TelegramHtmlToken :=
  if tag.closing then .close (lowerCase tag.name) else .open (lowerCase tag.name)
    (tokenAttributes tag.attributes)

section Tokens

variable (point : ℕ → Text)

/-- The text since the last tag, if there is any. -/
def textUntil (pending : Text) : List TelegramHtmlToken :=
  if pending = [] then [] else [.text (decodeEntities point 0 pending)]

/-- `skip` characters of a match are still to pass, `pending` is the text since the last tag. -/
def tokensFrom : ℕ → Text → Text → List TelegramHtmlToken
  | _, pending, [] => textUntil point pending
  | skip + 1, pending, _ :: text => tokensFrom skip pending text
  | 0, pending, c :: text =>
    if c = '<' then
      match tagAt text with
      | none => tokensFrom 0 (pending ++ [c]) text
      | some (tag, inside) => textUntil point pending ++ tagToken tag :: tokensFrom (inside.length + 1) [] text
    else tokensFrom 0 (pending ++ [c]) text

/-- `value` as tags and text. -/
def telegramHtmlTokens (value : Text) : List TelegramHtmlToken := tokensFrom point 0 [] value

end Tokens

def TelegramHtmlToken.textOf : TelegramHtmlToken → Text
  | .open _ _ => []
  | .close _ => []
  | .text value => value

/-- The text tokens, one after the other. -/
def textsOf (tokens : List TelegramHtmlToken) : Text := tokens.flatMap TelegramHtmlToken.textOf

/-! ## What balances -/

/-- Every tag opened is closed, and inside what it stands in. -/
inductive Balanced : List TelegramHtmlToken → Prop
  | nil : Balanced []
  | text (text : Text) {rest : List TelegramHtmlToken} (h : Balanced rest) : Balanced (.text text :: rest)
  | element (name : String) (attributes : OrderedMap String (Option Text))
    {inner rest : List TelegramHtmlToken}
      (hinner : Balanced inner) (hrest : Balanced rest) :
      Balanced (.open name attributes :: (inner ++ .close name :: rest))

/-- What closes the open tags, the innermost first. -/
def Closing : List String → List TelegramHtmlToken → Prop
  | [], tokens => Balanced tokens
  | name :: «open», tokens =>
    ∃ inner rest, Balanced inner ∧ tokens = inner ++ .close name :: rest ∧ Closing «open» rest

section Closing

variable {«open» : List String} {tokens : List TelegramHtmlToken} {name : String}

theorem Closing.text (h : Closing «open» tokens) (text : Text) : Closing «open» (.text text :: tokens) := by
  cases «open» with
  | nil => exact Balanced.text text h
  | cons name outer =>
    obtain ⟨inner, rest, hinner, rfl, hrest⟩ := h
    exact ⟨.text text :: inner, rest, hinner.text text, rfl, hrest⟩

theorem Closing.textUntil (h : Closing «open» tokens) (point : ℕ → Text) (pending : Text) :
    Closing «open» (textUntil point pending ++ tokens) := by
  unfold Binarius.textUntil
  split_ifs
  · exact h
  · exact h.text _

/-- A tag opened: what closes it as well closes the others. -/
theorem Closing.opened (h : Closing (name :: «open») tokens)
    (attributes : OrderedMap String (Option Text)) :
    Closing «open» (.open name attributes :: tokens) := by
  obtain ⟨inner, rest, hinner, rfl, hrest⟩ := h
  cases «open» with
  | nil => exact Balanced.element name attributes hinner hrest
  | cons outer «open» =>
    obtain ⟨inner', rest', hinner', rfl, hrest'⟩ := hrest
    refine ⟨.open name attributes :: (inner ++ .close name :: inner'), rest', ?_, ?_, hrest'⟩
    · exact Balanced.element name attributes hinner hinner'
    · simp

theorem Closing.closed (h : Closing «open» tokens) (name : String) :
    Closing (name :: «open») (.close name :: tokens) :=
  ⟨[], tokens, Balanced.nil, rfl, h⟩

end Closing

/-! ## A text without problems -/

theorem tagAt_split {text inside : Text} {tag : Tag} (h : tagAt text = some (tag, inside)) :
    ∃ rest, text = inside ++ '>' :: rest := by
  unfold tagAt at h
  simp only at h
  split_ifs at h with hempty
  rw [Option.bind_eq_bind, Option.bind_eq_some_iff] at h
  obtain ⟨state, -, h⟩ := h
  rw [Option.bind_eq_bind, Option.bind_eq_some_iff] at h
  obtain ⟨tag', -, h⟩ := h
  have hinside : text.takeWhile (· ≠ '>') = inside := (Prod.mk.inj (Option.some.inj h)).2
  rw [← hinside]
  exact split_at_first hempty

/-- **How a text without problems begins**: it ends, or a plain character, an entity or a tag stands
there. -/
theorem accepted_cases {«open» : List String} {text : Text} (h : Accepted «open» text) :
    (text = [] ∧ «open» = []) ∨
    (∃ c rest, text = c :: rest ∧ c ≠ '<' ∧ c ≠ '&' ∧ Accepted «open» rest) ∨
    (∃ body rest, text = '&' :: (body ++ ';' :: rest) ∧ isEntityBody body = true ∧ (∀ c ∈ body, c ≠ ';') ∧
      Accepted «open» rest) ∨
    ∃ tag inside rest, text = '<' :: (inside ++ '>' :: rest) ∧
      tagAt (inside ++ '>' :: rest) = some (tag, inside) ∧
      (tagProblems tag «open»).1 = [] ∧ Accepted (tagProblems tag «open»).2 rest := by
  cases text with
  | nil => exact .inl ⟨rfl, List.map_eq_nil_iff.mp h⟩
  | cons c text =>
    refine .inr ?_
    by_cases hlt : c = '<'
    · subst hlt
      cases htag : tagAt text with
      | none => exact absurd h (not_accepted_bare htag)
      | some found =>
        obtain ⟨tag, inside⟩ := found
        obtain ⟨rest, hsplit⟩ := tagAt_split htag
        obtain ⟨hno, hrest⟩ := (accepted_tag htag hsplit).mp h
        exact .inr (.inr ⟨tag, inside, rest, by rw [hsplit], hsplit ▸ htag, hno, hrest⟩)
    · by_cases hamp : c = '&'
      · subst hamp
        cases hentity : entityAt text with
        | none => exact absurd h (not_accepted_ampersand hentity)
        | some body =>
          obtain ⟨⟨rest, hsplit⟩, hbody, hno⟩ := entityAt_split hentity
          exact .inr (.inl ⟨body, rest, by rw [hsplit], hbody, hno, (accepted_entity hentity hsplit).mp h⟩)
      · by_cases hgt : c = '>'
        · subst hgt
          exact absurd h not_accepted_end
        · exact .inl ⟨c, text, rfl, hlt, hamp, (accepted_char hlt hgt hamp).mp h⟩

/-! ## The readers, a piece at a time -/

section Readers

variable {point : ℕ → Text} {text pending : Text}

theorem tokensFrom_skip (point : ℕ → Text) (before : Text) (pending text : Text) :
    tokensFrom point before.length pending (before ++ text) = tokensFrom point 0 pending text := by
  induction before with
  | nil => rfl
  | cons c before ih => exact ih

theorem withoutTags_skip (before text : Text) : withoutTags before.length (before ++ text) =
    withoutTags 0 text := by
  induction before with
  | nil => rfl
  | cons c before ih => exact ih

theorem decodeEntities_skip (point : ℕ → Text) (before text : Text) :
    decodeEntities point before.length (before ++ text) = decodeEntities point 0 text := by
  induction before with
  | nil => rfl
  | cons c before ih => exact ih

theorem tokensFrom_chars {chars : Text} (h : ∀ c ∈ chars, c ≠ '<') (pending text : Text) :
    tokensFrom point 0 pending (chars ++ text) = tokensFrom point 0 (pending ++ chars) text := by
  induction chars generalizing pending with
  | nil => rw [List.nil_append, List.append_nil]
  | cons c chars ih =>
    have hstep : tokensFrom point 0 pending (c :: (chars ++ text)) = tokensFrom point 0 (pending ++ [c])
      (chars ++ text) :=
      if_neg (h c (List.mem_cons_self ..))
    rw [List.cons_append, hstep, ih (fun d hd => h d (List.mem_cons_of_mem _ hd)), List.append_assoc]
    rfl

theorem withoutTags_chars {chars : Text} (h : ∀ c ∈ chars, c ≠ '<') (text : Text) :
    withoutTags 0 (chars ++ text) = chars ++ withoutTags 0 text := by
  induction chars with
  | nil => rfl
  | cons c chars ih =>
    have hstep : withoutTags 0 (c :: (chars ++ text)) = c :: withoutTags 0 (chars ++ text) :=
      if_neg (h c (List.mem_cons_self ..))
    rw [List.cons_append, hstep, ih (fun d hd => h d (List.mem_cons_of_mem _ hd))]
    rfl

theorem tokensFrom_tag {inside rest : Text} {tag : Tag} (h : tagAt (inside ++ '>' :: rest) = some
    (tag, inside))
    (pending : Text) :
    tokensFrom point 0 pending ('<' :: (inside ++ '>' :: rest)) =
      textUntil point pending ++ tagToken tag :: tokensFrom point 0 [] rest := by
  have hpassed := tokensFrom_skip point (inside ++ ['>']) [] rest
  rw [List.length_append, List.append_assoc] at hpassed
  simp only [tokensFrom, if_true, h]
  exact congrArg (fun tokens => textUntil point pending ++ tagToken tag :: tokens) hpassed

theorem withoutTags_tag {inside rest : Text} {tag : Tag} (h : tagAt (inside ++ '>' :: rest) = some
    (tag, inside)) :
    withoutTags 0 ('<' :: (inside ++ '>' :: rest)) = withoutTags 0 rest := by
  have hpassed := withoutTags_skip (inside ++ ['>']) rest
  rw [List.length_append, List.append_assoc] at hpassed
  simp only [withoutTags, if_true, h]
  exact hpassed

theorem decodeEntities_entity {body : Text} (hbody : isEntityBody body = true) (hno : ∀ c ∈ body, c ≠ ';')
    (rest : Text) :
    decodeEntities point 0 ('&' :: (body ++ ';' :: rest)) =
      decodeEntity point body ++ decodeEntities point 0 rest := by
  have hpassed := decodeEntities_skip point (body ++ [';']) rest
  rw [List.length_append, List.append_assoc] at hpassed
  simp only [decodeEntities, if_true, entityAt_body hbody hno]
  exact congrArg (decodeEntity point body ++ ·) hpassed

theorem decodeEntities_char {c : Char} (h : c ≠ '&') (rest : Text) :
    decodeEntities point 0 (c :: rest) = c :: decodeEntities point 0 rest :=
  if_neg h

/-- No entity starts in the text and ends past it. -/
def WholeEntities (point : ℕ → Text) (text : Text) : Prop :=
  ∀ rest, decodeEntities point 0 (text ++ rest) = decodeEntities point 0 text ++ decodeEntities point 0 rest

theorem WholeEntities.nil : WholeEntities point [] := fun _ => rfl

theorem WholeEntities.append {text' : Text} (h : WholeEntities point text) (h' : WholeEntities point text') :
    WholeEntities point (text ++ text') := by
  intro rest
  rw [List.append_assoc, h, h', h, List.append_assoc]

theorem WholeEntities.char {c : Char} (h : c ≠ '&') : WholeEntities point [c] := by
  intro rest
  rw [decodeEntities_char h]
  exact decodeEntities_char h rest

theorem WholeEntities.entity {body : Text} (hbody : isEntityBody body = true) (hno : ∀ c ∈ body, c ≠ ';') :
    WholeEntities point ('&' :: (body ++ [';'])) := by
  intro rest
  rw [decodeEntities_entity hbody hno, List.cons_append, List.append_assoc]
  show decodeEntities point 0 ('&' :: (body ++ ';' :: rest)) = _
  rw [decodeEntities_entity hbody hno, show decodeEntities point 0 [] = [] from rfl, List.append_nil]

theorem textsOf_append (tokens tokens' : List TelegramHtmlToken) :
    textsOf (tokens ++ tokens') = textsOf tokens ++ textsOf tokens' :=
  List.flatMap_append

theorem textsOf_textUntil (pending : Text) :
    textsOf (textUntil point pending) = decodeEntities point 0 pending := by
  unfold textUntil
  split_ifs with hempty
  · rw [hempty]
    rfl
  · exact List.append_nil _

theorem textsOf_tag (tag : Tag) (tokens : List TelegramHtmlToken) :
    textsOf (tagToken tag :: tokens) = textsOf tokens := by
  unfold tagToken
  split_ifs <;> rfl

end Readers

/-- The token of a tag without problems opens it, or closes the innermost open one. -/
theorem Closing.tag {tag : Tag} {«open» : List String} {tokens : List TelegramHtmlToken}
    (hno : (tagProblems tag «open»).1 = []) (h : Closing (tagProblems tag «open»).2 tokens) :
    Closing «open» (tagToken tag :: tokens) := by
  unfold tagProblems at hno h
  unfold tagToken
  simp only at hno h
  split_ifs at hno h ⊢ with hclosing
  · unfold closingTagProblems at hno h
    simp only at hno h
    cases «open» with
    | nil =>
      obtain ⟨-, hnothing⟩ := List.append_eq_nil_iff.mp hno
      cases hnothing
    | cons innermost outer =>
      simp only at hno h
      by_cases hsame : innermost = lowerCase tag.name
      · rw [if_pos hsame] at h
        exact hsame ▸ h.closed _
      · rw [if_neg hsame] at hno
        obtain ⟨-, hcloses⟩ := List.append_eq_nil_iff.mp hno
        cases hcloses
  · exact h.opened _

/-- **The tokens of a text without problems**, the text since the last tag being whole. -/
theorem tokensFrom_accepted {point : ℕ → Text} (n : ℕ) :
    ∀ {«open» : List String} {text pending : Text}, text.length ≤ n →
    Accepted «open» text → WholeEntities point pending →
    textsOf (tokensFrom point 0 pending text) = decodeEntities point 0 (pending ++ withoutTags 0 text) ∧
      Closing «open» (tokensFrom point 0 pending text) := by
  induction n with
  | zero =>
    intro «open» text pending hlength h hwhole
    obtain rfl := List.eq_nil_of_length_eq_zero (Nat.le_zero.mp hlength)
    have hopen : «open» = [] := List.map_eq_nil_iff.mp h
    subst hopen
    refine ⟨?_, ?_⟩
    · exact (textsOf_textUntil pending).trans (congrArg _ (List.append_nil _).symm)
    · have hnil : Closing [] [] := Balanced.nil
      have hclosing := hnil.textUntil point pending
      rwa [List.append_nil] at hclosing
  | succ n ih =>
    intro «open» text pending hlength h hwhole
    rcases accepted_cases h with ⟨rfl, hopen⟩ | ⟨c, rest, rfl, hlt, hamp, hrest⟩ |
      ⟨body, rest, rfl, hbody, hno, hrest⟩ | ⟨tag, inside, rest, rfl, htag, hno, hrest⟩
    · exact ih (Nat.zero_le _) h hwhole
    · have hchars : ∀ d ∈ [c], d ≠ '<' := fun d hd => List.mem_singleton.mp hd ▸ hlt
      obtain ⟨htexts, hclosing⟩ := ih (Nat.le_of_succ_le_succ hlength) hrest (hwhole.append (.char hamp))
      rw [show c :: rest = [c] ++ rest from rfl, tokensFrom_chars hchars, withoutTags_chars hchars, ←
        List.append_assoc]
      exact ⟨htexts, hclosing⟩
    · have hchars : ∀ d ∈ '&' :: (body ++ [';']), d ≠ '<' := by
        intro d hd
        rcases List.mem_cons.mp hd with rfl | hd
        · decide
        · rcases List.mem_append.mp hd with hd | hd
          · exact (mem_entityBody hbody d hd).2
          · rw [List.mem_singleton.mp hd]
            decide
      have hshorter : rest.length ≤ n := by
        simp only [List.length_cons, List.length_append] at hlength
        omega
      obtain ⟨htexts, hclosing⟩ := ih hshorter hrest (hwhole.append (.entity hbody hno))
      have hsplit : '&' :: (body ++ ';' :: rest) = '&' :: (body ++ [';']) ++ rest := by simp
      rw [hsplit, tokensFrom_chars hchars, withoutTags_chars hchars, ← List.append_assoc]
      exact ⟨htexts, hclosing⟩
    · have hshorter : rest.length ≤ n := by
        simp only [List.length_cons, List.length_append] at hlength
        omega
      obtain ⟨htexts, hclosing⟩ := ih hshorter hrest WholeEntities.nil
      rw [tokensFrom_tag htag, withoutTags_tag htag]
      refine ⟨?_, (hclosing.tag hno).textUntil point pending⟩
      rw [textsOf_append, textsOf_textUntil, textsOf_tag, htexts, hwhole]
      rfl

/-- An escaped text holds no tag. -/
theorem withoutTags_escape (value : Text) : withoutTags 0 (escapeTelegramHtml value) =
    escapeTelegramHtml value := by
  have h := @withoutTags_chars (escapeTelegramHtml value) (fun c hc => (mem_escape hc).1) []
  rw [List.append_nil] at h
  exact h.trans (List.append_nil _)

theorem decode_escape (point : ℕ → Text) (value : Text) :
    decodeEntities point 0 (escapeTelegramHtml value) = value := by
  induction value with
  | nil => rfl
  | cons c value ih =>
    have hcons : escapeTelegramHtml (c :: value) = escapeOf c ++ escapeTelegramHtml value :=
      List.flatMap_cons
    have hentity : ∀ body : Text, isEntityBody body = true → (∀ d ∈ body, d ≠ ';') →
      decodeEntity point body = [c] →
        decodeEntities point 0 ('&' :: (body ++ ';' :: escapeTelegramHtml value)) = c :: value := by
      intro body hbody hno hdecoded
      rw [decodeEntities_entity hbody hno, hdecoded, ih]
      rfl
    rw [hcons]
    unfold escapeOf
    split_ifs with hamp hlt hgt hquote
    · exact hentity ['a', 'm', 'p'] (by decide +kernel) (by simp) (by rw [hamp]; rfl)
    · exact hentity ['l', 't'] (by decide +kernel) (by simp) (by rw [hlt]; rfl)
    · exact hentity ['g', 't'] (by decide +kernel) (by simp) (by rw [hgt]; rfl)
    · exact hentity ['q', 'u', 'o', 't'] (by decide +kernel) (by simp) (by rw [hquote]; rfl)
    · exact (decodeEntities_char hamp _).trans (congrArg (c :: ·) ih)

/-- **The readers agree**: of a text without problems the tokens hold its plain text, and their tags
balance; an escaped text has no problems, and reads as it was. -/
theorem html_readers_agree (point : ℕ → Text) :
    (∀ value, telegramHtmlProblems value = [] →
      textsOf (telegramHtmlTokens point value) = plainTextOf point value ∧
        Balanced (telegramHtmlTokens point value)) ∧
    ∀ s, telegramHtmlProblems (escapeTelegramHtml s) = [] ∧ plainTextOf point (escapeTelegramHtml s) = s := by
  refine ⟨fun value h => ?_, fun s => ⟨?_, ?_⟩⟩
  · exact tokensFrom_accepted value.length (le_refl _) (show Accepted [] value from h) WholeEntities.nil
  · have h := (accepted_escape s [] []).mpr rfl
    rwa [List.append_nil] at h
  · unfold plainTextOf
    rw [withoutTags_escape, decode_escape]

theorem html_readers_agree_bold :
    telegramHtmlProblems "<b>x &amp;lt; y</b>".toList = [] ∧
    textsOf (telegramHtmlTokens unitsOfCodePoint "<b>x &amp;lt; y</b>".toList) =
      plainTextOf unitsOfCodePoint "<b>x &amp;lt; y</b>".toList ∧
    plainTextOf unitsOfCodePoint "<b>x &amp;lt; y</b>".toList = "x &lt; y".toList := by
  have hno : telegramHtmlProblems "<b>x &amp;lt; y</b>".toList = [] := by decide +kernel
  exact ⟨hno, ((html_readers_agree unitsOfCodePoint).1 _ hno).1, by decide +kernel⟩

end Binarius
