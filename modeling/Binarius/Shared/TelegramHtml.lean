import Mathlib.Tactic

/-!
# Shared.TelegramHtml — text with parse_mode HTML (packages/shared/src/telegram-html.ts)

* `tagAt`: the TAG pattern.  Only its last character is a `>`, so what it reads is the text up to the
  next `>`, and `TagState.step` is its automaton there.
* `entityAt`: the ENTITY pattern, up to the next `;`.
* `telegramHtmlProblems`: the tokenizer; `escapeTelegramHtml`, `plainTextOf`, `telegramHtmlTagRanges`.

A text is its characters; lengths and offsets count UTF-16 units, as the source's do.
-/

namespace Binarius

abbrev Text := List Char

/-- How many UTF-16 units a character takes. -/
def unitsOf (c : Char) : ℕ := if c.toNat < 0x10000 then 1 else 2

def textLength (text : Text) : ℕ := (text.map unitsOf).sum

/-- What `\s` and `trim` read as a blank. -/
def isSpace (c : Char) : Bool :=
  let n := c.toNat
  (0x09 ≤ n && n ≤ 0x0d) || n = 0x20 || n = 0xa0 || n = 0x1680 || (0x2000 ≤ n && n ≤ 0x200a) ||
    n = 0x2028 || n = 0x2029 || n = 0x202f || n = 0x205f || n = 0x3000 || n = 0xfeff

/-- What `.` does not match. -/
def isLineEnd (c : Char) : Bool := c = '\n' || c = '\r' || c.toNat = 0x2028 || c.toNat = 0x2029

def isLetter (c : Char) : Bool := ('a' ≤ c && c ≤ 'z') || ('A' ≤ c && c ≤ 'Z')

def isDigit (c : Char) : Bool := '0' ≤ c && c ≤ '9'

def isHexDigit (c : Char) : Bool := isDigit c || ('a' ≤ c && c ≤ 'f') || ('A' ≤ c && c ≤ 'F')

def isNameChar (c : Char) : Bool := isLetter c || isDigit c || c = '-'

def trim (text : Text) : Text :=
  ((text.dropWhile isSpace).reverse.dropWhile isSpace).reverse

def escapeOf (c : Char) : Text :=
  if c = '&' then ['&', 'a', 'm', 'p', ';']
  else if c = '<' then ['&', 'l', 't', ';']
  else if c = '>' then ['&', 'g', 't', ';']
  else if c = '"' then ['&', 'q', 'u', 'o', 't', ';']
  else [c]

def escapeTelegramHtml (value : Text) : Text := value.flatMap escapeOf

/-- An attribute of a tag, as written: its name, and its value unless it is bare. -/
abbrev TagAttribute := Text × Option Text

structure Tag where
  closing : Bool
  name : Text
  attributes : List TagAttribute
  deriving DecidableEq, Repr

/-- Where the pattern stands between a `<` and the next `>`. -/
inductive TagState
  | opening (closing : Bool)
  | named (tag : Tag)
  | gap (tag : Tag)
  | attr (tag : Tag) (name : Text)
  | equals (tag : Tag) (name : Text)
  | quoted (tag : Tag) (name : Text) (value : Text)
  | valued (tag : Tag)
  deriving DecidableEq, Repr

def Tag.add (tag : Tag) (attr : TagAttribute) : Tag :=
  { tag with attributes := tag.attributes ++ [attr] }

/-- `(\/?)([a-zA-Z][a-zA-Z0-9-]*)((?:\s+[a-zA-Z][a-zA-Z0-9-]*(?:="[^"<>]*")?)*)\s*`, a character at a
time. -/
def TagState.step : TagState → Char → Option TagState
  | .opening closing, c =>
    if c = '/' ∧ closing = false then some (.opening true)
    else if isLetter c then some (.named ⟨closing, [c], []⟩)
    else none
  | .named tag, c =>
    if isNameChar c then some (.named { tag with name := tag.name ++ [c] })
    else if isSpace c then some (.gap tag)
    else none
  | .gap tag, c =>
    if isLetter c then some (.attr tag [c])
    else if isSpace c then some (.gap tag)
    else none
  | .attr tag name, c =>
    if isNameChar c then some (.attr tag (name ++ [c]))
    else if c = '=' then some (.equals tag name)
    else if isSpace c then some (.gap (tag.add (name, none)))
    else none
  | .equals tag name, c => if c = '"' then some (.quoted tag name []) else none
  | .quoted tag name value, c =>
    if c = '"' then some (.valued (tag.add (name, some value)))
    else if c = '<' then none
    else some (.quoted tag name (value ++ [c]))
  | .valued tag, c => if isSpace c then some (.gap tag) else none

/-- The tag, where the `>` may come. -/
def TagState.tag? : TagState → Option Tag
  | .opening _ => none
  | .named tag => some tag
  | .gap tag => some tag
  | .attr tag name => some (tag.add (name, none))
  | .equals _ _ => none
  | .quoted _ _ _ => none
  | .valued tag => some tag

def TagState.steps (state : TagState) (text : Text) : Option TagState :=
  text.foldlM TagState.step state

/-- The TAG pattern at a `<`, over what follows it: the tag, and what stands between `<` and `>`. -/
def tagAt (text : Text) : Option (Tag × Text) :=
  let inside := text.takeWhile (· ≠ '>')
  if text.dropWhile (· ≠ '>') = [] then none
  else do
    let state ← (TagState.opening false).steps inside
    let tag ← state.tag?
    pure (tag, inside)

/-- `lt|gt|amp|quot|#\d+|#x[0-9a-fA-F]+` -/
def isEntityBody : Text → Bool
  | '#' :: 'x' :: digits => digits ≠ [] && digits.all isHexDigit
  | '#' :: digits => digits ≠ [] && digits.all isDigit
  | body => body = "lt".toList || body = "gt".toList || body = "amp".toList || body = "quot".toList

/-- The ENTITY pattern at a `&`, over what follows it: what stands between `&` and `;`. -/
def entityAt (text : Text) : Option Text :=
  let body := text.takeWhile (· ≠ ';')
  if text.dropWhile (· ≠ ';') ≠ [] ∧ isEntityBody body then some body else none

def lowerCase (name : Text) : String := String.ofList (name.map Char.toLower)

inductive AttributeRule
  | required
  | «optional»
  deriving DecidableEq, Repr

/-- The attributes a tag may carry; `none` for a tag that is not Telegram's. -/
def tagRules (name : String) : Option (List (String × AttributeRule)) :=
  [("b", []), ("strong", []), ("i", []), ("em", []), ("u", []), ("ins", []), ("s", []),
    ("strike", []), ("del", []), ("span", [("class", .required)]), ("tg-spoiler", []),
    ("a", [("href", .required)]), ("tg-emoji", [("emoji-id", .required)]),
    ("tg-time", [("unix", .required), ("format", .optional)]), ("code", [("class", .optional)]),
    ("pre", []), ("blockquote", [("expandable", .optional)])].lookup name

def bareAttributes : List String := ["expandable"]

def exclusiveTags : List String := ["a", "tg-emoji", "tg-time", "pre", "code"]

/-- `seen`: the value the last attribute of that name carries. -/
def seenValue (attributes : List TagAttribute) (name : String) : Option (Option Text) :=
  ((attributes.reverse.find? (fun a => lowerCase a.1 = name)).map Prod.snd)

/-- One attribute against the rules of its tag. -/
def attributeProblems (name : String) (allowed : List (String × AttributeRule))
    (attr : TagAttribute) : List String :=
  let written := lowerCase attr.1
  if (allowed.lookup written).isNone then [s!"<{name}> does not take {written}"]
  else if attr.2.isNone ≠ decide (written ∈ bareAttributes) then
    [if attr.2.isNone then s!"{written} on <{name}> needs a value"
      else s!"{written} on <{name}> takes no value"]
  else []

/-- `/^language-./` -/
def isLanguageClass (value : Text) : Bool :=
  match value.drop 9 with
  | [] => false
  | c :: _ => value.take 9 = "language-".toList && !isLineEnd c

/-- The innermost open tag that nests in none of its kind; `open` lists the innermost first. -/
def holderOf («open» : List String) : Option String := «open».find? (· ∈ exclusiveTags)

/-- A class stands where it may. -/
def classProblems (name : String) (attributes : List TagAttribute) («open» : List String) :
    List String :=
  match seenValue attributes "class" with
  | none => []
  | some value =>
    (if name = "span" ∧ value ≠ some "tg-spoiler".toList then
      ["<span> is only a spoiler: class=\"tg-spoiler\""] else []) ++
    (if name = "code" then
      (if isLanguageClass (value.getD []) then [] else ["class on <code> must be language-…"]) ++
      (if «open».head? ≠ some "pre" then
        ["class on <code> is allowed only directly inside <pre>"] else [])
    else [])

def nestingProblems (name : String) («open» : List String) : List String :=
  (if name = "blockquote" ∧ "blockquote" ∈ «open» then ["blockquotes cannot be nested"] else []) ++
  match holderOf «open» with
  | none => []
  | some holder =>
    if holder = "pre" ∨ holder = "code" then
      if name = "code" ∧ holder = "pre" ∧ «open».head? = some "pre" then []
      else [s!"<{name}> inside <{holder}>: pre and code hold no tags"]
    else if name ∈ exclusiveTags then
      [s!"<{name}> inside <{holder}>: these tags do not nest in each other"]
    else []

def openingTagProblems (name : String) (attributes : List TagAttribute) («open» : List String) :
    List String :=
  match tagRules name with
  | none => [s!"<{name}> is not a Telegram tag"]
  | some allowed =>
    attributes.flatMap (attributeProblems name allowed) ++
    (allowed.filter (fun a => a.2 = .required ∧ (seenValue attributes a.1).isNone)).map
      (fun a => s!"<{name}> needs {a.1}") ++
    classProblems name attributes «open» ++ nestingProblems name «open»

/-- A closing tag: what is wrong with it, and the tags left open. -/
def closingTagProblems (name : String) (attributes : List TagAttribute) («open» : List String) :
    List String × List String :=
  let carries := if attributes ≠ [] then [s!"</{name}> carries attributes"] else []
  match «open» with
  | [] => (carries ++ [s!"</{name}> closes nothing"], [])
  | innermost :: outer =>
    if innermost = name then (carries, outer)
    else (carries ++ [s!"</{name}> closes <{innermost}>"], «open»)

/-- A tag among the open ones: what is wrong with it, and the tags open after it. -/
def tagProblems (tag : Tag) («open» : List String) : List String × List String :=
  let name := lowerCase tag.name
  if tag.closing then closingTagProblems name tag.attributes «open»
  else (openingTagProblems name tag.attributes «open», name :: «open»)

/-- The tokenizer: `skip` characters of a match are still to pass, `index` counts units, `open` lists
the innermost first. -/
def tokenProblems : ℕ → ℕ → List String → Text → List String
  | _, _, «open», [] => «open».map (fun name => s!"<{name}> is never closed")
  | skip + 1, index, «open», c :: text => tokenProblems skip (index + unitsOf c) «open» text
  | 0, index, «open», c :: text =>
    if c = '<' then
      match tagAt text with
      | none => s!"a bare \"<\" at {index}" :: tokenProblems 0 (index + unitsOf c) «open» text
      | some (tag, inside) =>
        (tagProblems tag «open»).1 ++
          tokenProblems (inside.length + 1) (index + unitsOf c) (tagProblems tag «open»).2 text
    else if c = '>' then
      s!"a bare \">\" at {index}" :: tokenProblems 0 (index + unitsOf c) «open» text
    else if c = '&' then
      match entityAt text with
      | none => s!"a bare \"&\" at {index}" :: tokenProblems 0 (index + unitsOf c) «open» text
      | some body => tokenProblems (body.length + 1) (index + unitsOf c) «open» text
    else tokenProblems 0 (index + unitsOf c) «open» text

/-- What would make Telegram refuse `value` as HTML; empty when it is valid. -/
def telegramHtmlProblems (value : Text) : List String := tokenProblems 0 0 [] value

/-- Where the tags are, as the offsets of their first unit and past their last one. -/
def tagRangesFrom : ℕ → ℕ → Text → List (ℕ × ℕ)
  | _, _, [] => []
  | skip + 1, index, c :: text => tagRangesFrom skip (index + unitsOf c) text
  | 0, index, c :: text =>
    if c = '<' then
      match tagAt text with
      | none => tagRangesFrom 0 (index + unitsOf c) text
      | some (_, inside) =>
        (index, index + textLength inside + 2) ::
          tagRangesFrom (inside.length + 1) (index + unitsOf c) text
    else tagRangesFrom 0 (index + unitsOf c) text

def telegramHtmlTagRanges (value : Text) : List (ℕ × ℕ) := tagRangesFrom 0 0 value

/-- The text without its tags. -/
def withoutTags : ℕ → Text → Text
  | _, [] => []
  | skip + 1, _ :: text => withoutTags skip text
  | 0, c :: text =>
    if c = '<' then
      match tagAt text with
      | none => c :: withoutTags 0 text
      | some (_, inside) => withoutTags (inside.length + 1) text
    else c :: withoutTags 0 text

def digitValue (c : Char) : ℕ :=
  if isDigit c then c.toNat - '0'.toNat
  else if 'a' ≤ c then c.toNat - 'a'.toNat + 10
  else c.toNat - 'A'.toNat + 10

def parseDigits (base : ℕ) (digits : Text) : ℕ := digits.foldl (fun n c => n * base + digitValue c) 0

section Decoding

variable (point : ℕ → Text)

/-- `point` is `String.fromCodePoint`; a code point above the last one leaves the entity as written. -/
def codePointOr (entity : Text) (codePoint : ℕ) : Text :=
  if codePoint ≤ 0x10ffff then point codePoint else entity

def decodeEntity (body : Text) : Text :=
  let entity := '&' :: body ++ [';']
  match body with
  | '#' :: 'x' :: digits => codePointOr point entity (parseDigits 16 digits)
  | '#' :: digits => codePointOr point entity (parseDigits 10 digits)
  | _ =>
    if body = "lt".toList then ['<'] else if body = "gt".toList then ['>']
    else if body = "amp".toList then ['&'] else if body = "quot".toList then ['"'] else entity

/-- Entities decoded in one pass. -/
def decodeEntities : ℕ → Text → Text
  | _, [] => []
  | skip + 1, _ :: text => decodeEntities skip text
  | 0, c :: text =>
    if c = '&' then
      match entityAt text with
      | none => c :: decodeEntities 0 text
      | some body => decodeEntity point body ++ decodeEntities (body.length + 1) text
    else c :: decodeEntities 0 text

/-- The text after entities parsing, which the limits count. -/
def plainTextOf (value : Text) : Text := decodeEntities point 0 (withoutTags 0 value)

end Decoding

/-- `String.fromCodePoint`.  A surrogate is no `Char`: the `Char` that stands for it is a unit of UTF-16 too,
and no space or line break. -/
def unitsOfCodePoint (codePoint : ℕ) : Text := [Char.ofNat codePoint]

end Binarius
