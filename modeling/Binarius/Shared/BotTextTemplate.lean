import Mathlib.Tactic
import Binarius.Shared.TelegramHtml

/-!
# Shared.BotTextTemplate — the bot texts' templates (packages/shared/src/bot-text-template.ts)

* `BotTextEntry`, `BotTextCatalog`: an entry's kind, variables, fragments and limits.
* `parseBotTextTemplate`: the text around and between the placeholders.
* `botTextEntryProblems`: **the validator**.
* `BotTextCatalog.build`, `BotTextCatalog.render`: the views of `createBotTextViews`, with the two
  errors they throw.

A view's cache is left out: it gives back what it would build again.
-/

namespace Binarius

inductive BotTextKind
  | html
  | plain
  deriving DecidableEq, Repr

/-- A catalog entry.  A variable is its name and the sample the validator and the preview put there. -/
structure BotTextEntry where
  kind : BotTextKind
  vars : List (String × Text)
  /-- placeholder → the key whose text goes there -/
  fragments : List (String × String)
  limit : ℕ
  singleLine : Bool

/-- The entries under their keys. -/
abbrev BotTextCatalog := String → BotTextEntry

/-- Where a key's current text comes from. -/
abbrev BotTextSource := String → Text

structure ParsedBotText where
  statics : List Text
  names : List String
  strayBraces : ℕ
  deriving DecidableEq, Repr

/-- `\{([a-z][a-zA-Z0-9]*)\}` after its `{`: the name. -/
def placeholderAt (text : Text) : Option Text :=
  let name := text.takeWhile (fun c => isLetter c || isDigit c)
  match name, text.dropWhile (fun c => isLetter c || isDigit c) with
  | c :: _, '}' :: _ => if 'a' ≤ c ∧ c ≤ 'z' then some name else none
  | _, _ => none

/-- `statics`, `names` and `current` as the loop holds them; `skip` characters of a match are to pass. -/
def parseFrom (parsed : ParsedBotText) (current : Text) : ℕ → Text → ParsedBotText
  | _, [] => { parsed with statics := parsed.statics ++ [current] }
  | skip + 1, _ :: text => parseFrom parsed current skip text
  | 0, c :: text =>
    if c = '{' then
      match placeholderAt text with
      | some name =>
        parseFrom { parsed with statics := parsed.statics ++ [current],
                                names := parsed.names ++ [String.ofList name] }
          [] (name.length + 1) text
      | none => parseFrom { parsed with strayBraces := parsed.strayBraces + 1 } (current ++ [c]) 0 text
    else if c = '}' then
      parseFrom { parsed with strayBraces := parsed.strayBraces + 1 } (current ++ [c]) 0 text
    else parseFrom parsed (current ++ [c]) 0 text

def parseBotTextTemplate (source : Text) : ParsedBotText := parseFrom ⟨[], [], 0⟩ [] 0 source

inductive BotTextProblem
  | empty
  | strayBrace
  | unknownPlaceholder (name : String)
  | placeholderInTag (name : String)
  | invalidHtml (detail : String)
  | tooLong (length : ℕ)
  | paddedLine
  | multiline
  deriving DecidableEq, Repr

/-- Stands in for a string value when an html text is checked. -/
def standIn : Text := ['·']

/-- For finding a placeholder inside a tag. -/
def tagStandIn : Text := ['x']

namespace BotTextEntry

def isVariable (entry : BotTextEntry) (name : String) : Bool := (entry.vars.lookup name).isSome

def unknownNames (entry : BotTextEntry) (names : List String) : List String :=
  names.eraseDups.filter (fun name => !entry.isVariable name && (entry.fragments.lookup name).isNone)

end BotTextEntry

/-- What keeps a text from being rendered. -/
def grammarProblems (entry : BotTextEntry) (parsed : ParsedBotText) : List BotTextProblem :=
  (if 0 < parsed.strayBraces then [.strayBrace] else []) ++
  (entry.unknownNames parsed.names).map .unknownPlaceholder

/-- The text with its placeholders filled, after the first static part. -/
def assembleFrom (holeOf : String → Text) : List Text → List String → Text
  | static :: statics, name :: names => holeOf name ++ static ++ assembleFrom holeOf statics names
  | [], name :: names => holeOf name ++ assembleFrom holeOf [] names
  | _, [] => []

/-- The assembled text. -/
def assemble (parsed : ParsedBotText) (holeOf : String → Text) : Text :=
  (parsed.statics.headD []) ++ assembleFrom holeOf parsed.statics.tail parsed.names

/-- The offsets of the placeholders in the assembled text. -/
def offsetsFrom (holeOf : String → Text) (offset : ℕ) : List Text → List String → List ℕ
  | static :: statics, name :: names =>
    offset :: offsetsFrom holeOf (offset + textLength (holeOf name ++ static)) statics names
  | [], name :: names => offset :: offsetsFrom holeOf (offset + textLength (holeOf name)) [] names
  | _, [] => []

def assembleOffsets (parsed : ParsedBotText) (holeOf : String → Text) : List ℕ :=
  offsetsFrom holeOf (textLength (parsed.statics.headD [])) parsed.statics.tail parsed.names

/-- `[\n\r\p{Zl}\p{Zp}]` -/
def hasLineBreak (text : Text) : Bool := text.any isLineEnd

/-- `split('\n')` -/
def splitLines (text : Text) : List Text := text.splitOn '\n'

section Validator

variable (catalog : BotTextCatalog) (key : String) (source : Text) (lookup : BotTextSource)

/-- A fragment's current text, escaped where a plain one goes into an html text. -/
def fragmentText (name : String) : Text :=
  let entry := catalog key
  match entry.fragments.lookup name with
  | none => []
  | some fragmentKey =>
    if entry.kind = .html ∧ (catalog fragmentKey).kind ≠ .html then
      escapeTelegramHtml (lookup fragmentKey)
    else lookup fragmentKey

/-- Every variable at `valueOf`, every fragment at its current text. -/
def withVariables (valueOf : String → Text) (name : String) : Text :=
  if (catalog key).isVariable name then valueOf name else fragmentText catalog key lookup name

def sampleOf (name : String) : Text :=
  let sample := ((catalog key).vars.lookup name).getD []
  if (catalog key).kind = .html then escapeTelegramHtml sample else sample

/-- The names of the placeholders inside a tag. -/
def namesInTag (parsed : ParsedBotText) : List String :=
  let tags := telegramHtmlTagRanges (assemble parsed (fun _ => tagStandIn))
  let offsets := assembleOffsets parsed (fun _ => tagStandIn)
  (((parsed.names.zip offsets).filter
    (fun p => tags.any (fun range => range.1 ≤ p.2 ∧ p.2 < range.2))).map Prod.fst).eraseDups

/-- What is wrong with the html of a text that parses. -/
def htmlProblems (parsed : ParsedBotText) : List BotTextProblem :=
  (namesInTag parsed).map .placeholderInTag ++
  match telegramHtmlProblems (assemble parsed (withVariables catalog key lookup (fun _ => standIn))),
    telegramHtmlProblems (assemble parsed (withVariables catalog key lookup (sampleOf catalog key))) with
  | detail :: _, _ => [.invalidHtml detail]
  | [], detail :: _ => [.invalidHtml detail]
  | [], [] => []

/-- What is wrong with the text as shown. -/
def shownProblems (shown : Text) : List BotTextProblem :=
  let entry := catalog key
  (if trim shown = [] then [.empty] else []) ++
  (if entry.limit < textLength shown then [.tooLong (textLength shown)] else []) ++
  (if (splitLines shown).any (fun line => line ≠ trim line) then [.paddedLine] else []) ++
  (if entry.singleLine && hasLineBreak shown then [.multiline] else [])

/-- What is wrong with `source` as the text of `key`; empty when nothing is.  A stray brace or an
unknown placeholder stops the check there. -/
def botTextEntryProblems : List BotTextProblem :=
  let entry := catalog key
  if trim source = [] then [.empty]
  else
    let parsed := parseBotTextTemplate source
    if grammarProblems entry parsed ≠ [] then grammarProblems entry parsed
    else
      let withSample := assemble parsed (withVariables catalog key lookup (sampleOf catalog key))
      if entry.kind = .html then
        htmlProblems catalog key lookup parsed ++
          shownProblems catalog key (plainTextOf unitsOfCodePoint withSample)
      else shownProblems catalog key withSample

end Validator

/-- What a view throws. -/
inductive BotTextError
  | invalidBotText
  | invalidTelegramTemplate
  deriving DecidableEq, Repr

/-- `telegramHtmlTemplate` over the assembled text: refused whole when Telegram would refuse it. -/
def telegramHtmlTemplate (text : Text) : Except BotTextError Text :=
  if telegramHtmlProblems text = [] then .ok text else .error .invalidTelegramTemplate

section Views

variable (catalog : BotTextCatalog) (source : BotTextSource)

/-- A fragment's hole in a rendered text: nested when it is html in an html text, else as a string. -/
def fragmentHole (key fragmentKey : String) (value : Text) : Text :=
  if (catalog key).kind = .html ∧ (catalog fragmentKey).kind ≠ .html then escapeTelegramHtml value
  else value

/-- What a placeholder of `key` is filled with: a variable's string, or the fragment built before. -/
def holeText (key : String) (fragments : List (String × Text)) (holeOf : String → Text)
    (name : String) : Text :=
  if (catalog key).isVariable name then
    if (catalog key).kind = .html then escapeTelegramHtml (holeOf name) else holeOf name
  else (fragments.lookup name).getD []

/-- The fragment of a placeholder, built. -/
def buildFragment (builtOf : String → Except BotTextError Text) (key name : String) :
    Except BotTextError (String × Text) :=
  match (catalog key).fragments.lookup name with
  | some fragmentKey => do
    let value ← builtOf fragmentKey
    pure (name, fragmentHole catalog key fragmentKey value)
  | none => .error .invalidBotText

/-- `build` and `renderWith` of a key, its fragments read through `builtOf`. -/
def renderUsing (builtOf : String → Except BotTextError Text) (key : String) (holeOf : String → Text) :
    Except BotTextError Text :=
  let entry := catalog key
  let parsed := parseBotTextTemplate (source key)
  if 0 < parsed.strayBraces ∨ entry.unknownNames parsed.names ≠ [] then .error .invalidBotText
  else do
    let fragments ← (parsed.names.filter (fun name => !entry.isVariable name)).mapM
      (buildFragment catalog builtOf key)
    let text := assemble parsed (holeText catalog key fragments holeOf)
    if entry.kind = .html then telegramHtmlTemplate text else pure text

/-- A key rendered; `depth` bounds how deep fragments nest, and none is read below it. -/
def renderAt : ℕ → String → (String → Text) → Except BotTextError Text
  | 0 => renderUsing catalog source (fun _ => .error .invalidBotText)
  | depth + 1 =>
    renderUsing catalog source (fun fragmentKey => renderAt depth fragmentKey (fun _ => []))

end Views

end Binarius
