import Mathlib.Tactic
import Binarius.Shared.BotTextTemplate
import Binarius.Shared.MarkedHtml

/-!
# Shared.BotTextRendering — what the validator promises of a rendered text

* `markedText`: a template with its fragments' texts in place and its variables left open.
* `renderAt_fragment`: a fragment that is valid without variables renders to its own text.
* `renderAt_host`: **a text that the validator takes renders to its marked text, filled**.
* `rendering_sound`: it renders for every value just when no variable stands right after `language-` in
  a code tag's class.
-/

namespace Binarius

/-! ### Parsing a text without placeholders -/

theorem parseFrom_grows (parsed : ParsedBotText) (current : Text) (skip : ℕ) (text : Text) :
    parsed.names.length ≤ (parseFrom parsed current skip text).names.length ∧
      parsed.strayBraces ≤ (parseFrom parsed current skip text).strayBraces := by
  induction text generalizing parsed current skip with
  | nil =>
    cases skip <;> exact ⟨le_rfl, le_rfl⟩
  | cons c text ih =>
    cases skip with
    | succ skip => exact ih parsed current skip
    | zero =>
      unfold parseFrom
      split_ifs
      · split
        · rename_i name _
          have hrest := ih { parsed with statics := parsed.statics ++ [current],
                                         names := parsed.names ++ [String.ofList name] }
            [] (name.length + 1)
          rw [List.length_append] at hrest
          exact ⟨by omega, hrest.2⟩
        · have hrest := ih { parsed with strayBraces := parsed.strayBraces + 1 } (current ++ [c]) 0
          exact ⟨hrest.1, by have := hrest.2; simp only at this; omega⟩
      · have hrest := ih { parsed with strayBraces := parsed.strayBraces + 1 } (current ++ [c]) 0
        exact ⟨hrest.1, by have := hrest.2; simp only at this; omega⟩
      · exact ih parsed (current ++ [c]) 0

/-- **A text with no placeholder and no stray brace is its own static part.** -/
theorem parseFrom_plain {parsed : ParsedBotText} {current text : Text}
    (hnames : (parseFrom parsed current 0 text).names.length = parsed.names.length)
    (hstray : (parseFrom parsed current 0 text).strayBraces = parsed.strayBraces) :
    (parseFrom parsed current 0 text).statics = parsed.statics ++ [current ++ text] := by
  induction text generalizing current with
  | nil => simp [parseFrom]
  | cons c text ih =>
    unfold parseFrom at hnames hstray ⊢
    split_ifs at hnames hstray ⊢ with hopen hclose
    · split at hnames
      · rename_i name hname
        have hgrows := (parseFrom_grows { parsed with statics := parsed.statics ++ [current],
                                                      names := parsed.names ++ [String.ofList name] }
          [] (name.length + 1) text).1
        rw [hnames, List.length_append, List.length_singleton] at hgrows
        omega
      · rename_i hnone
        rw [hnone] at hstray
        have hgrows := (parseFrom_grows { parsed with strayBraces := parsed.strayBraces + 1 }
          (current ++ [c]) 0 text).2
        simp only at hgrows hstray
        omega
    · have hgrows := (parseFrom_grows { parsed with strayBraces := parsed.strayBraces + 1 }
        (current ++ [c]) 0 text).2
      simp only at hgrows hstray
      omega
    · rw [ih hnames hstray]
      simp

/-! ### What no problems mean -/

section Valid

variable {catalog : BotTextCatalog} {key : String} {source : Text} {lookup : BotTextSource}

/-- A text without problems parses against its key. -/
theorem valid_parses (h : botTextEntryProblems catalog key source lookup = []) :
    (parseBotTextTemplate source).strayBraces = 0 ∧
      (catalog key).unknownNames (parseBotTextTemplate source).names = [] := by
  have hgrammar : grammarProblems (catalog key) (parseBotTextTemplate source) = [] := by
    unfold botTextEntryProblems at h
    simp only at h
    split_ifs at h with htrim hgrammar hkind
    · exact h
    · exact not_not.mp hgrammar
    · exact not_not.mp hgrammar
  unfold grammarProblems at hgrammar
  rw [List.append_eq_nil_iff, List.map_eq_nil_iff] at hgrammar
  refine ⟨?_, hgrammar.2⟩
  by_contra hne
  rw [if_pos (Nat.pos_of_ne_zero hne)] at hgrammar
  exact List.cons_ne_nil _ _ hgrammar.1

/-- An html text without problems is accepted with stand-ins. -/
theorem valid_accepted (h : botTextEntryProblems catalog key source lookup = [])
    (hkind : (catalog key).kind = .html) :
    Accepted [] (assemble (parseBotTextTemplate source)
      (withVariables catalog key lookup (fun _ => standIn))) := by
  have hhtml : htmlProblems catalog key lookup (parseBotTextTemplate source) = [] := by
    unfold botTextEntryProblems at h
    simp only [hkind, if_true] at h
    split_ifs at h with htrim hgrammar
    · exact absurd h hgrammar
    · exact (List.append_eq_nil_iff.mp h).1
  unfold htmlProblems at hhtml
  rw [List.append_eq_nil_iff] at hhtml
  have hproblems := hhtml.2
  split at hproblems
  · cases hproblems
  · cases hproblems
  · assumption

theorem known_name (h : (catalog key).unknownNames (parseBotTextTemplate source).names = [])
    {name : String} (hname : name ∈ (parseBotTextTemplate source).names)
    (hnot : (catalog key).isVariable name = false) :
    ∃ fragmentKey, (catalog key).fragments.lookup name = some fragmentKey := by
  unfold BotTextEntry.unknownNames at h
  rw [List.filter_eq_nil_iff] at h
  have hof := h name (List.mem_eraseDups.mpr hname)
  cases hlookup : (catalog key).fragments.lookup name with
  | some fragmentKey => exact ⟨fragmentKey, rfl⟩
  | none => simp [hnot, hlookup] at hof

end Valid

/-! ### Fragments -/

/-- A fragment's text that is valid without variables. -/
structure ValidFragment (catalog : BotTextCatalog) (source : BotTextSource) (fragmentKey : String) :
    Prop where
  vars : (catalog fragmentKey).vars = []
  fragments : (catalog fragmentKey).fragments = []
  problems : botTextEntryProblems catalog fragmentKey (source fragmentKey) source = []

section Rendering

variable {catalog : BotTextCatalog} {source : BotTextSource}

/-- **A valid fragment renders to its own text.** -/
theorem renderAt_fragment {fragmentKey : String} (h : ValidFragment catalog source fragmentKey)
    (depth : ℕ) (holeOf : String → Text) :
    renderAt catalog source depth fragmentKey holeOf = .ok (source fragmentKey) := by
  obtain ⟨hstray, hunknown⟩ := valid_parses h.problems
  have hnames : (parseBotTextTemplate (source fragmentKey)).names = [] := by
    cases hparsed : (parseBotTextTemplate (source fragmentKey)).names with
    | nil => rfl
    | cons name names =>
      have hmem : name ∈ (parseBotTextTemplate (source fragmentKey)).names := by
        rw [hparsed]
        exact List.mem_cons_self
      have hnot : (catalog fragmentKey).isVariable name = false := by
        unfold BotTextEntry.isVariable
        rw [h.vars]
        rfl
      obtain ⟨fragment, hlookup⟩ := known_name hunknown hmem hnot
      rw [h.fragments] at hlookup
      cases hlookup
  have hstatics : (parseBotTextTemplate (source fragmentKey)).statics = [source fragmentKey] := by
    have hlength : (parseFrom ⟨[], [], 0⟩ [] 0 (source fragmentKey)).names.length = 0 :=
      List.length_eq_zero_iff.mpr hnames
    exact parseFrom_plain hlength hstray
  have hassemble : ∀ holes, assemble (parseBotTextTemplate (source fragmentKey)) holes =
      source fragmentKey := by
    intro holes
    unfold assemble
    rw [hstatics, hnames]
    simp [assembleFrom]
  -- with no fragment to build the recursion ends here, whatever `builtOf` is
  have hrender : ∀ builtOf, renderUsing catalog source builtOf fragmentKey holeOf =
      .ok (source fragmentKey) := by
    intro builtOf
    unfold renderUsing
    simp only [hstray, hnames, lt_irrefl, ne_eq, List.filter_nil, List.mapM_nil, hassemble]
    by_cases hkind : (catalog fragmentKey).kind = .html
    · have haccepted := valid_accepted h.problems hkind
      rw [hassemble] at haccepted
      have hok : telegramHtmlProblems (source fragmentKey) = [] := haccepted
      simp only [hkind, if_true]
      unfold telegramHtmlTemplate
      rw [if_pos hok]
      rfl
    · simp only [hkind, if_false]
      rfl
  cases depth with
  | zero => exact hrender _
  | succ depth => exact hrender _

/-! ### A text with its variables left open -/

def markedHole (catalog : BotTextCatalog) (key : String) (lookup : BotTextSource) (name : String) :
    MarkedText :=
  if (catalog key).isVariable name then [.inr name]
  else (fragmentText catalog key lookup name).map .inl

def markedFrom (holeOf : String → MarkedText) : List Text → List String → MarkedText
  | static :: statics, name :: names =>
    holeOf name ++ static.map .inl ++ markedFrom holeOf statics names
  | [], name :: names => holeOf name ++ markedFrom holeOf [] names
  | _, [] => []

/-- The template of a key, its fragments in place and its variables open. -/
def markedText (catalog : BotTextCatalog) (source : BotTextSource) (key : String) : MarkedText :=
  let parsed := parseBotTextTemplate (source key)
  (parsed.statics.headD []).map .inl ++
    markedFrom (markedHole catalog key source) parsed.statics.tail parsed.names

theorem fill_markedFrom (f : String → Text) (holeOf : String → MarkedText) (statics : List Text)
    (names : List String) :
    fill f (markedFrom holeOf statics names) =
      assembleFrom (fun name => fill f (holeOf name)) statics names := by
  induction names generalizing statics with
  | nil => cases statics <;> rfl
  | cons name names ih =>
    cases statics with
    | nil =>
      unfold markedFrom assembleFrom
      rw [fill_append, ih]
    | cons static statics =>
      unfold markedFrom assembleFrom
      rw [fill_append, fill_append, fill_chars, ih]

theorem fill_markedText (f : String → Text) (key : String) :
    fill f (markedText catalog source key) =
      assemble (parseBotTextTemplate (source key)) (withVariables catalog key source f) := by
  have hhole : (fun name => fill f (markedHole catalog key source name)) =
      withVariables catalog key source f := by
    funext name
    unfold markedHole withVariables
    split_ifs
    · simp
    · exact fill_chars f _
  unfold markedText assemble
  simp only
  rw [fill_append, fill_chars, fill_markedFrom, hhole]

/-- Only the template's own names are filled. -/
theorem assembleFrom_congr {f g : String → Text} {names : List String}
    (h : ∀ name ∈ names, f name = g name) (statics : List Text) :
    assembleFrom f statics names = assembleFrom g statics names := by
  induction names generalizing statics with
  | nil => cases statics <;> rfl
  | cons name names ih =>
    have hrest := ih (fun name' hname' => h name' (List.mem_cons_of_mem _ hname'))
    cases statics with
    | nil =>
      unfold assembleFrom
      rw [h name List.mem_cons_self, hrest]
    | cons static statics =>
      unfold assembleFrom
      rw [h name List.mem_cons_self, hrest]

theorem mapM_ok {α β : Type} {f : α → Except BotTextError β} {g : α → β} {l : List α}
    (h : ∀ a ∈ l, f a = .ok (g a)) : l.mapM f = .ok (l.map g) := by
  induction l with
  | nil => rfl
  | cons a l ih =>
    rw [List.mapM_cons, h a List.mem_cons_self, ih (fun b hb => h b (List.mem_cons_of_mem _ hb))]
    rfl

theorem lookup_map_self {g : String → Text} {names : List String} {name : String}
    (h : name ∈ names) : (names.map (fun n => (n, g n))).lookup name = some (g name) := by
  induction names with
  | nil => cases h
  | cons first names ih =>
    rw [List.map_cons, List.lookup_cons]
    by_cases hname : name = first
    · subst hname
      simp
    · have hmem : name ∈ names := by
        rcases List.mem_cons.mp h with h | h
        · exact absurd h hname
        · exact h
      have hne : (name == first) = false := by simpa using hname
      rw [hne]
      exact ih hmem

/-- **A text that the validator takes renders to its marked text, filled**: escaped in an html text,
which is then refused if Telegram would refuse it. -/
theorem renderAt_host {key : String}
    (hproblems : botTextEntryProblems catalog key (source key) source = [])
    (hfragments : ∀ name ∈ (parseBotTextTemplate (source key)).names, ∀ fragmentKey,
      (catalog key).fragments.lookup name = some fragmentKey →
        ValidFragment catalog source fragmentKey)
    (depth : ℕ) (holeOf : String → Text) :
    renderAt catalog source (depth + 1) key holeOf =
      if (catalog key).kind = .html then
        telegramHtmlTemplate
          (fill (fun x => escapeTelegramHtml (holeOf x)) (markedText catalog source key))
      else .ok (fill holeOf (markedText catalog source key)) := by
  obtain ⟨hstray, hunknown⟩ := valid_parses hproblems
  -- the fragments built first are the texts the validator put in their places
  have hbuilt : ((parseBotTextTemplate (source key)).names.filter
      (fun name => !(catalog key).isVariable name)).mapM
      (buildFragment catalog
        (fun fragmentKey => renderAt catalog source depth fragmentKey (fun _ => [])) key) =
      .ok (((parseBotTextTemplate (source key)).names.filter
        (fun name => !(catalog key).isVariable name)).map
          (fun name => (name, fragmentText catalog key source name))) := by
    refine mapM_ok (fun name hname => ?_)
    obtain ⟨hmem, hnot⟩ := List.mem_filter.mp hname
    have hnot' : (catalog key).isVariable name = false := by simpa using hnot
    obtain ⟨fragmentKey, hlookup⟩ := known_name hunknown hmem hnot'
    have hvalue := renderAt_fragment (hfragments name hmem fragmentKey hlookup) depth (fun _ => [])
    unfold buildFragment fragmentText fragmentHole
    simp only [hlookup, hvalue]
    rfl
  have hholes : ∀ name ∈ (parseBotTextTemplate (source key)).names,
      holeText catalog key (((parseBotTextTemplate (source key)).names.filter
        (fun name => !(catalog key).isVariable name)).map
          (fun name => (name, fragmentText catalog key source name))) holeOf name =
      withVariables catalog key source
        (fun x => if (catalog key).kind = .html then escapeTelegramHtml (holeOf x) else holeOf x) name := by
    intro name hname
    unfold holeText withVariables
    by_cases hvariable : (catalog key).isVariable name = true
    · rw [if_pos hvariable, if_pos hvariable]
    · rw [if_neg hvariable, if_neg hvariable]
      have hmem : name ∈ (parseBotTextTemplate (source key)).names.filter
          (fun name => !(catalog key).isVariable name) := by
        rw [List.mem_filter]
        exact ⟨hname, by simpa using hvariable⟩
      rw [lookup_map_self hmem]
      rfl
  have hassemble : assemble (parseBotTextTemplate (source key))
      (holeText catalog key (((parseBotTextTemplate (source key)).names.filter
        (fun name => !(catalog key).isVariable name)).map
          (fun name => (name, fragmentText catalog key source name))) holeOf) =
      fill (fun x => if (catalog key).kind = .html then escapeTelegramHtml (holeOf x) else holeOf x)
        (markedText catalog source key) := by
    rw [fill_markedText]
    unfold assemble
    rw [assembleFrom_congr hholes]
  show renderUsing catalog source (fun fragmentKey => renderAt catalog source depth fragmentKey
    (fun _ => [])) key holeOf = _
  unfold renderUsing
  simp only [hstray, hunknown, lt_irrefl, ne_eq, not_true_eq_false, or_self, if_false]
  rw [hbuilt]
  show (if (catalog key).kind = .html then telegramHtmlTemplate (assemble _ _) else
    pure (assemble _ _)) = _
  rw [hassemble]
  by_cases hkind : (catalog key).kind = .html
  · simp only [hkind, if_true]
  · simp only [hkind, if_false]
    rfl

/-- **When a validated text renders for every value.**  It does just when, in an html text with its
fragments in place, no variable stands right after `language-` at the start of the class of a code tag;
what it renders to is accepted by the renderer's own check. -/
theorem rendering_sound {key : String}
    (hproblems : botTextEntryProblems catalog key (source key) source = [])
    (hfragments : ∀ name ∈ (parseBotTextTemplate (source key)).names, ∀ fragmentKey,
      (catalog key).fragments.lookup name = some fragmentKey →
        ValidFragment catalog source fragmentKey)
    (depth : ℕ) :
    (∀ holeOf, ∃ text, renderAt catalog source (depth + 1) key holeOf = .ok text ∧
      ((catalog key).kind = .html → telegramHtmlProblems text = [])) ↔
    ((catalog key).kind = .html →
      ∀ tag ∈ markedTags 0 (markedText catalog source key), ¬ HoleAfterLanguage tag) := by
  have hrender := renderAt_host hproblems hfragments depth
  by_cases hkind : (catalog key).kind = .html
  · have haccepted : Accepted [] ((markedText catalog source key).map symChar) := by
      have h := valid_accepted hproblems hkind
      have hfill := @fill_markedText catalog source (fun _ => ['·']) key
      rw [fill_standIn] at hfill
      rw [hfill]
      exact h
    have hiff := accepted_all_iff haccepted
    simp only [hkind, if_true] at hrender
    simp only [hkind, forall_const]
    rw [← hiff]
    constructor
    · intro hall values
      obtain ⟨text, htext, -⟩ := hall values
      rw [hrender values] at htext
      unfold telegramHtmlTemplate at htext
      split_ifs at htext with hok
      exact hok
    · intro hall values
      have hok := hall values
      unfold Accepted at hok
      refine ⟨fill (fun x => escapeTelegramHtml (values x)) (markedText catalog source key), ?_, hok⟩
      rw [hrender values]
      unfold telegramHtmlTemplate
      exact if_pos hok
  · constructor
    · intro _ hhtml
      exact absurd hhtml hkind
    · intro _ holeOf
      refine ⟨fill holeOf (markedText catalog source key), ?_, fun hhtml => absurd hhtml hkind⟩
      rw [hrender holeOf, if_neg hkind]

end Rendering

/-- The account card's body, with the fragment of the feature lines. -/
def cardCatalog : BotTextCatalog := fun key =>
  if key = "cardBody" then
    ⟨.html, [("firstName", "Anna".toList), ("email", "anna@example.com".toList)],
      [("features", "featureLines")], 1024, false⟩
  else ⟨.html, [], [], 1024, false⟩

/-- The fragment brings the attribute up to its value, the body the variable and the closing quote. -/
def brokenCard : BotTextSource := fun key =>
  if key = "cardBody" then "<pre><code {features}{email}\">код</code></pre>".toList
  else "class=\"language-".toList

/-- **The validator takes both texts, and an empty address throws.** -/
theorem rendering_sound_emptyEmail :
    botTextEntryProblems cardCatalog "featureLines" (brokenCard "featureLines") brokenCard = [] ∧
    botTextEntryProblems cardCatalog "cardBody" (brokenCard "cardBody") brokenCard = [] ∧
    renderAt cardCatalog brokenCard 1 "cardBody" (fun _ => []) = .error .invalidTelegramTemplate := by
  decide +kernel

def plainCard : BotTextSource := fun key =>
  if key = "cardBody" then "<b>{email}</b> {features}".toList else "Demo".toList

theorem rendering_sound_plainCard : ∃ text,
    renderAt cardCatalog plainCard 1 "cardBody" (fun _ => "<a&b>".toList) = .ok text ∧
      ((cardCatalog "cardBody").kind = .html → telegramHtmlProblems text = []) := by
  have hfragment : ∀ fragmentKey, (cardCatalog "cardBody").fragments.lookup "features" =
      some fragmentKey → ValidFragment cardCatalog plainCard fragmentKey := by
    intro fragmentKey hlookup
    have hkey : some "featureLines" = some fragmentKey := hlookup
    injection hkey with hkey
    subst hkey
    exact ⟨rfl, rfl, by decide +kernel⟩
  have hnames : (parseBotTextTemplate (plainCard "cardBody")).names = ["email", "features"] := by
    decide +kernel
  refine (@rendering_sound cardCatalog plainCard "cardBody" (by decide +kernel) ?_ 0).mpr ?_ _
  · intro name hname fragmentKey hlookup
    rw [hnames] at hname
    rcases List.mem_cons.mp hname with rfl | hname
    · cases hlookup
    · rw [List.mem_singleton.mp hname] at hlookup
      exact hfragment fragmentKey hlookup
  · rintro - tag htag ⟨-, hcode, -⟩
    have htags : (markedTags 0 (markedText cardCatalog plainCard "cardBody")).map
        (fun tag => lowerCase tag.name) = ["b", "b"] := by decide +kernel
    have hmem := List.mem_map_of_mem (f := fun tag : MarkedTag => lowerCase tag.name) htag
    rw [htags, hcode] at hmem
    revert hmem
    decide +kernel

end Binarius
