import Mathlib.Tactic
import Binarius.Lib.OrderedMap
import Binarius.Lib.Reads
import Binarius.Shared.BotTextTemplate

/-!
# Shared.BotTextOverrides — which overrides take effect (packages/shared/src/bot-text-overrides.ts)

* `firstFailure`: the first thing wrong with the accepted candidates, as the candidates it takes out.
* `settle`: the loop, whose every round takes a candidate out (`rejectAll_texts_lt`).
* `resolveBotTextOverridesOf`, `botTextChangeProblems`.

A message's estimate is the reads it makes of the texts, by what it has read so far.
-/

namespace Binarius

open Lib

inductive BotLanguage
  | ru
  | en
  deriving DecidableEq, Repr

/-- A message the bot assembles, with the upper bound of its length. -/
structure BotTextMessage where
  id : String
  limit : ℕ
  estimate : Reads String Text ℕ

/-- `estimateBotTextMessage` -/
def BotTextMessage.length (message : BotTextMessage) (lookup : BotTextSource) : ℕ :=
  message.estimate.run lookup

/-- The catalog with its keys in order, the languages' default texts and the assembled messages. -/
structure BotTexts where
  keys : List String
  nodup : keys.Nodup
  catalog : BotTextCatalog
  defaults : BotLanguage → BotTextSource
  messages : List BotTextMessage

structure BotTextOverrideRow where
  language : BotLanguage
  key : String
  source : Text
  version : Option ℕ
  deriving DecidableEq, Repr

inductive Rejection
  | unknownKey
  | invalid (problems : List BotTextProblem)
  | breaksHost (host : String) (problems : List BotTextProblem)
  | messageOverflow (message : String) (length : ℕ)
  deriving DecidableEq, Repr

/-- A rejection with the version of the row it is about. -/
structure BotTextRejection where
  rejection : Rejection
  version : Option ℕ
  deriving DecidableEq, Repr

/-- The loop's state: the candidates still accepted, and the rejected keys. -/
structure ResolvedBotTexts where
  texts : OrderedMap String Text
  rejected : OrderedMap String BotTextRejection

@[ext] theorem ResolvedBotTexts.ext {r r' : ResolvedBotTexts} (ht : r.texts = r'.texts)
    (hr : r.rejected = r'.rejected) : r = r' := by
  cases r
  cases r'
  simp_all

def sourceWith (defaults : BotTextSource) (texts : OrderedMap String Text) : BotTextSource :=
  fun key => (texts.get? key).getD (defaults key)

namespace BotTexts

variable (all : BotTexts)

def problems (key : String) (source : Text) (lookup : BotTextSource) : List BotTextProblem :=
  botTextEntryProblems all.catalog key source lookup

def fragmentsOf (host : String) : List String := (all.catalog host).fragments.map Prod.snd

def hosts : List String := all.keys.filter (fun key => (all.catalog key).fragments ≠ [])

/-- Every key the estimate of a message reads, over the catalog's own texts. -/
def messageKeys (message : BotTextMessage) : List String :=
  (message.estimate.asked (all.defaults .ru)).eraseDups

section Failure

variable (defaults : BotTextSource) (texts : OrderedMap String Text)

def invalidOf (entry : String × Text) : Option (List (String × Rejection)) :=
  let problems := all.problems entry.1 entry.2 (sourceWith defaults texts)
  if problems ≠ [] then some [(entry.1, .invalid problems)] else none

/-- A fragment is checked against every host still on its default. -/
def breaksHostOf (host : String) : Option (List (String × Rejection)) :=
  let problems := all.problems host (defaults host) (sourceWith defaults texts)
  let culprits := (all.fragmentsOf host).filter (texts.has ·)
  if texts.has host then none
  else if problems ≠ [] ∧ culprits ≠ [] then
    some (culprits.map (fun key => (key, .breaksHost host problems)))
  else none

def overflowOf (message : BotTextMessage) : Option (List (String × Rejection)) :=
  let length := message.length (sourceWith defaults texts)
  let culprits := (all.messageKeys message).filter (texts.has ·)
  if message.limit < length ∧ culprits ≠ [] then
    some (culprits.map (fun key => (key, .messageOverflow message.id length)))
  else none

/-- The first thing wrong with the accepted candidates, as the candidates it takes out. -/
def firstFailure : Option (List (String × Rejection)) :=
  match texts.entries.findSome? (all.invalidOf defaults texts) with
  | some failure => some failure
  | none =>
    match all.hosts.findSome? (all.breaksHostOf defaults texts) with
    | some failure => some failure
    | none => all.messages.findSome? (all.overflowOf defaults texts)

end Failure

end BotTexts

/-- `new Map(rows.map((row) => [row.key, row]))` over the rows of one language. -/
def rowsByKey (language : BotLanguage) (rows : List BotTextOverrideRow) :
    OrderedMap String BotTextOverrideRow :=
  (rows.filter (·.language = language)).foldl (fun byKey row => byKey.set row.key row) OrderedMap.empty

section Loop

variable (versionOf : String → Option ℕ)

def reject (rejected : OrderedMap String BotTextRejection) (key : String) (rejection : Rejection) :
    OrderedMap String BotTextRejection :=
  rejected.set key ⟨rejection, versionOf key⟩

/-- A failing step takes its candidates out. -/
def rejectAll (r : ResolvedBotTexts) (failure : List (String × Rejection)) : ResolvedBotTexts :=
  failure.foldl (fun r f => ⟨r.texts.erase f.1, reject versionOf r.rejected f.1 f.2⟩) r

end Loop

/-! ### Every round takes a candidate out -/

theorem rejectAll_get? (versionOf : String → Option ℕ) (r : ResolvedBotTexts)
    (failure : List (String × Rejection)) (key : String) :
    (rejectAll versionOf r failure).texts.get? key =
      if key ∈ failure.map Prod.fst then none else r.texts.get? key := by
  induction failure generalizing r with
  | nil => simp [rejectAll]
  | cons f failure ih =>
    have hstep : rejectAll versionOf r (f :: failure) =
        rejectAll versionOf ⟨r.texts.erase f.1, reject versionOf r.rejected f.1 f.2⟩ failure := rfl
    rw [hstep, ih, OrderedMap.get?_erase, List.map_cons]
    by_cases hmem : key ∈ failure.map Prod.fst
    · rw [if_pos hmem, if_pos (List.mem_cons_of_mem _ hmem)]
    · rw [if_neg hmem]
      by_cases hkey : f.1 = key
      · rw [if_pos hkey, if_pos (hkey ▸ List.mem_cons_self)]
      · have hnot : key ∉ f.1 :: failure.map Prod.fst := by
          intro h
          rcases List.mem_cons.mp h with h | h
          · exact hkey h.symm
          · exact hmem h
        rw [if_neg hkey, if_neg hnot]

theorem rejectAll_texts_sublist (versionOf : String → Option ℕ) (r : ResolvedBotTexts)
    (failure : List (String × Rejection)) :
    (rejectAll versionOf r failure).texts.entries.Sublist r.texts.entries := by
  induction failure generalizing r with
  | nil => exact List.Sublist.refl _
  | cons f failure ih =>
    have hrest := ih ⟨r.texts.erase f.1, reject versionOf r.rejected f.1 f.2⟩
    exact hrest.trans List.filter_sublist

/-- Every failure names a candidate, and only candidates. -/
theorem BotTexts.firstFailure_names {all : BotTexts} {defaults : BotTextSource}
    {texts : OrderedMap String Text} {failure : List (String × Rejection)}
    (h : all.firstFailure defaults texts = some failure) :
    failure ≠ [] ∧ ∀ f ∈ failure, texts.has f.1 = true := by
  -- the culprits of a host or a message are the candidates among its keys
  have hculprits : ∀ (keys : List String) (g : String → Rejection),
      (keys.filter (texts.has ·)) ≠ [] →
      (keys.filter (texts.has ·)).map (fun key => (key, g key)) ≠ [] ∧
        ∀ f ∈ (keys.filter (texts.has ·)).map (fun key => (key, g key)), texts.has f.1 = true := by
    intro keys g hne
    constructor
    · intro hnil
      exact hne (List.map_eq_nil_iff.mp hnil)
    · intro f hf
      obtain ⟨key, hkey, rfl⟩ := List.mem_map.mp hf
      exact (List.mem_filter.mp hkey).2
  unfold firstFailure at h
  cases hinvalid : texts.entries.findSome? (all.invalidOf defaults texts) with
  | some found =>
    simp only [hinvalid, Option.some.injEq] at h
    subst h
    obtain ⟨entry, hentry, hof⟩ := List.exists_of_findSome?_eq_some hinvalid
    unfold invalidOf at hof
    simp only at hof
    split at hof
    · injection hof with hof
      subst hof
      refine ⟨List.cons_ne_nil _ _, ?_⟩
      intro f hf
      have hf' : f.1 = entry.1 := by rw [List.mem_singleton.mp hf]
      have hget : texts.get? entry.1 = some entry.2 := OrderedMap.get?_eq_some.mpr hentry
      rw [hf']
      unfold OrderedMap.has
      rw [hget]
      rfl
    · cases hof
  | none =>
    simp only [hinvalid] at h
    cases hhost : all.hosts.findSome? (all.breaksHostOf defaults texts) with
    | some found =>
      simp only [hhost, Option.some.injEq] at h
      subst h
      obtain ⟨host, _, hof⟩ := List.exists_of_findSome?_eq_some hhost
      unfold breaksHostOf at hof
      simp only at hof
      split at hof
      · cases hof
      · split at hof
        · rename_i hne
          injection hof with hof
          subst hof
          exact hculprits _ _ hne.2
        · cases hof
    | none =>
      simp only [hhost] at h
      obtain ⟨message, _, hof⟩ := List.exists_of_findSome?_eq_some h
      unfold overflowOf at hof
      simp only at hof
      split at hof
      · rename_i hne
        injection hof with hof
        subst hof
        exact hculprits _ _ hne.2
      · cases hof

/-- **A failing round leaves fewer candidates.** -/
theorem rejectAll_texts_lt (versionOf : String → Option ℕ) {r : ResolvedBotTexts}
    {failure : List (String × Rejection)} (hne : failure ≠ [])
    (hhas : ∀ f ∈ failure, r.texts.has f.1 = true) :
    (rejectAll versionOf r failure).texts.entries.length < r.texts.entries.length := by
  have hsub := rejectAll_texts_sublist versionOf r failure
  refine lt_of_le_of_ne hsub.length_le (fun hlen => ?_)
  obtain ⟨f, hf⟩ := List.exists_mem_of_ne_nil failure hne
  have heq := hsub.eq_of_length hlen
  have hget := rejectAll_get? versionOf r failure f.1
  rw [if_pos (List.mem_map_of_mem hf)] at hget
  have hsame : (rejectAll versionOf r failure).texts = r.texts := OrderedMap.ext heq
  rw [hsame] at hget
  have hhas' := hhas f hf
  unfold OrderedMap.has at hhas'
  rw [hget] at hhas'
  cases hhas'

/-- The loop: candidates are taken out until nothing is wrong. -/
def settle (all : BotTexts) (defaults : BotTextSource) (versionOf : String → Option ℕ)
    (r : ResolvedBotTexts) : ResolvedBotTexts :=
  match _ : all.firstFailure defaults r.texts with
  | none => r
  | some failure => settle all defaults versionOf (rejectAll versionOf r failure)
termination_by r.texts.entries.length
decreasing_by
  rename_i hfailure
  obtain ⟨hne, hhas⟩ := BotTexts.firstFailure_names hfailure
  exact rejectAll_texts_lt versionOf hne hhas

section Resolve

variable (all : BotTexts) (language : BotLanguage)

/-- The state before the first round, over the rows by key. -/
def candidates (rowOf : String → Option BotTextOverrideRow) (keys : List String) : ResolvedBotTexts where
  rejected :=
    ((keys.filter (· ∉ all.keys)).insertionSort (· ≤ ·)).foldl
      (fun rejected key => reject (fun key => (rowOf key).bind (·.version)) rejected key .unknownKey)
      OrderedMap.empty
  texts :=
    all.keys.foldl
      (fun texts key => (rowOf key).elim texts (fun row => texts.set key row.source)) OrderedMap.empty

/-- Which of `rows` of `language` take effect over that language's defaults. -/
def resolveBotTextOverridesOf (rows : List BotTextOverrideRow) : ResolvedBotTexts :=
  let byKey := rowsByKey language rows
  settle all (all.defaults language) (fun key => (byKey.get? key).bind (·.version))
    (candidates all byKey.get? byKey.keys)

/-- The rows with one key set to `next`, or taken back to its default. -/
def changedRows (key : String) (next : Option Text) (rows : List BotTextOverrideRow) :
    List BotTextOverrideRow :=
  rows.filter (fun row => row.language ≠ language ∨ row.key ≠ key) ++
    next.toList.map (fun source => ⟨language, key, source, none⟩)

/-- Why setting `key` of `language` to `next` cannot be saved: the key itself would be rejected, or an
override in effect now would stop being. -/
def botTextChangeProblems (key : String) (next : Option Text) (rows : List BotTextOverrideRow) :
    List (String × BotTextRejection) :=
  let before := resolveBotTextOverridesOf all language rows
  let after := resolveBotTextOverridesOf all language (changedRows language key next rows)
  (match next, after.rejected.get? key with
    | some _, some own => [(key, own)]
    | _, _ => []) ++
  before.texts.keys.filterMap (fun other =>
    match after.rejected.get? other with
    | some rejection => if other ≠ key then some (other, rejection) else none
    | none => none)

end Resolve

end Binarius
