import Mathlib.Tactic
import Binarius.Shared.BotTextOverrides

/-!
# Shared.BotTextResolver — the override resolver is sound

* `problems_congr`: an entry's problems read the lookup at its fragments only.
* `settle_induct`, `settle_failure`: what every round keeps, the result keeps; the last round finds
  nothing wrong.
* `Partition`: every row's key is a candidate or rejected, never both.
* `resolve_sound`: **the result, for any rows**; `resolve_perm`: their order does not count;
  `change_keeps`: a change without problems is in effect and keeps the others.
-/

namespace Binarius

open Lib

/-! ### What an entry's problems read -/

theorem problems_congr {all : BotTexts} {key : String} {lookup lookup' : BotTextSource}
    (h : ∀ fragment ∈ all.fragmentsOf key, lookup fragment = lookup' fragment) (source : Text) :
    all.problems key source lookup = all.problems key source lookup' := by
  have hfragment : ∀ name, fragmentText all.catalog key lookup name =
      fragmentText all.catalog key lookup' name := by
    intro name
    unfold fragmentText
    simp only
    cases hlookup : (all.catalog key).fragments.lookup name with
    | none => rfl
    | some fragmentKey =>
      have hmem : fragmentKey ∈ all.fragmentsOf key := by
        obtain ⟨l₁, l₂, hl, -⟩ := List.lookup_eq_some_iff.mp hlookup
        unfold BotTexts.fragmentsOf
        rw [hl]
        simp
      simp only [h fragmentKey hmem]
  have hvariables : ∀ valueOf, withVariables all.catalog key lookup valueOf =
      withVariables all.catalog key lookup' valueOf := by
    intro valueOf
    funext name
    unfold withVariables
    rw [hfragment name]
  unfold BotTexts.problems botTextEntryProblems htmlProblems
  simp only [hvariables]

/-! ### The loop -/

/-- **What every failing round keeps, the result keeps.** -/
theorem settle_induct {all : BotTexts} {defaults : BotTextSource} {versionOf : String → Option ℕ}
    {P : ResolvedBotTexts → Prop}
    (hstep : ∀ r failure, all.firstFailure defaults r.texts = some failure → P r →
      P (rejectAll versionOf r failure))
    (r : ResolvedBotTexts) (hr : P r) : P (settle all defaults versionOf r) := by
  induction hn : r.texts.entries.length using Nat.strong_induction_on generalizing r with
  | _ n ih =>
    unfold settle
    split
    · exact hr
    · rename_i failure hfailure
      obtain ⟨hne, hhas⟩ := BotTexts.firstFailure_names hfailure
      have hlt := rejectAll_texts_lt versionOf hne hhas
      exact ih _ (hn ▸ hlt) _ (hstep r failure hfailure hr) rfl

/-- **The loop ends where nothing is wrong.** -/
theorem settle_failure (all : BotTexts) (defaults : BotTextSource) (versionOf : String → Option ℕ)
    (r : ResolvedBotTexts) :
    all.firstFailure defaults (settle all defaults versionOf r).texts = none := by
  induction hn : r.texts.entries.length using Nat.strong_induction_on generalizing r with
  | _ n ih =>
    unfold settle
    split
    · assumption
    · rename_i failure hfailure
      obtain ⟨hne, hhas⟩ := BotTexts.firstFailure_names hfailure
      have hlt := rejectAll_texts_lt versionOf hne hhas
      exact ih _ (hn ▸ hlt) _ rfl

/-! ### What no failure means -/

section NoFailure

variable {all : BotTexts} {defaults : BotTextSource} {texts : OrderedMap String Text}

theorem no_failure_invalid (h : all.firstFailure defaults texts = none) {key : String} {source : Text}
    (hget : texts.get? key = some source) :
    all.problems key source (sourceWith defaults texts) = [] := by
  unfold BotTexts.firstFailure at h
  split at h
  · cases h
  · rename_i hnone
    have hof := List.findSome?_eq_none_iff.mp hnone (key, source) (OrderedMap.get?_eq_some.mp hget)
    unfold BotTexts.invalidOf at hof
    by_contra hne
    simp [hne] at hof

theorem no_failure_host (h : all.firstFailure defaults texts = none) {host : String}
    (hhost : host ∈ all.hosts) (hnot : texts.has host = false) :
    all.problems host (defaults host) (sourceWith defaults texts) = [] ∨
      ∀ fragment ∈ all.fragmentsOf host, texts.has fragment = false := by
  unfold BotTexts.firstFailure at h
  split at h
  · cases h
  · split at h
    · cases h
    · rename_i hnone
      have hof := List.findSome?_eq_none_iff.mp hnone host hhost
      unfold BotTexts.breaksHostOf at hof
      by_cases hproblems : all.problems host (defaults host) (sourceWith defaults texts) = []
      · exact .inl hproblems
      · right
        intro fragment hfragment
        by_contra hhas
        have hculprit : fragment ∈ (all.fragmentsOf host).filter (texts.has ·) := by
          rw [List.mem_filter]
          exact ⟨hfragment, by simpa using hhas⟩
        have hne : (all.fragmentsOf host).filter (texts.has ·) ≠ [] := List.ne_nil_of_mem hculprit
        simp only [hnot, Bool.false_eq_true, if_false, if_pos (And.intro hproblems hne)] at hof
        cases hof

theorem no_failure_message (h : all.firstFailure defaults texts = none) {message : BotTextMessage}
    (hmessage : message ∈ all.messages) :
    message.length (sourceWith defaults texts) ≤ message.limit ∨
      ∀ key ∈ all.messageKeys message, texts.has key = false := by
  unfold BotTexts.firstFailure at h
  split at h
  · cases h
  · split at h
    · cases h
    · have hof := List.findSome?_eq_none_iff.mp h message hmessage
      unfold BotTexts.overflowOf at hof
      by_cases hfits : message.length (sourceWith defaults texts) ≤ message.limit
      · exact .inl hfits
      · right
        intro key hkey
        by_contra hhas
        have hculprit : key ∈ (all.messageKeys message).filter (texts.has ·) := by
          rw [List.mem_filter]
          exact ⟨hkey, by simpa using hhas⟩
        have hne : (all.messageKeys message).filter (texts.has ·) ≠ [] := List.ne_nil_of_mem hculprit
        simp only [if_pos (And.intro (not_le.mp hfits) hne)] at hof
        cases hof

end NoFailure

/-- A key that is no candidate reads its default. -/
theorem sourceWith_default {defaults : BotTextSource} {texts : OrderedMap String Text} {key : String}
    (h : texts.has key = false) : sourceWith defaults texts key = defaults key := by
  unfold sourceWith
  unfold OrderedMap.has at h
  cases hget : texts.get? key with
  | none => rfl
  | some source =>
    rw [hget] at h
    cases h

/-! ### The rows by key -/

theorem foldl_set_get? {rows : List BotTextOverrideRow} (m : OrderedMap String BotTextOverrideRow)
    (key : String) :
    (rows.foldl (fun byKey row => byKey.set row.key row) m).get? key =
      ((rows.reverse.find? (fun row => row.key = key)).or (m.get? key)) := by
  induction rows generalizing m with
  | nil => rfl
  | cons row rows ih =>
    rw [List.foldl_cons, ih, OrderedMap.get?_set, List.reverse_cons, List.find?_append]
    cases hfind : rows.reverse.find? (fun row => row.key = key) with
    | some found => rfl
    | none =>
      by_cases hkey : row.key = key
      · simp [hkey]
      · simp [hkey]

theorem rowsByKey_mem {language : BotLanguage} {rows : List BotTextOverrideRow} {key : String}
    {row : BotTextOverrideRow} (h : (rowsByKey language rows).get? key = some row) :
    row ∈ rows ∧ row.language = language ∧ row.key = key := by
  unfold rowsByKey at h
  rw [foldl_set_get?, OrderedMap.get?_empty, Option.or_none] at h
  have hmem := List.mem_of_find?_eq_some h
  rw [List.mem_reverse, List.mem_filter] at hmem
  exact ⟨hmem.1, by simpa using hmem.2, by simpa using List.find?_some h⟩

/-- The rows of `language` have distinct keys. -/
def DistinctKeys (language : BotLanguage) (rows : List BotTextOverrideRow) : Prop :=
  ((rows.filter (·.language = language)).map (·.key)).Nodup

theorem rowsByKey_some {language : BotLanguage} {rows : List BotTextOverrideRow}
    {row : BotTextOverrideRow} (hrow : row ∈ rows) (hlanguage : row.language = language) :
    ∃ row', (rowsByKey language rows).get? row.key = some row' := by
  unfold rowsByKey
  rw [foldl_set_get?, OrderedMap.get?_empty, Option.or_none]
  have hmem : row ∈ (rows.filter (·.language = language)).reverse := by
    rw [List.mem_reverse, List.mem_filter]
    exact ⟨hrow, by simpa using hlanguage⟩
  have hsome : (List.find? (fun r => decide (r.key = row.key))
      (rows.filter (·.language = language)).reverse).isSome = true := by
    rw [List.find?_isSome]
    exact ⟨row, hmem, by simp⟩
  exact Option.isSome_iff_exists.mp hsome

theorem rowsByKey_get? {language : BotLanguage} {rows : List BotTextOverrideRow}
    (hdistinct : DistinctKeys language rows) {row : BotTextOverrideRow} (hrow : row ∈ rows)
    (hlanguage : row.language = language) :
    (rowsByKey language rows).get? row.key = some row := by
  obtain ⟨row', hget⟩ := rowsByKey_some hrow hlanguage
  obtain ⟨hrow', hlanguage', hkey⟩ := rowsByKey_mem hget
  have hmem : row ∈ rows.filter (·.language = language) := by
    rw [List.mem_filter]
    exact ⟨hrow, by simpa using hlanguage⟩
  have hmem' : row' ∈ rows.filter (·.language = language) := by
    rw [List.mem_filter]
    exact ⟨hrow', by simpa using hlanguage'⟩
  have heq : row' = row := List.inj_on_of_nodup_map hdistinct hmem' hmem hkey
  rw [hget, heq]

/-! ### The candidates -/

theorem candidates_texts_get? {all : BotTexts} {rowOf : String → Option BotTextOverrideRow}
    {keys : List String} (key : String) :
    (candidates all rowOf keys).texts.get? key =
      if key ∈ all.keys then (rowOf key).map (·.source) else none := by
  -- the fold, over any keys and any map written before
  have hfold : ∀ (catalogKeys : List String) (m : OrderedMap String Text),
      (catalogKeys.foldl
        (fun texts key => (rowOf key).elim texts (fun row => texts.set key row.source)) m).get? key =
      if key ∈ catalogKeys then ((rowOf key).map (·.source)).or (m.get? key) else m.get? key := by
    intro catalogKeys
    induction catalogKeys with
    | nil =>
      intro m
      rfl
    | cons first catalogKeys ih =>
      intro m
      rw [List.foldl_cons, ih]
      by_cases hfirst : first = key
      · subst hfirst
        cases hrow : rowOf first with
        | none => simp
        | some row => simp [OrderedMap.get?_set]
      · have hmem : key ∈ first :: catalogKeys ↔ key ∈ catalogKeys := by
          rw [List.mem_cons]
          exact ⟨fun h => h.resolve_left (fun h => hfirst h.symm), Or.inr⟩
        cases hrow : rowOf first with
        | none => simp [hmem]
        | some row => simp [OrderedMap.get?_set, hfirst, hmem]
  unfold candidates
  simp only
  rw [hfold, OrderedMap.get?_empty, Option.or_none]

theorem candidates_rejected_get? {all : BotTexts} {rowOf : String → Option BotTextOverrideRow}
    {keys : List String} (key : String) :
    ((candidates all rowOf keys).rejected.get? key).isSome = true ↔ key ∈ keys ∧ key ∉ all.keys := by
  have hfold : ∀ (unknown : List String) (m : OrderedMap String BotTextRejection),
      ((unknown.foldl (fun rejected key =>
        reject (fun key => (rowOf key).bind (·.version)) rejected key .unknownKey) m).get? key).isSome =
        true ↔ key ∈ unknown ∨ (m.get? key).isSome = true := by
    intro unknown
    induction unknown with
    | nil =>
      intro m
      simp
    | cons first unknown ih =>
      intro m
      rw [List.foldl_cons, ih]
      unfold reject
      rw [OrderedMap.get?_set, List.mem_cons]
      by_cases hfirst : first = key
      · simp [hfirst]
      · have hfirst' : key ≠ first := fun h => hfirst h.symm
        simp [hfirst, hfirst']
  unfold candidates
  simp only
  rw [hfold, (List.perm_insertionSort _ _).mem_iff, List.mem_filter]
  simp

/-! ### A row's key is a candidate or rejected -/

/-- What the state says about every key, the rows being `rowOf`. -/
structure Partition (all : BotTexts) (rowOf : String → Option BotTextOverrideRow)
    (r : ResolvedBotTexts) : Prop where
  accepted : ∀ key source, r.texts.get? key = some source →
    key ∈ all.keys ∧ (rowOf key).map (·.source) = some source ∧ r.rejected.get? key = none
  rejected : ∀ key, (r.rejected.get? key).isSome = true → (rowOf key).isSome = true
  covered : ∀ key, (rowOf key).isSome = true →
    (r.texts.get? key).isSome = true ∨ (r.rejected.get? key).isSome = true

theorem Partition.candidates {all : BotTexts} {byKey : OrderedMap String BotTextOverrideRow} :
    Partition all byKey.get? (candidates all byKey.get? byKey.keys) where
  accepted key source h := by
    rw [candidates_texts_get?] at h
    by_cases hmem : key ∈ all.keys
    · rw [if_pos hmem] at h
      refine ⟨hmem, h, ?_⟩
      rw [← Option.not_isSome_iff_eq_none, candidates_rejected_get?]
      exact fun hrejected => hrejected.2 hmem
    · rw [if_neg hmem] at h
      cases h
  rejected key h := by
    rw [candidates_rejected_get?] at h
    obtain ⟨row, hrow⟩ := OrderedMap.mem_keys.mp h.1
    rw [hrow]
    rfl
  covered key h := by
    obtain ⟨row, hrow⟩ := Option.isSome_iff_exists.mp h
    by_cases hmem : key ∈ all.keys
    · left
      rw [candidates_texts_get?, if_pos hmem, hrow]
      rfl
    · right
      rw [candidates_rejected_get?]
      exact ⟨OrderedMap.mem_keys.mpr ⟨row, hrow⟩, hmem⟩

/-- One candidate taken out. -/
theorem Partition.reject {all : BotTexts} {rowOf : String → Option BotTextOverrideRow}
    (versionOf : String → Option ℕ) {r : ResolvedBotTexts} (h : Partition all rowOf r) {key : String}
    (hrow : (rowOf key).isSome = true) (rejection : Rejection) :
    Partition all rowOf ⟨r.texts.erase key, reject versionOf r.rejected key rejection⟩ where
  accepted key' source hget := by
    rw [OrderedMap.get?_erase] at hget
    by_cases hkey : key = key'
    · rw [if_pos hkey] at hget
      cases hget
    · rw [if_neg hkey] at hget
      obtain ⟨hmem, hsource, hnone⟩ := h.accepted key' source hget
      refine ⟨hmem, hsource, ?_⟩
      unfold Binarius.reject
      rw [OrderedMap.get?_set, if_neg hkey]
      exact hnone
  rejected key' hget := by
    unfold Binarius.reject at hget
    rw [OrderedMap.get?_set] at hget
    by_cases hkey : key = key'
    · rw [← hkey]
      exact hrow
    · rw [if_neg hkey] at hget
      exact h.rejected key' hget
  covered key' hget := by
    unfold Binarius.reject
    rw [OrderedMap.get?_erase, OrderedMap.get?_set]
    by_cases hkey : key = key'
    · right
      rw [if_pos hkey]
      rfl
    · rw [if_neg hkey, if_neg hkey]
      exact h.covered key' hget

theorem Partition.rejectAll {all : BotTexts} {rowOf : String → Option BotTextOverrideRow}
    {versionOf : String → Option ℕ} {r : ResolvedBotTexts} (h : Partition all rowOf r)
    {failure : List (String × Rejection)} (hrows : ∀ f ∈ failure, (rowOf f.1).isSome = true) :
    Partition all rowOf (rejectAll versionOf r failure) := by
  induction failure generalizing r with
  | nil => exact h
  | cons f failure ih =>
    have hone := h.reject versionOf (hrows f List.mem_cons_self) f.2
    exact ih hone (fun f' hf' => hrows f' (List.mem_cons_of_mem _ hf'))

/-- **The result parts the rows' keys.** -/
theorem Partition.settle {all : BotTexts} {rowOf : String → Option BotTextOverrideRow}
    {defaults : BotTextSource} {versionOf : String → Option ℕ} {r : ResolvedBotTexts}
    (h : Partition all rowOf r) : Partition all rowOf (settle all defaults versionOf r) := by
  refine settle_induct (fun r failure hfailure hr => ?_) r h
  refine hr.rejectAll (fun f hf => ?_)
  have hhas := (BotTexts.firstFailure_names hfailure).2 f hf
  unfold OrderedMap.has at hhas
  obtain ⟨source, hget⟩ := Option.isSome_iff_exists.mp hhas
  have hsource := (hr.accepted f.1 source hget).2.1
  cases hrow : rowOf f.1 with
  | none =>
    rw [hrow] at hsource
    cases hsource
  | some row => rfl

theorem resolve_partition (all : BotTexts) (language : BotLanguage) (rows : List BotTextOverrideRow) :
    Partition all (rowsByKey language rows).get? (resolveBotTextOverridesOf all language rows) :=
  Partition.candidates.settle

/-! ### The result -/

/-- The languages' defaults pass: no problems, every message fits, and a translation reads no key that
the catalog's own texts do not (its texts hold the same placeholders). -/
structure ValidDefaults (all : BotTexts) (language : BotLanguage) : Prop where
  problems : ∀ key ∈ all.keys, all.problems key (all.defaults language key) (all.defaults language) = []
  fits : ∀ message ∈ all.messages, message.length (all.defaults language) ≤ message.limit
  reads : ∀ message ∈ all.messages, ∀ key ∈ message.estimate.asked (all.defaults language),
    key ∈ all.messageKeys message

/-- What holds of a resolution whose loop found nothing wrong. -/
structure SoundTexts (all : BotTexts) (language : BotLanguage) (texts : OrderedMap String Text) :
    Prop where
  accepted : ∀ key source, texts.get? key = some source →
    all.problems key source (sourceWith (all.defaults language) texts) = []
  hosts : ∀ host ∈ all.hosts, texts.get? host = none →
    all.problems host (all.defaults language host) (sourceWith (all.defaults language) texts) = []
  messages : ∀ message ∈ all.messages,
    message.length (sourceWith (all.defaults language) texts) ≤ message.limit

/-- **Where nothing is wrong**, everything shown is valid and fits. -/
theorem soundTexts_of_no_failure {all : BotTexts} {language : BotLanguage}
    (hdefaults : ValidDefaults all language) {texts : OrderedMap String Text}
    (h : all.firstFailure (all.defaults language) texts = none) : SoundTexts all language texts where
  accepted key source hget := no_failure_invalid h hget
  hosts host hhost hnone := by
    have hnot : texts.has host = false := by
      unfold OrderedMap.has
      rw [hnone]
      rfl
    rcases no_failure_host h hhost hnot with hok | hfragments
    · exact hok
    · -- with none of its fragments overridden the host reads what its default was checked with
      have hkeys : host ∈ all.keys := (List.mem_filter.mp hhost).1
      have hsame : ∀ fragment ∈ all.fragmentsOf host,
          sourceWith (all.defaults language) texts fragment = all.defaults language fragment :=
        fun fragment hfragment => sourceWith_default (hfragments fragment hfragment)
      rw [problems_congr hsame]
      exact hdefaults.problems host hkeys
  messages message hmessage := by
    rcases no_failure_message h hmessage with hok | hkeys
    · exact hok
    · have hsame : message.length (sourceWith (all.defaults language) texts) =
          message.length (all.defaults language) :=
        Reads.run_congr (fun key hkey =>
          sourceWith_default (hkeys key (hdefaults.reads message hmessage key hkey)))
      rw [hsame]
      exact hdefaults.fits message hmessage

/-- The map by key of rows with distinct keys, whatever their order. -/
theorem rowsByKey_perm {language : BotLanguage} {rows rows' : List BotTextOverrideRow}
    (hdistinct : DistinctKeys language rows) (hperm : rows.Perm rows') (key : String) :
    (rowsByKey language rows').get? key = (rowsByKey language rows).get? key := by
  have hdistinct' : DistinctKeys language rows' := by
    unfold DistinctKeys at *
    exact ((hperm.filter _).map _).nodup_iff.mp hdistinct
  refine Option.ext (fun row => ?_)
  constructor
  · intro h
    obtain ⟨hrow, hlanguage, hkey⟩ := rowsByKey_mem h
    rw [← hkey]
    exact rowsByKey_get? hdistinct (hperm.mem_iff.mpr hrow) hlanguage
  · intro h
    obtain ⟨hrow, hlanguage, hkey⟩ := rowsByKey_mem h
    rw [← hkey]
    exact rowsByKey_get? hdistinct' (hperm.mem_iff.mp hrow) hlanguage

/-- **The order of the rows does not count.** -/
theorem resolve_perm {all : BotTexts} {language : BotLanguage} {rows rows' : List BotTextOverrideRow}
    (hdistinct : DistinctKeys language rows) (hperm : rows.Perm rows') :
    resolveBotTextOverridesOf all language rows' = resolveBotTextOverridesOf all language rows := by
  have hget : (rowsByKey language rows').get? = (rowsByKey language rows).get? :=
    funext (rowsByKey_perm hdistinct hperm)
  -- the maps hold the same keys, each once, so sorting gives one list
  have hkeys : (rowsByKey language rows').keys.Perm (rowsByKey language rows).keys := by
    refine (List.perm_ext_iff_of_nodup (rowsByKey language rows').nodup
      (rowsByKey language rows).nodup).mpr (fun key => ?_)
    show key ∈ (rowsByKey language rows').keys ↔ key ∈ (rowsByKey language rows).keys
    rw [OrderedMap.mem_keys, OrderedMap.mem_keys, hget]
  have hsorted : ((rowsByKey language rows').keys.filter (· ∉ all.keys)).insertionSort (· ≤ ·) =
      ((rowsByKey language rows).keys.filter (· ∉ all.keys)).insertionSort (· ≤ ·) := by
    have hperm' := ((List.perm_insertionSort (· ≤ ·) _).trans (hkeys.filter (· ∉ all.keys))).trans
      (List.perm_insertionSort (· ≤ ·) _).symm
    refine List.Perm.eq_of_pairwise ?_ (List.pairwise_insertionSort (· ≤ ·) _)
      (List.pairwise_insertionSort (· ≤ ·) _) hperm'
    intro a b _ _ hab hba
    exact String.le_antisymm hab hba
  unfold resolveBotTextOverridesOf candidates
  simp only [hget, hsorted]

/-- A key of the rows is a candidate in the end unless it is rejected. -/
theorem resolve_accepted {all : BotTexts} {language : BotLanguage} {rows : List BotTextOverrideRow}
    {row : BotTextOverrideRow} (hdistinct : DistinctKeys language rows) (hrow : row ∈ rows)
    (hlanguage : row.language = language)
    (hnot : (resolveBotTextOverridesOf all language rows).rejected.get? row.key = none) :
    (resolveBotTextOverridesOf all language rows).texts.get? row.key = some row.source := by
  have hpartition := resolve_partition all language rows
  have hget := rowsByKey_get? hdistinct hrow hlanguage
  have hsome : ((rowsByKey language rows).get? row.key).isSome = true := by
    rw [hget]
    rfl
  rcases hpartition.covered row.key hsome with htext | hrejected
  · obtain ⟨source, hsource⟩ := Option.isSome_iff_exists.mp htext
    have hsame := (hpartition.accepted row.key source hsource).2.1
    rw [hget] at hsame
    rw [hsource]
    exact hsame.symm
  · rw [hnot] at hrejected
    cases hrejected

/-- The rows after a change. -/
theorem mem_changedRows {language : BotLanguage} {key : String} {next : Option Text}
    {rows : List BotTextOverrideRow} {row : BotTextOverrideRow} :
    row ∈ changedRows language key next rows ↔
      (row ∈ rows ∧ (row.language ≠ language ∨ row.key ≠ key)) ∨
        ∃ source, next = some source ∧ row = ⟨language, key, source, none⟩ := by
  unfold changedRows
  rw [List.mem_append, List.mem_filter]
  cases next with
  | none => simp
  | some source => simp

theorem distinctKeys_changedRows {language : BotLanguage} {rows : List BotTextOverrideRow}
    (hdistinct : DistinctKeys language rows) (key : String) (next : Option Text) :
    DistinctKeys language (changedRows language key next rows) := by
  unfold DistinctKeys changedRows at *
  rw [List.filter_append, List.map_append, List.nodup_append]
  refine ⟨?_, ?_, ?_⟩
  · refine hdistinct.sublist (List.Sublist.map _ ?_)
    exact (List.filter_sublist).filter _
  · cases next with
    | none => exact List.nodup_nil
    | some source => simp
  · intro a ha b hb hab
    obtain ⟨row, hrow, rfl⟩ := List.mem_map.mp ha
    obtain ⟨row', hrow', rfl⟩ := List.mem_map.mp hb
    obtain ⟨hin, hlanguage⟩ := List.mem_filter.mp hrow
    have hother := (List.mem_filter.mp hin).2
    have hnew := (List.mem_filter.mp hrow').1
    have hkey : row'.key = key := by
      cases next with
      | none => cases hnew
      | some source =>
        rw [Option.toList_some, List.map_singleton, List.mem_singleton] at hnew
        rw [hnew]
    have hlanguage' : row.language = language := by simpa using hlanguage
    have hother' : row.language ≠ language ∨ row.key ≠ key := by simpa using hother
    rcases hother' with h | h
    · exact h hlanguage'
    · exact h (hab.trans hkey)

/-- **A change without problems keeps what was in effect, and is in effect itself.** -/
theorem change_keeps {all : BotTexts} {language : BotLanguage} {key : String} {next : Option Text}
    {rows : List BotTextOverrideRow} (hdistinct : DistinctKeys language rows)
    (hnone : botTextChangeProblems all language key next rows = []) :
    (resolveBotTextOverridesOf all language (changedRows language key next rows)).texts.get? key = next ∧
    ∀ other source, other ≠ key →
      (resolveBotTextOverridesOf all language rows).texts.get? other = some source →
      (resolveBotTextOverridesOf all language (changedRows language key next rows)).texts.get? other =
        some source := by
  have hdistinct' := distinctKeys_changedRows hdistinct key next
  have hafter := resolve_partition all language (changedRows language key next rows)
  unfold botTextChangeProblems at hnone
  simp only [List.append_eq_nil_iff] at hnone
  obtain ⟨hown, hothers⟩ := hnone
  refine ⟨?_, fun other source hne hbefore => ?_⟩
  · cases next with
    | none =>
      -- the key has no row any more
      cases htext : (resolveBotTextOverridesOf all language
          (changedRows language key none rows)).texts.get? key with
      | none => rfl
      | some source =>
        obtain ⟨-, hsource, -⟩ := hafter.accepted key source htext
        cases hget : (rowsByKey language (changedRows language key none rows)).get? key with
        | none =>
          rw [hget] at hsource
          cases hsource
        | some row =>
          obtain ⟨hrow, hlanguage, hkey⟩ := rowsByKey_mem hget
          rcases mem_changedRows.mp hrow with ⟨-, h | h⟩ | ⟨source, hsome, -⟩
          · exact absurd hlanguage h
          · exact absurd hkey h
          · cases hsome
    | some source =>
      have hrow : (⟨language, key, source, none⟩ : BotTextOverrideRow) ∈
          changedRows language key (some source) rows :=
        mem_changedRows.mpr (.inr ⟨source, rfl, rfl⟩)
      refine resolve_accepted hdistinct' hrow rfl ?_
      show (resolveBotTextOverridesOf all language
        (changedRows language key (some source) rows)).rejected.get? key = none
      cases hrejected : (resolveBotTextOverridesOf all language
          (changedRows language key (some source) rows)).rejected.get? key with
      | none => rfl
      | some own =>
        rw [hrejected] at hown
        cases hown
  · -- an override in effect before has its row, which the change left
    obtain ⟨-, hsource, -⟩ := (resolve_partition all language rows).accepted other source hbefore
    cases hget : (rowsByKey language rows).get? other with
    | none =>
      rw [hget] at hsource
      cases hsource
    | some row =>
      rw [hget] at hsource
      have hsource' : row.source = source := by simpa using hsource
      obtain ⟨hrow, hlanguage, hkey⟩ := rowsByKey_mem hget
      have hrow' : row ∈ changedRows language key next rows :=
        mem_changedRows.mpr (.inl ⟨hrow, .inr (by rw [hkey]; exact hne)⟩)
      have hnot : (resolveBotTextOverridesOf all language
          (changedRows language key next rows)).rejected.get? row.key = none := by
        have hmem : other ∈ (resolveBotTextOverridesOf all language rows).texts.keys :=
          OrderedMap.mem_keys.mpr ⟨source, hbefore⟩
        have hof := List.filterMap_eq_nil_iff.mp hothers other hmem
        rw [hkey]
        cases hrejected : (resolveBotTextOverridesOf all language
            (changedRows language key next rows)).rejected.get? other with
        | none => rfl
        | some rejection =>
          rw [hrejected] at hof
          simp [hne] at hof
      have haccepted := resolve_accepted hdistinct' hrow' hlanguage hnot
      rw [hkey, hsource'] at haccepted
      exact haccepted

/-- **The override resolver is sound.**  Over valid defaults, for any rows with distinct keys: the loop
ends with nothing wrong; the accepted overrides, the hosts on their defaults and the messages are valid
together; every row's key is accepted with its text or rejected, not both, and no other key is either;
the order of the rows does not count; and a change without problems is in effect and keeps the others. -/
theorem resolver_sound (all : BotTexts) (language : BotLanguage) (rows : List BotTextOverrideRow)
    (hdefaults : ValidDefaults all language) (hdistinct : DistinctKeys language rows) :
    all.firstFailure (all.defaults language) (resolveBotTextOverridesOf all language rows).texts = none ∧
    SoundTexts all language (resolveBotTextOverridesOf all language rows).texts ∧
    (∀ row ∈ rows, row.language = language →
      ((resolveBotTextOverridesOf all language rows).texts.get? row.key = some row.source ∧
        (resolveBotTextOverridesOf all language rows).rejected.get? row.key = none) ∨
      ((resolveBotTextOverridesOf all language rows).texts.get? row.key = none ∧
        ((resolveBotTextOverridesOf all language rows).rejected.get? row.key).isSome = true)) ∧
    (∀ key, ((resolveBotTextOverridesOf all language rows).texts.get? key).isSome = true ∨
        ((resolveBotTextOverridesOf all language rows).rejected.get? key).isSome = true →
      ∃ row ∈ rows, row.language = language ∧ row.key = key) ∧
    (∀ rows', rows.Perm rows' →
      resolveBotTextOverridesOf all language rows' = resolveBotTextOverridesOf all language rows) ∧
    ∀ key next, botTextChangeProblems all language key next rows = [] →
      (resolveBotTextOverridesOf all language (changedRows language key next rows)).texts.get? key =
        next ∧
      ∀ other source, other ≠ key →
        (resolveBotTextOverridesOf all language rows).texts.get? other = some source →
        (resolveBotTextOverridesOf all language (changedRows language key next rows)).texts.get? other =
          some source := by
  have hnothing : all.firstFailure (all.defaults language)
      (resolveBotTextOverridesOf all language rows).texts = none := settle_failure _ _ _ _
  have hpartition := resolve_partition all language rows
  refine ⟨hnothing, soundTexts_of_no_failure hdefaults hnothing, ?_, ?_,
    fun rows' hperm => resolve_perm hdistinct hperm, fun key next => change_keeps hdistinct⟩
  · intro row hrow hlanguage
    cases hrejected : (resolveBotTextOverridesOf all language rows).rejected.get? row.key with
    | none => exact .inl ⟨resolve_accepted hdistinct hrow hlanguage hrejected, rfl⟩
    | some rejection =>
      refine .inr ⟨?_, rfl⟩
      cases htext : (resolveBotTextOverridesOf all language rows).texts.get? row.key with
      | none => rfl
      | some source =>
        have hnot := (hpartition.accepted row.key source htext).2.2
        rw [hrejected] at hnot
        cases hnot
  · intro key hkey
    have hsome : ((rowsByKey language rows).get? key).isSome = true := by
      rcases hkey with htext | hrejected
      · obtain ⟨source, hsource⟩ := Option.isSome_iff_exists.mp htext
        have hrow := (hpartition.accepted key source hsource).2.1
        cases hget : (rowsByKey language rows).get? key with
        | none =>
          rw [hget] at hrow
          cases hrow
        | some row => rfl
      · exact hpartition.rejected key hrejected
    obtain ⟨row, hget⟩ := Option.isSome_iff_exists.mp hsome
    obtain ⟨hrow, hlanguage, hkey'⟩ := rowsByKey_mem hget
    exact ⟨row, hrow, hlanguage, hkey'⟩

/-- Two texts, one put into the other, and the message made of both. -/
def smallTexts : BotTexts where
  keys := ["host", "word"]
  nodup := by decide
  catalog key :=
    if key = "host" then ⟨.html, [("email", "a@b.c".toList)], [("word", "word")], 40, false⟩
    else ⟨.plain, [], [], 12, true⟩
  defaults _ key := if key = "host" then "<b>{word}</b> {email}".toList else "Hello".toList
  messages := [⟨"greeting", 30, .ask "host" (fun host => .ask "word" (fun word =>
    .done (textLength host + textLength word)))⟩]

/-- An override in effect, one that breaks its own text and one of an unknown key. -/
def smallRows : List BotTextOverrideRow :=
  [⟨.ru, "word", "Hi".toList, some 1⟩, ⟨.ru, "host", "<b>{word}".toList, some 2⟩,
    ⟨.ru, "other", "x".toList, some 3⟩]

theorem smallTexts_valid : ValidDefaults smallTexts .ru where
  problems := by decide +kernel
  fits := by decide +kernel
  reads := by decide +kernel

theorem resolver_sound_small :
    SoundTexts smallTexts .ru (resolveBotTextOverridesOf smallTexts .ru smallRows).texts ∧
    resolveBotTextOverridesOf smallTexts .ru smallRows.reverse =
      resolveBotTextOverridesOf smallTexts .ru smallRows := by
  have hsound := resolver_sound smallTexts .ru smallRows smallTexts_valid
    (by unfold DistinctKeys; decide +kernel)
  exact ⟨hsound.2.1, hsound.2.2.2.2.1 _ (List.reverse_perm _).symm⟩

end Binarius
