import Mathlib.Tactic
import Binarius.Bot.CallbackData
import Binarius.Stake.DecimalForms

/-!
# Bot.CallbackReadings — how the patterns read what the builders draw

* `reads_shape`: a drawn pair and a tail are read by the current pattern of the shape, field by field.
* `not_reads_legacy`: and by no legacy pattern of it.
* `reads_picker`, `not_reads_picker`: the same of the picker's patterns.
* `near_of_reads`: a pattern reads only what begins with one of its heads.
-/

namespace Binarius

open Lib

namespace CallbackData

/-! ## Fields -/

theorem digit_ne_colon {w : List Char} (h : ∀ c ∈ w, c.isDigit = true) : ':' ∉ w :=
  fun hc => absurd (h _ hc) (by decide)

theorem numText_digits (n : ℕ) : ∀ c ∈ numText n, c.isDigit = true := fun _ hc => isDigit_toDigits hc

theorem numText_noColon (n : ℕ) : ':' ∉ numText n := digit_ne_colon (numText_digits n)

theorem digits_noColon {lo hi : ℕ} {w : List Char} (h : Rx.Reads (digits lo hi) w []) : ':' ∉ w :=
  digit_ne_colon h.1

/-- The ids the backend accepts. -/
def AssetId (assetId : ℕ) : Prop := 0 < assetId ∧ assetId ≤ 2147483647

theorem numText_length {assetId : ℕ} (h : AssetId assetId) : (numText assetId).length ≤ 10 :=
  toDigits_length_le (by decide) (lt_of_le_of_lt h.2 (by decide))

theorem reads_assetId {assetId : ℕ} (h : AssetId assetId) : Rx.Reads (digits 1 10) (numText assetId) [] :=
  ⟨numText_digits assetId, Nat.one_le_iff_ne_zero.mpr fun hlen =>
    Nat.toDigits_ne_nil (List.length_eq_zero_iff.mp hlen), numText_length h, rfl⟩

theorem durationTexts_noColon {durations : List ℕ} {w : List Char} (h : w ∈ durationTexts durations) :
    ':' ∉ w := by
  obtain ⟨sec, -, rfl⟩ := List.mem_map.mp h
  exact numText_noColon sec

/-- A pair's fields before a tail. -/
theorem reads_pairFields {durations : List ℕ} {rest : List Rx}
    (hrest : ∀ w g, Rx.Reads (Rx.cat rest) w g → Rx.Tail ':' w) (assetId sec : ℕ) {r : List Char}
    (hr : Rx.Tail ':' r) {c : Rx.Groups} :
    Rx.Reads (Rx.cat (pairFields durations ++ rest)) (numText assetId ++ ':' :: (numText sec ++ r)) c ↔
      Rx.Reads (digits 1 10) (numText assetId) [] ∧ numText sec ∈ durationTexts durations ∧
        ∃ c', c = some (numText assetId) :: some (numText sec) :: c' ∧ Rx.Reads (Rx.cat rest) r c' := by
  have hid : Rx.Reads (Rx.cat (pairFields durations ++ rest))
      (numText assetId ++ ':' :: (numText sec ++ r)) c ↔
      Rx.Reads (digits 1 10) (numText assetId) [] ∧ ∃ c', c = some (numText assetId) :: c' ∧
        Rx.Reads (Rx.cat (.lit [':'] :: .group (.oneOf (durationTexts durations)) :: rest))
          (':' :: (numText sec ++ r)) c' :=
    Rx.reads_field rfl (fun _ => digits_noColon) (fun _ _ => Rx.tail_of_lit) (numText_noColon assetId)
      (Or.inr ⟨_, rfl⟩)
  have hdur : ∀ c', Rx.Reads (Rx.cat (.lit [':'] :: .group (.oneOf (durationTexts durations)) :: rest))
      (':' :: (numText sec ++ r)) c' ↔
        (numText sec ∈ durationTexts durations ∧ ([] : Rx.Groups) = []) ∧
          ∃ c'', c' = some (numText sec) :: c'' ∧ Rx.Reads (Rx.cat rest) r c'' := by
    intro c'
    have hsep : ∀ w, Rx.Reads (.oneOf (durationTexts durations)) w [] → ':' ∉ w :=
      fun _ (h : _ ∧ _) => durationTexts_noColon h.1
    exact (Rx.reads_lit (s := [':'])).trans (Rx.reads_field rfl hsep hrest (numText_noColon sec) hr)
  rw [hid]
  constructor
  · rintro ⟨hassetId, c', rfl, hread⟩
    obtain ⟨⟨hmem, -⟩, c'', rfl, hread'⟩ := (hdur c').mp hread
    exact ⟨hassetId, hmem, c'', rfl, hread'⟩
  · rintro ⟨hassetId, hmem, c'', rfl, hread⟩
    exact ⟨hassetId, _, rfl, (hdur _).mpr ⟨⟨hmem, rfl⟩, c'', rfl, hread⟩⟩

/-! ## The shapes with a duration -/

/-- What a shape begins with before the pair; a session's begins with its mode. -/
def headPieces : DurationShape → List Rx
  | .duration => [.lit "demo:d:".toList]
  | .analysis => [.lit "demo:an:".toList]
  | .stake => [.lit "demo:stake:".toList]
  | .session => [.group (.oneOf [modeText .demo, modeText .real]), .lit ":sess:".toList]
  | .launch => [.lit "demo:l:".toList]
  | .cycleStake => [.lit "demo:sa:".toList]
  | .cycleCustom => [.lit "demo:sc:".toList]
  | .analysisMore => [.lit "demo:more:".toList]

/-- What a shape ends with after the pair. -/
def tailPieces : DurationShape → List Rx
  | .duration => []
  | .analysis => []
  | .stake => [.lit [':'], actionGroup, .lit [':'], .group (hexDigits 12),
      .opt (Rx.cat [.lit [':'], .group (hexDigits 6)])]
  | .session => [.opt (Rx.cat [.lit [':'], .group (.lit ['l'])])]
  | .launch => [.opt (Rx.cat [.lit [':'], .group (.oneOf [['a'], ['n']])])]
  | .cycleStake => [.lit [':'], .group stakeAmountPattern, .lit [':'], backGroup]
  | .cycleCustom => [.lit [':'], backGroup]
  | .analysisMore => [.lit [':'], actionGroup, .opt (Rx.cat [.lit [':'], .group (.oneOf [['s'], ['n']])]),
      .opt (Rx.cat [.lit [':'], .group (.oneOf [['d'], ['r']])])]

theorem shapePattern_pieces (durations : List ℕ) (shape : DurationShape) :
    shapePattern durations shape = Rx.cat (headPieces shape ++ (pairFields durations ++ tailPieces shape)) := by
  cases shape <;> rfl

theorem tailPieces_tail (shape : DurationShape) :
    ∀ w g, Rx.Reads (Rx.cat (tailPieces shape)) w g → Rx.Tail ':' w := by
  intro w g h
  cases shape with
  | duration => exact Rx.tail_of_nil h
  | analysis => exact Rx.tail_of_nil h
  | stake => exact Rx.tail_of_lit h
  | session => exact Rx.tail_of_opt (fun _ _ => Rx.tail_of_nil) h
  | launch => exact Rx.tail_of_opt (fun _ _ => Rx.tail_of_nil) h
  | cycleStake => exact Rx.tail_of_lit h
  | cycleCustom => exact Rx.tail_of_lit h
  | analysisMore => exact Rx.tail_of_lit h

/-- The text before the pair. -/
def drawnHead (mode : TradeMode) : DurationShape → List Char
  | .duration => "demo:d:".toList
  | .analysis => "demo:an:".toList
  | .stake => "demo:stake:".toList
  | .session => modeText mode ++ ":sess:".toList
  | .launch => "demo:l:".toList
  | .cycleStake => "demo:sa:".toList
  | .cycleCustom => "demo:sc:".toList
  | .analysisMore => "demo:more:".toList

def drawnHeadGroups (mode : TradeMode) : DurationShape → Rx.Groups
  | .session => [some (modeText mode)]
  | _ => []

theorem reads_head (mode : TradeMode) (shape : DurationShape) {rest : List Rx} {r : List Char}
    {c : Rx.Groups} :
    Rx.Reads (Rx.cat (headPieces shape ++ rest)) (drawnHead mode shape ++ r) c ↔
      ∃ c', c = drawnHeadGroups mode shape ++ c' ∧ Rx.Reads (Rx.cat rest) r c' := by
  have hplain : (∃ c', c = [] ++ c' ∧ Rx.Reads (Rx.cat rest) r c') ↔ Rx.Reads (Rx.cat rest) r c := by
    constructor
    · rintro ⟨c', rfl, h⟩
      exact h
    · intro h
      exact ⟨c, rfl, h⟩
  cases shape with
  | session =>
    have hmode : ∀ w, Rx.Reads (.oneOf [modeText .demo, modeText .real]) w [] → ':' ∉ w := by
      rintro w ⟨hw, -⟩
      fin_cases hw <;> decide
    have hcolon : ∀ w g, Rx.Reads (Rx.cat (.lit ":sess:".toList :: rest)) w g → Rx.Tail ':' w := by
      intro w g h
      obtain ⟨r', rfl⟩ := Rx.prefix_of_reads_lit h
      exact Or.inr ⟨"sess:".toList ++ r', rfl⟩
    have hfield := Rx.reads_field (a := .oneOf [modeText .demo, modeText .real]) (g := c) rfl hmode hcolon
      (show ':' ∉ modeText mode by cases mode <;> decide)
      (show Rx.Tail ':' (":sess:".toList ++ r) from Or.inr ⟨"sess:".toList ++ r, rfl⟩)
    have hmem : modeText mode ∈ [modeText .demo, modeText .real] := by cases mode <;> decide
    show Rx.Reads
      (Rx.cat (.group (.oneOf [modeText .demo, modeText .real]) :: .lit ":sess:".toList :: rest))
      (modeText mode ++ ":sess:".toList ++ r) c ↔ _
    rw [List.append_assoc, hfield]
    constructor
    · rintro ⟨-, c', rfl, h⟩
      exact ⟨c', rfl, Rx.reads_lit.mp h⟩
    · rintro ⟨c', rfl, h⟩
      exact ⟨⟨hmem, rfl⟩, c', rfl, Rx.reads_lit.mpr h⟩
  | duration => exact Rx.reads_lit.trans hplain.symm
  | analysis => exact Rx.reads_lit.trans hplain.symm
  | stake => exact Rx.reads_lit.trans hplain.symm
  | launch => exact Rx.reads_lit.trans hplain.symm
  | cycleStake => exact Rx.reads_lit.trans hplain.symm
  | cycleCustom => exact Rx.reads_lit.trans hplain.symm
  | analysisMore => exact Rx.reads_lit.trans hplain.symm

/-- A datum of a shape: its head, the pair and a tail. -/
def shapeData (mode : TradeMode) (shape : DurationShape) (assetId : ℕ) (durationSec : DemoDurationSec)
    (r : List Char) : List Char :=
  drawnHead mode shape ++ (numText assetId ++ ':' :: (numText durationSec ++ r))

/-- **The current pattern of the shape reads the pair and the tail, field by field.** -/
theorem reads_shape {mode : TradeMode} {shape : DurationShape} {assetId : ℕ} (hassetId : AssetId assetId)
    (durationSec : DemoDurationSec) {r : List Char} (hr : Rx.Tail ':' r) {c : Rx.Groups} :
    Rx.Reads (pattern (.current shape)) (shapeData mode shape assetId durationSec r) c ↔
      ∃ c', c = drawnHeadGroups mode shape ++ (some (numText assetId) :: some (numText durationSec) :: c') ∧
        Rx.Reads (Rx.cat (tailPieces shape)) r c' := by
  have hpair : ∀ c', Rx.Reads (Rx.cat (pairFields demoDurationsSec ++ tailPieces shape))
      (numText assetId ++ ':' :: (numText durationSec ++ r)) c' ↔ _ :=
    fun c' => reads_pairFields (c := c') (tailPieces_tail shape) assetId durationSec.1 hr
  rw [pattern, shapePattern_pieces, shapeData, reads_head]
  constructor
  · rintro ⟨c', rfl, h⟩
    obtain ⟨-, -, c'', rfl, h'⟩ := (hpair c').mp h
    exact ⟨c'', rfl, h'⟩
  · rintro ⟨c'', rfl, h⟩
    exact ⟨_, rfl, (hpair _).mpr ⟨reads_assetId hassetId, List.mem_map_of_mem durationSec.2, c'', rfl, h⟩⟩

/-- The durations of the two sets differ, and so do their texts. -/
theorem legacy_disjoint (durationSec : DemoDurationSec) :
    numText durationSec ∉ durationTexts legacyDemoDurationsSec := by
  have hall : ∀ sec ∈ demoDurationsSec, numText sec ∉ durationTexts legacyDemoDurationsSec := by
    decide +kernel
  exact hall durationSec.1 durationSec.2

/-- **No legacy pattern of the shape reads it.** -/
theorem not_reads_legacy {mode : TradeMode} {shape : DurationShape} {assetId : ℕ}
    (durationSec : DemoDurationSec) {r : List Char} (hr : Rx.Tail ':' r) {c : Rx.Groups} :
    ¬ Rx.Reads (pattern (.legacy shape)) (shapeData mode shape assetId durationSec r) c := by
  rw [pattern, shapePattern_pieces, shapeData, reads_head]
  rintro ⟨c', -, h⟩
  obtain ⟨-, hmem, -⟩ := (reads_pairFields (tailPieces_tail shape) assetId durationSec.1 hr).mp h
  exact legacy_disjoint durationSec hmem

/-- A launch screen from before the durations has one field. -/
theorem not_reads_legacyLaunch {field r : List Char} {c : Rx.Groups} :
    ¬ Rx.Reads (pattern .legacyLaunch) ("demo:l:".toList ++ (field ++ ':' :: r)) c := by
  intro h
  have hgroup : Rx.Reads assetIdGroup (field ++ ':' :: r) c := Rx.reads_lit.mp h
  obtain ⟨hdigits, -⟩ := (Rx.reads_group rfl).mp hgroup
  exact digits_noColon hdigits (List.mem_append_right _ List.mem_cons_self)

/-! ## Amounts -/

theorem amount_noColon {w : List Char} (h : Rx.Reads stakeAmountPattern w []) : ':' ∉ w := by
  obtain ⟨w₁, w₂, c₁, c₂, rfl, -, hwhole, hfraction⟩ := Rx.reads_cat_cons.mp h
  rw [List.mem_append, not_or]
  refine ⟨digit_ne_colon hwhole.1, ?_⟩
  rcases hfraction with hpoint | ⟨rfl, -⟩
  · obtain ⟨r, rfl⟩ := Rx.prefix_of_reads_lit hpoint
    have hdigits : Rx.Reads (digits 1 numericFractionDigits) r c₂ := Rx.reads_lit.mp hpoint
    rw [List.singleton_append, List.mem_cons, not_or]
    exact ⟨by decide, digit_ne_colon hdigits.1⟩
  · exact List.not_mem_nil

/-- An amount is an unsigned decimal of the column's digits. -/
theorem isTradeAmount_plain {amount : List Char} (h : isTradeAmount amount = true) :
    ∃ whole fraction, Plain amount whole fraction ∧ whole.length ≤ amountIntegerDigits ∧
      fraction.length ≤ numericFractionDigits := by
  rw [isTradeAmount, isNumericDomainDecimal, Bool.and_eq_true, isPositiveDecimalString, Bool.and_eq_true,
    Bool.and_eq_true, decide_eq_true_eq] at h
  obtain ⟨⟨⟨hdecimal, hsign⟩, -⟩, hfits⟩ := h
  obtain ⟨negative, whole, fraction, hs⟩ := isDecimalString_spelled hdecimal
  have hplus : negative = false := by
    cases negative with
    | false => rfl
    | true =>
      rw [hs.eq] at hsign
      exact absurd rfl hsign
  subst hplus
  have hplain : Plain amount whole fraction := ⟨hs.eq, hs.wholeSome, hs.wholeDigits, hs.fractionDigits⟩
  rw [fitsNumeric, hplain.split, Bool.and_eq_true, decide_eq_true_eq, decide_eq_true_eq] at hfits
  exact ⟨whole, fraction, hplain, hfits.1, hfits.2⟩

/-- **What the schema takes the pattern reads.** -/
theorem reads_amount {amount : List Char} (h : isTradeAmount amount = true) :
    Rx.Reads stakeAmountPattern amount [] := by
  obtain ⟨whole, fraction, hplain, hw, hf⟩ := isTradeAmount_plain h
  refine Rx.reads_cat_cons.mpr ⟨whole, pointed fraction, [], [], hplain.eq, rfl,
    ⟨hplain.wholeDigits, List.length_pos_of_ne_nil hplain.wholeSome, hw, rfl⟩, ?_⟩
  unfold pointed
  split_ifs with hnil
  · exact Or.inr ⟨rfl, rfl⟩
  · exact Or.inl (Rx.reads_lit (s := ['.']).mpr
      ⟨hplain.fractionDigits, List.length_pos_of_ne_nil hnil, hf, rfl⟩)

/-! ## The picker -/

/-- The origins the backend accepts. -/
def OriginOk : StakeOrigin → Prop
  | .settings => True
  | .analysis assetId _ => AssetId assetId
  | .pair assetId _ => AssetId assetId

def pickerHead : PickerAction → List Char
  | .opening => "stk:o:".toList
  | .preset => "stk:s:".toList
  | .reset => "stk:z:".toList
  | .custom => "stk:c:".toList

/-- A preset's amount comes before the mode. -/
def pickerLead (amount : List Char) : PickerAction → List Char
  | .preset => amount ++ [':']
  | _ => []

def pickerLeadGroups (amount : List Char) : PickerAction → Rx.Groups
  | .preset => [some amount]
  | _ => []

/-- A datum of the picker. -/
def pickerDatum (action : PickerAction) (amount : List Char) (mode : TradeMode) (origin : StakeOrigin) :
    List Char :=
  pickerHead action ++ (pickerLead amount action ++ (modeToken mode ++ ':' :: originData origin))

theorem reads_pickerLead {action : PickerAction} {amount : List Char}
    (hamount : Rx.Reads stakeAmountPattern amount []) {mode : List Rx} {origin : Rx} {r : List Char}
    {c : Rx.Groups} :
    Rx.Reads (pickerPattern mode origin action) (pickerHead action ++ (pickerLead amount action ++ r)) c ↔
      ∃ c', c = pickerLeadGroups amount action ++ c' ∧ Rx.Reads (Rx.cat (mode ++ [origin])) r c' := by
  have hplain : (∃ c', c = [] ++ c' ∧ Rx.Reads (Rx.cat (mode ++ [origin])) r c') ↔
      Rx.Reads (Rx.cat (mode ++ [origin])) r c := by
    constructor
    · rintro ⟨c', rfl, h⟩
      exact h
    · intro h
      exact ⟨c, rfl, h⟩
  cases action with
  | opening => exact Rx.reads_lit.trans hplain.symm
  | reset => exact Rx.reads_lit.trans hplain.symm
  | custom => exact Rx.reads_lit.trans hplain.symm
  | preset =>
    refine Rx.reads_lit.trans ?_
    rw [pickerLead, List.append_assoc]
    refine (Rx.reads_field (c := ':') rfl (fun _ => amount_noColon) (fun _ _ => Rx.tail_of_lit)
      (amount_noColon hamount) (Or.inr ⟨r, rfl⟩)).trans ?_
    constructor
    · rintro ⟨-, c', rfl, h⟩
      exact ⟨c', rfl, Rx.reads_lit (s := [':']).mp h⟩
    · rintro ⟨c', rfl, h⟩
      exact ⟨hamount, c', rfl, Rx.reads_lit (s := [':']).mpr h⟩

theorem modeToken_noColon (mode : TradeMode) : ':' ∉ modeToken mode := by cases mode <;> decide

theorem reads_origin {origin : StakeOrigin} (h : OriginOk origin) {c : Rx.Groups} :
    Rx.Reads originPattern (originData origin) c ↔ c = [some (originData origin)] := by
  have hpair : ∀ (letter : Char) (assetId : ℕ) (durationSec : DemoDurationSec), AssetId assetId →
      (letter = 'a' || letter = 'p') = true →
      Rx.Reads (Rx.cat [.rep (fun c => c = 'a' || c = 'p') 1 1, .lit [':'], digits 1 10, .lit [':'],
        .oneOf (durationTexts originDurations)])
        (letter :: ':' :: (numText assetId ++ ':' :: numText durationSec)) [] := by
    intro letter assetId durationSec hid hletter
    have hdur : ∀ sec ∈ demoDurationsSec, sec ∈ originDurations := fun _ => List.mem_append_left _
    refine Rx.reads_cat_cons.mpr ⟨[letter], ':' :: (numText assetId ++ ':' :: numText durationSec), [], [],
      rfl, rfl, ⟨?_, le_rfl, le_rfl, rfl⟩, Rx.reads_lit (s := [':']).mpr ?_⟩
    · intro x hx
      rw [List.mem_singleton.mp hx]
      exact hletter
    · refine Rx.reads_cat_cons.mpr ⟨numText assetId, ':' :: numText durationSec, [], [], rfl, rfl,
        reads_assetId hid, Rx.reads_lit (s := [':']).mpr ?_⟩
      exact ⟨List.mem_map_of_mem (hdur _ durationSec.2), rfl⟩
  refine (Rx.reads_group rfl).trans ⟨And.right, fun hc => ⟨?_, hc⟩⟩
  cases origin with
  | settings => exact Or.inl ⟨[], ⟨rfl, rfl⟩, rfl⟩
  | analysis assetId durationSec => exact Or.inr ⟨[], hpair 'a' assetId durationSec h rfl, rfl⟩
  | pair assetId durationSec => exact Or.inr ⟨[], hpair 'p' assetId durationSec h rfl, rfl⟩

/-- **The current pattern of the action reads the mode and the origin.** -/
theorem reads_picker {action : PickerAction} {amount : List Char}
    (hamount : Rx.Reads stakeAmountPattern amount []) (mode : TradeMode) {origin : StakeOrigin}
    (h : OriginOk origin) {c : Rx.Groups} :
    Rx.Reads (pattern (.picker action)) (pickerDatum action amount mode origin) c ↔
      c = pickerLeadGroups amount action ++ [some (modeToken mode), some (originData origin)] := by
  have hmode : ∀ c', Rx.Reads (Rx.cat (modeGroup ++ [originPattern]))
      (modeToken mode ++ ':' :: originData origin) c' ↔ c' = [some (modeToken mode), some (originData origin)] := by
    intro c'
    have hsep : ∀ w, Rx.Reads (.oneOf [modeToken .demo, modeToken .real]) w [] → ':' ∉ w := by
      rintro w ⟨hw, -⟩
      fin_cases hw <;> decide
    have hmem : modeToken mode ∈ [modeToken .demo, modeToken .real] := by cases mode <;> decide
    refine (Rx.reads_field (c := ':') rfl hsep (fun _ _ => Rx.tail_of_lit) (modeToken_noColon mode)
      (Or.inr ⟨originData origin, rfl⟩)).trans ?_
    constructor
    · rintro ⟨-, c'', rfl, hread⟩
      rw [(reads_origin h).mp (Rx.reads_lit (s := [':']).mp hread)]
    · rintro rfl
      exact ⟨⟨hmem, rfl⟩, _, rfl, Rx.reads_lit (s := [':']).mpr ((reads_origin h).mpr rfl)⟩
  rw [pattern, pickerDatum, reads_pickerLead hamount]
  constructor
  · rintro ⟨c', rfl, hread⟩
    rw [(hmode c').mp hread]
  · rintro rfl
    exact ⟨_, rfl, (hmode _).mpr rfl⟩

/-- A mode's token begins no origin. -/
theorem modeToken_head (mode : TradeMode) :
    ∃ letter, modeToken mode = [letter] ∧ letter ≠ 's' ∧ letter ≠ 'a' ∧ letter ≠ 'p' := by
  cases mode with
  | demo => exact ⟨'d', rfl, by decide, by decide, by decide⟩
  | real => exact ⟨'r', rfl, by decide, by decide, by decide⟩

/-- **No pattern without the mode reads it.** -/
theorem not_reads_legacyPicker (action : PickerAction) {amount : List Char}
    (hamount : Rx.Reads stakeAmountPattern amount []) (mode : TradeMode) (origin : StakeOrigin)
    {c : Rx.Groups} :
    ¬ Rx.Reads (pattern (.legacyPicker action)) (pickerDatum action amount mode origin) c ∧
      ¬ Rx.Reads (pattern (.legacyLaunchPicker action)) (pickerDatum action amount mode origin) c := by
  obtain ⟨letter, hletter, hs, ha, hp⟩ := modeToken_head mode
  rw [pattern, pattern, pickerDatum, reads_pickerLead hamount, reads_pickerLead hamount, hletter]
  constructor
  · rintro ⟨c', -, c'', hread, -⟩
    rcases hread with ⟨c₁, ⟨heq, -⟩, -⟩ | ⟨c₂, hread, -⟩
    · exact hs (List.cons.inj heq).1
    · obtain ⟨w₁, w₂, c₁', c₂', heq, -, ⟨hall, hlo, -⟩, -⟩ := Rx.reads_cat_cons.mp hread
      cases w₁ with
      | nil => exact absurd hlo (by decide)
      | cons d w₁ =>
        obtain rfl := (List.cons.inj heq).1
        have hd := hall letter List.mem_cons_self
        rw [Bool.or_eq_true, decide_eq_true_eq, decide_eq_true_eq] at hd
        exact hd.elim ha hp
  · rintro ⟨c', -, c'', hread, -⟩
    obtain ⟨r, heq⟩ := Rx.prefix_of_reads_lit hread
    exact hp (List.cons.inj heq).1.symm

/-! ## Heads -/

/-- What the texts a pattern reads begin with. -/
def heads : CallbackPattern → List (List Char)
  | .current shape => [drawnHead .demo shape, drawnHead .real shape]
  | .page => ["demo:t:".toList]
  | .asset => ["demo:a:".toList]
  | .signals => ["demo:sig".toList]
  | .picker action => [pickerHead action]
  | .legacy shape => [drawnHead .demo shape, drawnHead .real shape]
  | .legacyLaunch => ["demo:l:".toList]
  | .legacyPicker action => [pickerHead action]
  | .legacyLaunchPicker action => [pickerHead action]

theorem head_of_reads_shape {durations : List ℕ} {shape : DurationShape} {t : List Char} {c : Rx.Groups}
    (h : Rx.Reads (shapePattern durations shape) t c) :
    ∃ head ∈ [drawnHead .demo shape, drawnHead .real shape], head <+: t := by
  rw [shapePattern_pieces] at h
  cases shape with
  | session =>
    obtain ⟨w₁, w₂, c₁, c₂, rfl, -, ⟨c₁', ⟨hmode, -⟩, -⟩, hread⟩ := Rx.reads_cat_cons.mp h
    obtain ⟨r, rfl⟩ := Rx.prefix_of_reads_lit hread
    refine ⟨w₁ ++ ":sess:".toList, ?_, ⟨r, List.append_assoc _ _ _⟩⟩
    rcases List.mem_cons.mp hmode with rfl | hreal
    · exact List.mem_cons_self
    · rw [List.mem_singleton.mp hreal]
      exact List.mem_cons_of_mem _ List.mem_cons_self
  | duration => exact ⟨_, List.mem_cons_self, Rx.prefix_of_reads_lit h⟩
  | analysis => exact ⟨_, List.mem_cons_self, Rx.prefix_of_reads_lit h⟩
  | stake => exact ⟨_, List.mem_cons_self, Rx.prefix_of_reads_lit h⟩
  | launch => exact ⟨_, List.mem_cons_self, Rx.prefix_of_reads_lit h⟩
  | cycleStake => exact ⟨_, List.mem_cons_self, Rx.prefix_of_reads_lit h⟩
  | cycleCustom => exact ⟨_, List.mem_cons_self, Rx.prefix_of_reads_lit h⟩
  | analysisMore => exact ⟨_, List.mem_cons_self, Rx.prefix_of_reads_lit h⟩

theorem head_of_reads_picker {mode : List Rx} {origin : Rx} {action : PickerAction} {t : List Char}
    {c : Rx.Groups} (h : Rx.Reads (pickerPattern mode origin action) t c) : pickerHead action <+: t := by
  cases action with
  | opening => exact Rx.prefix_of_reads_lit h
  | preset => exact Rx.prefix_of_reads_lit h
  | reset => exact Rx.prefix_of_reads_lit h
  | custom => exact Rx.prefix_of_reads_lit h

theorem head_of_reads {n : CallbackPattern} {t : List Char} {c : Rx.Groups} (h : Rx.Reads (pattern n) t c) :
    ∃ head ∈ heads n, head <+: t := by
  cases n with
  | current shape => exact head_of_reads_shape h
  | page => exact ⟨_, List.mem_cons_self, Rx.prefix_of_reads_lit h⟩
  | asset => exact ⟨_, List.mem_cons_self, Rx.prefix_of_reads_lit h⟩
  | signals => exact ⟨_, List.mem_cons_self, Rx.prefix_of_reads_lit h⟩
  | picker action => exact ⟨_, List.mem_cons_self, head_of_reads_picker h⟩
  | legacy shape => exact head_of_reads_shape h
  | legacyLaunch => exact ⟨_, List.mem_cons_self, Rx.prefix_of_reads_lit h⟩
  | legacyPicker action => exact ⟨_, List.mem_cons_self, head_of_reads_picker h⟩
  | legacyLaunchPicker action => exact ⟨_, List.mem_cons_self, head_of_reads_picker h⟩

/-- A head of the pattern and this one begin a common text. -/
def near (head : List Char) (n : CallbackPattern) : Bool :=
  (heads n).any fun other => other.isPrefixOf head || head.isPrefixOf other

/-- **A pattern reads only what begins with one of its heads.** -/
theorem near_of_reads {n : CallbackPattern} {head r : List Char} {c : Rx.Groups}
    (h : Rx.Reads (pattern n) (head ++ r) c) : near head n = true := by
  obtain ⟨other, hmem, hbegins⟩ := head_of_reads h
  refine List.any_eq_true.mpr ⟨other, hmem, ?_⟩
  rw [Bool.or_eq_true, List.isPrefixOf_iff_prefix, List.isPrefixOf_iff_prefix]
  exact List.prefix_or_prefix_of_prefix hbegins (List.prefix_append head r)

end CallbackData

end Binarius
