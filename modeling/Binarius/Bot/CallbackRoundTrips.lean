import Mathlib.Tactic
import Binarius.Bot.CallbackReadings
import Binarius.Stake.Presets

/-!
# Bot.CallbackRoundTrips — a pressed button does what was drawn

* `ReadsBack`: a datum is short, is matched by its own pattern only, and its groups are decoded to a value.
* `readsBack_shape`, `readsBack_picker`: the shapes with a duration, and the picker's.
* `callback_reads_back`: **every datum drawn reads back, and every preset offered is accepted.**
-/

namespace Binarius

open Lib

namespace CallbackData

/-! ## Bytes -/

/-- The bytes of a text in UTF-8. -/
def byteLength (data : List Char) : ℕ := (data.map Char.utf8Size).sum

/-- Bot API's limit. -/
def maxCallbackBytes : ℕ := 64

@[simp] theorem byteLength_append (a b : List Char) :
    byteLength (a ++ b) = byteLength a + byteLength b := by
  rw [byteLength, List.map_append, List.sum_append]
  rfl

@[simp] theorem byteLength_cons (c : Char) (w : List Char) :
    byteLength (c :: w) = c.utf8Size + byteLength w := by
  rw [byteLength, List.map_cons, List.sum_cons]
  rfl

theorem utf8Size_ascii {c : Char} (h : c ≤ 'f') : c.utf8Size = 1 := by
  have hval : c.val ≤ 127 := UInt32.le_trans h (by decide : 'f'.val ≤ 127)
  exact if_pos hval

theorem byteLength_ascii {w : List Char} (h : ∀ c ∈ w, c ≤ 'f') : byteLength w = w.length := by
  induction w with
  | nil => rfl
  | cons c w ih =>
    rw [byteLength_cons, utf8Size_ascii (h c List.mem_cons_self),
      ih fun d hd => h d (List.mem_cons_of_mem _ hd),
      List.length_cons, Nat.add_comm]

theorem digit_ascii {c : Char} (h : c.isDigit = true) : c ≤ 'f' := by
  unfold Char.isDigit at h
  rw [Bool.and_eq_true, decide_eq_true_eq, decide_eq_true_eq] at h
  exact Char.le_trans h.2 (by decide : '9' ≤ 'f')

theorem byteLength_digits {w : List Char} (h : ∀ c ∈ w, c.isDigit = true) : byteLength w = w.length :=
  byteLength_ascii fun c hc => digit_ascii (h c hc)

theorem byteLength_numText {assetId : ℕ} (h : AssetId assetId) : byteLength (numText assetId) ≤ 10 :=
  (byteLength_digits (numText_digits assetId)).trans_le (numText_length h)

theorem eq_demoDurationSec (durationSec : DemoDurationSec) : durationSec = demoDurationSec :=
  Subtype.ext (List.mem_singleton.mp durationSec.2)

theorem byteLength_duration (durationSec : DemoDurationSec) : byteLength (numText durationSec) = 1 := by
  rw [eq_demoDurationSec durationSec]
  rfl

theorem byteLength_amount {amount : List Char} (h : isTradeAmount amount = true) :
    byteLength amount ≤ 21 := by
  obtain ⟨whole, fraction, hplain, hw, hf⟩ := isTradeAmount_plain h
  have hpoint : byteLength (pointed fraction) ≤ fraction.length + 1 := by
    unfold pointed
    split_ifs with hnil
    · exact Nat.zero_le _
    · rw [byteLength_cons, byteLength_digits hplain.fractionDigits, utf8Size_ascii (by decide),
        Nat.add_comm]
  rw [hplain.eq, byteLength_append, byteLength_digits hplain.wholeDigits]
  have hw' : whole.length ≤ 12 := hw
  have hf' : fraction.length ≤ 8 := hf
  omega

/-! ## What reads back -/

/-- A datum fits a button, only its own pattern matches it, and its groups are decoded to the value. -/
structure ReadsBack {α : Type} (own : CallbackPattern) (data : List Char) (decode : Rx.Groups → Option α)
    (value : α) : Prop where
  short : byteLength data ≤ maxCallbackBytes
  matched : ∀ n, Rx.test (pattern n) data = decide (n = own)
  decoded : (Rx.exec (pattern own) data).bind decode = some value

/-- Where the own pattern has one reading and the others none, what is decoded is the reading's. -/
theorem ReadsBack.mk' {α : Type} {own : CallbackPattern} {data : List Char} {decode : Rx.Groups → Option α}
    {value : α} {c : Rx.Groups} (hshort : byteLength data ≤ maxCallbackBytes)
    (hown : ∀ c', Rx.Reads (pattern own) data c' ↔ c' = c)
    (hothers : ∀ n c', n ≠ own → ¬ Rx.Reads (pattern n) data c') (hdecode : decode c = some value) :
    ReadsBack own data decode value := by
  have hexec : Rx.exec (pattern own) data = some c :=
    Rx.exec_eq_some ((hown c).mpr rfl) fun c' => (hown c').mp
  refine ⟨hshort, fun n => ?_, ?_⟩
  · by_cases hn : n = own
    · rw [decide_eq_true hn, hn, Rx.test, hexec]
      rfl
    · rw [decide_eq_false hn]
      exact Rx.test_eq_false_iff.mpr fun c' => hothers n c' hn
  · rw [hexec]
    exact hdecode

/-! ## The patterns near a head -/

def shapes : List DurationShape :=
  [.duration, .analysis, .stake, .session, .launch, .cycleStake, .cycleCustom, .analysisMore]

def pickerActions : List PickerAction := [.opening, .preset, .reset, .custom]

/-- Every pattern. -/
def patterns : List CallbackPattern :=
  [.page, .asset, .signals, .legacyLaunch] ++ shapes.map .current ++ shapes.map .legacy ++
    pickerActions.map .picker ++ pickerActions.map .legacyPicker ++ pickerActions.map .legacyLaunchPicker

theorem mem_patterns (n : CallbackPattern) : n ∈ patterns := by
  cases n with
  | current shape => cases shape <;> decide
  | legacy shape => cases shape <;> decide
  | picker action => cases action <;> decide
  | legacyPicker action => cases action <;> decide
  | legacyLaunchPicker action => cases action <;> decide
  | page => decide
  | asset => decide
  | signals => decide
  | legacyLaunch => decide

theorem mem_shapes (shape : DurationShape) : shape ∈ shapes := by cases shape <;> decide

theorem mem_pickerActions (action : PickerAction) : action ∈ pickerActions := by cases action <;> decide

/-- **Only a shape's own patterns are near its head**, and a launch's older one. -/
theorem near_shape {mode : TradeMode} {shape : DurationShape} {n : CallbackPattern}
    (h : near (drawnHead mode shape) n = true) :
    n = .current shape ∨ n = .legacy shape ∨ (shape = .launch ∧ n = .legacyLaunch) := by
  have hall : ∀ mode ∈ [TradeMode.demo, TradeMode.real], ∀ shape ∈ shapes, ∀ n ∈ patterns,
      near (drawnHead mode shape) n = true →
        n = .current shape ∨ n = .legacy shape ∨ (shape = .launch ∧ n = .legacyLaunch) := by
    decide +kernel
  have hmode : mode ∈ [TradeMode.demo, TradeMode.real] := by cases mode <;> decide
  exact hall mode hmode shape (mem_shapes shape) n (mem_patterns n) h

theorem near_picker {action : PickerAction} {n : CallbackPattern} (h : near (pickerHead action) n = true) :
    n = .picker action ∨ n = .legacyPicker action ∨ n = .legacyLaunchPicker action := by
  have hall : ∀ action ∈ pickerActions, ∀ n ∈ patterns, near (pickerHead action) n = true →
      n = .picker action ∨ n = .legacyPicker action ∨ n = .legacyLaunchPicker action := by
    decide +kernel
  exact hall action (mem_pickerActions action) n (mem_patterns n) h

/-! ## The two families -/

/-- **A datum of a shape with a duration reads back**, when its tail has one reading and that is decoded. -/
theorem readsBack_shape {α : Type} (mode : TradeMode) {shape : DurationShape} {assetId : ℕ}
    (hassetId : AssetId assetId) (durationSec : DemoDurationSec) {r : List Char} (hr : Rx.Tail ':' r)
    (hbytes : byteLength r ≤ 41) {c : Rx.Groups}
    (htail : ∀ c', Rx.Reads (Rx.cat (tailPieces shape)) r c' ↔ c' = c)
    {decode : Rx.Groups → Option α} {value : α}
    (hdecode : decode
      (drawnHeadGroups mode shape ++ (some (numText assetId) :: some (numText durationSec) :: c)) =
      some value) :
    ReadsBack (.current shape) (shapeData mode shape assetId durationSec r) decode value := by
  refine ReadsBack.mk' ?_ (fun c' => ?_) (fun n c' hn hread => ?_) hdecode
  · have hhead : byteLength (drawnHead mode shape) ≤ 11 := by cases mode <;> cases shape <;> decide
    have hid := byteLength_numText hassetId
    have hdur := byteLength_duration durationSec
    have hcolon : ':'.utf8Size = 1 := utf8Size_ascii (by decide)
    rw [shapeData, byteLength_append, byteLength_append, byteLength_cons, byteLength_append,
      maxCallbackBytes]
    omega
  · rw [reads_shape hassetId durationSec hr]
    constructor
    · rintro ⟨c'', rfl, h⟩
      rw [(htail c'').mp h]
    · rintro rfl
      exact ⟨c, rfl, (htail c).mpr rfl⟩
  · rcases near_shape (near_of_reads hread) with rfl | rfl | ⟨rfl, rfl⟩
    · exact hn rfl
    · exact not_reads_legacy durationSec hr hread
    · exact not_reads_legacyLaunch hread

/-- **A datum of the picker reads back.** -/
theorem readsBack_picker {α : Type} {action : PickerAction} {amount : List Char}
    (hamount : isTradeAmount amount = true) (mode : TradeMode) {origin : StakeOrigin}
    (horigin : OriginOk origin)
    {decode : Rx.Groups → Option α} {value : α}
    (hdecode : decode (pickerLeadGroups amount action ++
      [some (modeToken mode), some (originData origin)]) = some value) :
    ReadsBack (.picker action) (pickerDatum action amount mode origin) decode value := by
  have hreads := reads_amount hamount
  refine ReadsBack.mk' ?_ (fun c' => reads_picker hreads mode horigin) (fun n c' hn hread => ?_) hdecode
  · have hhead : byteLength (pickerHead action) = 6 := by cases action <;> rfl
    have hcolon : ':'.utf8Size = 1 := utf8Size_ascii (by decide)
    have hmode : byteLength (modeToken mode) = 1 := by cases mode <;> rfl
    have hlead : byteLength (pickerLead amount action) ≤ 22 := by
      cases action with
      | preset =>
        have hlen := byteLength_amount hamount
        have hnil : byteLength [] = 0 := rfl
        rw [pickerLead, byteLength_append, byteLength_cons]
        omega
      | opening => exact Nat.zero_le _
      | reset => exact Nat.zero_le _
      | custom => exact Nat.zero_le _
    have hdata : byteLength (originData origin) ≤ 14 := by
      cases origin with
      | settings => decide
      | analysis assetId durationSec =>
        have hid := byteLength_numText horigin
        have hdur := byteLength_duration durationSec
        have hletter : 'a'.utf8Size = 1 := utf8Size_ascii (by decide)
        rw [originData, byteLength_cons, byteLength_cons, byteLength_append, byteLength_cons]
        omega
      | pair assetId durationSec =>
        have hid := byteLength_numText horigin
        have hdur := byteLength_duration durationSec
        have hletter : 'p'.utf8Size = 1 := by decide
        rw [originData, byteLength_cons, byteLength_cons, byteLength_append, byteLength_cons]
        omega
    rw [pickerDatum, byteLength_append, byteLength_append, byteLength_append, byteLength_cons,
      maxCallbackBytes]
    omega
  · obtain ⟨hlegacy, hlaunch⟩ := not_reads_legacyPicker action hreads mode origin (c := c')
    rcases near_picker (near_of_reads hread) with rfl | rfl | rfl
    · exact hn rfl
    · exact hlegacy hread
    · exact hlaunch hread

/-! ## The parsers -/

theorem assetIdOf_numText {assetId : ℕ} (h : AssetId assetId) :
    assetIdOf (some (numText assetId)) = some assetId := by
  have hnumber : numberOf (numText assetId) = some assetId := by
    rw [numberOf, if_pos ⟨Nat.toDigits_ne_nil, List.all_eq_true.mpr (numText_digits assetId)⟩, numText,
      Nat.ofDigitChars_ten_toDigits]
  have hint : (assetId : ℤ) ≤ int4Max := by
    have hle := h.2
    rw [int4Max]
    omega
  unfold assetIdOf
  simp only [Option.bind_eq_bind, Option.bind_some, hnumber]
  rw [if_pos ⟨h.1, hint⟩]

theorem durationOf_numText (durationSec : DemoDurationSec) :
    durationOf (some (numText durationSec)) = some durationSec := by
  rw [eq_demoDurationSec durationSec]
  rfl

theorem actionOf_actionText (action : TradeAction) : actionOf (some (actionText action)) = some action := by
  cases action <;> rfl

theorem tradeModeOf_modeText (mode : TradeMode) : tradeModeOf (some (modeText mode)) = some mode := by
  cases mode <;> rfl

theorem stakeModeOf_modeToken (mode : TradeMode) : stakeModeOf (some (modeToken mode)) = some mode := by
  cases mode <;> rfl

theorem cycleBackOfData_text (back : CycleBack) : cycleBackOfData (some back.text) = some back := by
  cases back <;> rfl

theorem tradeAmountOf_some {amount : List Char} (h : isTradeAmount amount = true) :
    tradeAmountOf (some amount) = some amount := by
  rw [tradeAmountOf, Option.filter_some, if_pos h]

/-- A session of the default length fits every duration offered. -/
theorem sessionFits_default (durationSec : DemoDurationSec) :
    sessionFits durationSec.1 defaultSessionCycles = true := by
  rw [eq_demoDurationSec durationSec]
  decide +kernel

/-- The parts of an origin with a pair. -/
theorem splitOn_origin {letter : Char} (hletter : letter ≠ ':') (assetId : ℕ)
    (durationSec : DemoDurationSec) :
    (letter :: ':' :: (numText assetId ++ ':' :: numText durationSec)).splitOn ':' =
      [[letter], numText assetId, numText durationSec] := by
  have hfields : ∀ field ∈ [[letter], numText assetId, numText durationSec], ':' ∉ field := by
    intro field hfield
    rcases List.mem_cons.mp hfield with rfl | hfield
    · rw [List.mem_singleton]
      exact fun heq => hletter heq.symm
    rcases List.mem_cons.mp hfield with rfl | hfield
    · exact numText_noColon assetId
    · rw [List.mem_singleton.mp hfield]
      exact numText_noColon _
  have hparts := List.splitOn_intercalate ':' hfields (List.cons_ne_nil _ _)
  simpa [List.intercalate, List.intersperse] using hparts

theorem originDurations_text (durationSec : DemoDurationSec) :
    originDurations.any (fun sec => decide (some (numText sec) = some (numText durationSec))) = true := by
  rw [eq_demoDurationSec durationSec]
  rfl

theorem stakeOriginOf_originData {origin : StakeOrigin} (h : OriginOk origin) :
    stakeOriginOf (some (originData origin)) = some origin := by
  cases origin with
  | settings => rfl
  | analysis assetId durationSec =>
    rw [eq_demoDurationSec durationSec, originData, stakeOriginOf,
      if_neg fun heq => absurd (List.cons.inj (Option.some.inj heq)).1 (by decide)]
    simp only [splitOn_origin (show 'a' ≠ ':' by decide)]
    refine Option.bind_eq_some_iff.mpr ⟨assetId, assetIdOf_numText h, ?_⟩
    refine (if_pos (originDurations_text demoDurationSec)).trans ((if_neg ?_).trans (if_pos rfl))
    exact fun heq => absurd (List.cons.inj (Option.some.inj heq)).1 (by decide)
  | pair assetId durationSec =>
    rw [eq_demoDurationSec durationSec, originData, stakeOriginOf,
      if_neg fun heq => absurd (List.cons.inj (Option.some.inj heq)).1 (by decide)]
    simp only [splitOn_origin (show 'p' ≠ ':' by decide)]
    refine Option.bind_eq_some_iff.mpr ⟨assetId, assetIdOf_numText h, ?_⟩
    exact (if_pos (originDurations_text demoDurationSec)).trans (if_pos rfl)

theorem stepOf_drawn (mode : TradeMode) {origin : StakeOrigin} (h : OriginOk origin) :
    stepOf (some (modeToken mode)) (some (originData origin)) = some { mode, origin } := by
  rw [stepOf, stakeModeOf_modeToken, stakeOriginOf_originData h]
  rfl

theorem sessionStartDataOf_eq {m : Rx.Groups} {cycles : ℤ} {mode : TradeMode} {assetId : ℕ}
    {durationSec : DemoDurationSec} (hmode : tradeModeOf (Rx.groupOf m 1) = some mode)
    (hid : assetIdOf (Rx.groupOf m 2) = some assetId)
    (hdur : durationOf (Rx.groupOf m 3) = some durationSec)
    (hfits : sessionFits durationSec.1 cycles = true) :
    sessionStartDataOf m cycles =
      some { mode, assetId, durationSec, launch := decide (Rx.groupOf m 4 = some ['l']) } := by
  unfold sessionStartDataOf
  refine Option.bind_eq_some_iff.mpr ⟨mode, hmode, Option.bind_eq_some_iff.mpr ⟨assetId, hid, ?_⟩⟩
  refine Option.bind_eq_some_iff.mpr ⟨durationSec, hdur, ?_⟩
  exact if_pos hfits

theorem cycleStakeDataOf_eq {m : Rx.Groups} {assetId : ℕ} {durationSec : DemoDurationSec}
    {amount : List Char} {back : CycleBack} (hid : assetIdOf (Rx.groupOf m 1) = some assetId)
    (hdur : durationOf (Rx.groupOf m 2) = some durationSec)
    (hamount : tradeAmountOf (Rx.groupOf m 3) = some amount)
    (hback : cycleBackOfData (Rx.groupOf m 4) = some back)
    (hfits : sessionFits durationSec.1 defaultSessionCycles = true) :
    cycleStakeDataOf m = some ({ assetId, durationSec, back }, amount) := by
  unfold cycleStakeDataOf
  refine Option.bind_eq_some_iff.mpr ⟨assetId, hid, Option.bind_eq_some_iff.mpr ⟨durationSec, hdur, ?_⟩⟩
  refine Option.bind_eq_some_iff.mpr ⟨amount, hamount, Option.bind_eq_some_iff.mpr ⟨back, hback, ?_⟩⟩
  exact if_pos hfits

/-! ## The builders -/

/-- The lower-case hex digits of a nonce and of a fingerprint. -/
def HexText (n : ℕ) (text : List Char) : Prop :=
  text.length = n ∧ ∀ c ∈ text, (c.isDigit || ('a' ≤ c && c ≤ 'f')) = true

instance (n : ℕ) (text : List Char) : Decidable (HexText n text) := inferInstanceAs (Decidable (_ ∧ _))

theorem hex_ascii {c : Char} (h : (c.isDigit || ('a' ≤ c && c ≤ 'f')) = true) : c ≤ 'f' := by
  rw [Bool.or_eq_true, Bool.and_eq_true, decide_eq_true_eq, decide_eq_true_eq] at h
  rcases h with hdigit | ⟨-, hle⟩
  · exact digit_ascii hdigit
  · exact hle

theorem reads_hexDigits {n : ℕ} {text : List Char} : Rx.Reads (hexDigits n) text [] ↔ HexText n text :=
  ⟨fun h => ⟨le_antisymm h.2.2.1 h.2.1, h.1⟩, fun h => ⟨h.2, h.1.ge, h.1.le, rfl⟩⟩

theorem HexText.noColon {n : ℕ} {text : List Char} (h : HexText n text) : ':' ∉ text :=
  fun hc => absurd (h.2 _ hc) (by decide)

theorem HexText.bytes {n : ℕ} {text : List Char} (h : HexText n text) : byteLength text = n :=
  (byteLength_ascii fun c hc => hex_ascii (h.2 c hc)).trans h.1

/-- The tail of a stake button: the action, the nonce and the fingerprint. -/
theorem reads_stakeTail (action : TradeAction) {nonce fingerprint : List Char} (hnonce : HexText 12 nonce)
    (hfingerprint : HexText 6 fingerprint) (c : Rx.Groups) :
    Rx.Reads (Rx.cat (tailPieces .stake)) (':' :: (actionText action ++ ':' :: (nonce ++ ':' :: fingerprint))) c ↔
      c = [some (actionText action), some nonce, some fingerprint] := by
  have hlast : ∀ c, Rx.Reads (Rx.cat [.opt (Rx.cat [.lit [':'], .group (hexDigits 6)])])
      (':' :: fingerprint) c ↔ c = [some fingerprint] := by
    intro c
    have hread : Rx.Reads (Rx.cat [.lit [':'], .group (hexDigits 6)]) (':' :: fingerprint) c ↔
        c = [some fingerprint] :=
      (Rx.reads_lit (s := [':'])).trans ((Rx.reads_group rfl).trans
        ⟨And.right, fun h => ⟨reads_hexDigits.mpr hfingerprint, h⟩⟩)
    rw [← hread]
    constructor
    · rintro (h | ⟨hnil, -⟩)
      · exact h
      · exact absurd hnil (List.cons_ne_nil _ _)
    · exact Or.inl
  have haction : actionText action ∈ [actionText .up, actionText .down] := by cases action <;> decide
  have hsep : ∀ w, Rx.Reads (.oneOf [actionText .up, actionText .down]) w [] → ':' ∉ w := by
    rintro w ⟨hw, -⟩
    fin_cases hw <;> decide
  have hfirst : ∀ r c, Rx.Reads (Rx.cat (tailPieces .stake)) (':' :: (actionText action ++ ':' :: r)) c ↔
      ∃ c', c = some (actionText action) :: c' ∧
        Rx.Reads (Rx.cat [.group (hexDigits 12), .opt (Rx.cat [.lit [':'], .group (hexDigits 6)])])
          r c' := by
    intro r c
    refine (Rx.reads_lit (s := [':'])).trans ((Rx.reads_field (c := ':') rfl hsep (fun _ _ => Rx.tail_of_lit)
      (hsep _ ⟨haction, rfl⟩) (Or.inr ⟨r, rfl⟩)).trans ?_)
    constructor
    · rintro ⟨-, c', rfl, h⟩
      exact ⟨c', rfl, Rx.reads_lit (s := [':']).mp h⟩
    · rintro ⟨c', rfl, h⟩
      exact ⟨⟨haction, rfl⟩, c', rfl, Rx.reads_lit (s := [':']).mpr h⟩
  have hsecond : ∀ c, Rx.Reads
      (Rx.cat [.group (hexDigits 12), .opt (Rx.cat [.lit [':'], .group (hexDigits 6)])])
      (nonce ++ ':' :: fingerprint) c ↔ c = [some nonce, some fingerprint] := by
    intro c
    refine (Rx.reads_field (c := ':') rfl (fun _ h => (reads_hexDigits.mp h).noColon)
      (fun _ _ => Rx.tail_of_opt fun _ _ => Rx.tail_of_nil) hnonce.noColon
        (Or.inr ⟨fingerprint, rfl⟩)).trans ?_
    constructor
    · rintro ⟨-, c', rfl, h⟩
      rw [(hlast c').mp h]
    · rintro rfl
      exact ⟨reads_hexDigits.mpr hnonce, _, rfl, (hlast _).mpr rfl⟩
  rw [hfirst]
  constructor
  · rintro ⟨c', rfl, h⟩
    rw [(hsecond c').mp h]
  · rintro rfl
    exact ⟨_, rfl, (hsecond _).mpr rfl⟩

section Builders

variable {assetId : ℕ} (hassetId : AssetId assetId) (durationSec : DemoDurationSec)
include hassetId

theorem demoLaunch_reads_back (origin : CycleOrigin) :
    ReadsBack (.current .launch) (demoLaunchCallbackData assetId durationSec origin) launchDataOf
      (assetId, durationSec, origin) := by
  have hid := assetIdOf_numText hassetId
  have hdur := durationOf_numText durationSec
  cases origin with
  | l =>
    have hdata : demoLaunchCallbackData assetId durationSec .l =
        shapeData .demo .launch assetId durationSec [] := by
      rw [shapeData, List.append_nil]
      rfl
    rw [hdata]
    refine readsBack_shape _ (c := [none]) hassetId durationSec (Or.inl rfl) (by decide)
      (fun c' => Rx.reads_iff_of_run rfl) ?_
    simp [launchDataOf, drawnHeadGroups, Rx.groupOf, hid, hdur]
  | a =>
    refine readsBack_shape .demo (r := ":a".toList) (c := [some ['a']]) hassetId durationSec
      (Or.inr ⟨['a'], rfl⟩) (by decide) (fun c' => Rx.reads_iff_of_run rfl) ?_
    simp [launchDataOf, drawnHeadGroups, Rx.groupOf, hid, hdur]
  | n =>
    refine readsBack_shape .demo (r := ":n".toList) (c := [some ['n']]) hassetId durationSec
      (Or.inr ⟨['n'], rfl⟩) (by decide) (fun c' => Rx.reads_iff_of_run rfl) ?_
    simp [launchDataOf, drawnHeadGroups, Rx.groupOf, hid, hdur]

theorem cycleCustom_reads_back (back : CycleBack) :
    ReadsBack (.current .cycleCustom) (cycleCustomCallbackData assetId durationSec back) cycleCustomDataOf
      { assetId, durationSec, back } := by
  have hid := assetIdOf_numText hassetId
  have hdur := durationOf_numText durationSec
  have hback := cycleBackOfData_text back
  refine readsBack_shape .demo (r := ':' :: back.text) (c := [some back.text]) hassetId durationSec
    (Or.inr ⟨back.text, rfl⟩) ?_ (fun c' => Rx.reads_iff_of_run ?_) ?_
  · cases back <;> decide
  · cases back <;> rfl
  · simp [cycleCustomDataOf, drawnHeadGroups, Rx.groupOf, hid, hdur, hback]

theorem analysisMore_reads_back (action : TradeAction) (mode : TradeMode) :
    ReadsBack (.current .analysisMore) (analysisMoreCallbackData assetId durationSec action mode)
      analysisMoreDataOf { assetId, durationSec, action, renderedMode := mode } := by
  have hid := assetIdOf_numText hassetId
  have hdur := durationOf_numText durationSec
  have haction := actionOf_actionText action
  have hmode : (if some (modeToken mode) = some ['r'] then TradeMode.real else TradeMode.demo) = mode := by
    cases mode <;> rfl
  refine readsBack_shape .demo (r := ':' :: (actionText action ++ ':' :: modeToken mode))
    (c := [some (actionText action), none, some (modeToken mode)]) hassetId durationSec (Or.inr ⟨_, rfl⟩) ?_
    (fun c' => Rx.reads_iff_of_run ?_) ?_
  · cases action <;> cases mode <;> decide
  · cases action <;> cases mode <;> rfl
  · simp only [Option.some.injEq] at hmode
    simp [analysisMoreDataOf, drawnHeadGroups, Rx.groupOf, hid, hdur, haction, hmode]

theorem sessionStart_reads_back (mode : TradeMode) (launch : Bool) :
    ReadsBack (.current .session) (sessionStartCallbackData mode assetId durationSec launch)
      (fun m => sessionStartDataOf m defaultSessionCycles) { mode, assetId, durationSec, launch } := by
  have hdata : ∀ r,
      modeText mode ++ (":sess:".toList ++ (numText assetId ++ ':' :: (numText durationSec ++ r))) =
        shapeData mode .session assetId durationSec r := fun r => (List.append_assoc _ _ _).symm
  have hdecode : ∀ token, sessionStartDataOf (drawnHeadGroups mode .session ++
      (some (numText assetId) :: some (numText durationSec) :: [token])) defaultSessionCycles =
        some { mode, assetId, durationSec, launch := decide (token = some ['l']) } := fun token =>
    sessionStartDataOf_eq (tradeModeOf_modeText mode) (assetIdOf_numText hassetId)
      (durationOf_numText durationSec) (sessionFits_default durationSec)
  unfold sessionStartCallbackData
  cases launch with
  | false =>
    rw [if_neg Bool.false_ne_true, hdata]
    exact readsBack_shape _ (c := [none]) hassetId durationSec (Or.inl rfl) (by decide)
      (fun c' => Rx.reads_iff_of_run rfl) (hdecode none)
  | true =>
    rw [if_pos rfl, hdata]
    exact readsBack_shape mode (c := [some ['l']]) hassetId durationSec (Or.inr ⟨['l'], rfl⟩)
      (by decide)
      (fun c' => Rx.reads_iff_of_run rfl) (hdecode (some ['l']))

theorem cycleStake_reads_back {amount : List Char} (hamount : isTradeAmount amount = true)
    (back : CycleBack) :
    ReadsBack (.current .cycleStake) (cycleStakeCallbackData assetId durationSec amount back)
      cycleStakeDataOf
      ({ assetId, durationSec, back }, amount) := by
  refine readsBack_shape .demo (r := ':' :: (amount ++ ':' :: back.text))
    (c := [some amount, some back.text]) hassetId durationSec (Or.inr ⟨_, rfl⟩) ?_ (fun c' => ?_) ?_
  · have hlen := byteLength_amount hamount
    have hcolon : ':'.utf8Size = 1 := utf8Size_ascii (by decide)
    have hbytes : byteLength back.text = 1 := by cases back <;> rfl
    rw [byteLength_cons, byteLength_append, byteLength_cons]
    omega
  · have hreads := reads_amount hamount
    have hlast : ∀ c', Rx.Reads (Rx.cat [.lit [':'], backGroup]) (':' :: back.text) c' ↔
        c' = [some back.text] := by
      intro c'
      refine Rx.reads_iff_of_run ?_
      cases back <;> rfl
    refine (Rx.reads_lit (s := [':'])).trans ((Rx.reads_field (c := ':') rfl (fun _ => amount_noColon)
      (fun _ _ => Rx.tail_of_lit) (amount_noColon hreads) (Or.inr ⟨back.text, rfl⟩)).trans ?_)
    constructor
    · rintro ⟨-, c'', rfl, h⟩
      rw [(hlast c'').mp h]
    · rintro rfl
      exact ⟨hreads, _, rfl, (hlast _).mpr rfl⟩
  · exact cycleStakeDataOf_eq (assetIdOf_numText hassetId) (durationOf_numText durationSec)
      (tradeAmountOf_some hamount) (cycleBackOfData_text back) (sessionFits_default durationSec)

theorem stake_reads_back (action : TradeAction) {nonce fingerprint : List Char} (hnonce : HexText 12 nonce)
    (hfingerprint : HexText 6 fingerprint) :
    ReadsBack (.current .stake) (stakeCallbackData assetId durationSec action nonce fingerprint) stakeDataOf
      { assetId, durationSec, action, nonce, fingerprint := some fingerprint } := by
  have hid := assetIdOf_numText hassetId
  have hdur := durationOf_numText durationSec
  have haction := actionOf_actionText action
  refine readsBack_shape .demo
    (r := ':' :: (actionText action ++ ':' :: (nonce ++ ':' :: fingerprint))) hassetId durationSec
    (Or.inr ⟨_, rfl⟩) ?_ (reads_stakeTail action hnonce hfingerprint) ?_
  · have hcolon : ':'.utf8Size = 1 := utf8Size_ascii (by decide)
    have htext : byteLength (actionText action) ≤ 4 := by cases action <;> decide
    rw [byteLength_cons, byteLength_append, byteLength_cons, byteLength_append, byteLength_cons,
      hnonce.bytes, hfingerprint.bytes]
    omega
  · simp [stakeDataOf, drawnHeadGroups, Rx.groupOf, hid, hdur, haction]

end Builders

/-! ## The picker -/

theorem stakePreset_reads_back {amount : List Char} (hamount : isTradeAmount amount = true)
    (mode : TradeMode) {origin : StakeOrigin} (h : OriginOk origin) :
    ReadsBack (.picker .preset) (stakePresetCallbackData amount mode origin) presetStepOf
      (amount, { mode, origin }) := by
  have hdata : stakePresetCallbackData amount mode origin = pickerDatum .preset amount mode origin := by
    rw [pickerDatum, pickerLead, List.append_assoc]
    rfl
  have htrade := tradeAmountOf_some hamount
  have hstep := stepOf_drawn mode h
  rw [hdata]
  refine readsBack_picker hamount mode h ?_
  simp [presetStepOf, pickerLeadGroups, Rx.groupOf, htrade, hstep]

/-- The buttons of the picker without an amount. -/
theorem stakeStep_reads_back (mode : TradeMode) {origin : StakeOrigin} (h : OriginOk origin) :
    ReadsBack (.picker .opening) (stakeOpenCallbackData mode origin) pickerStepOf { mode, origin } ∧
      ReadsBack (.picker .reset) (stakeResetCallbackData mode origin) pickerStepOf { mode, origin } ∧
      ReadsBack (.picker .custom) (stakeCustomCallbackData mode origin) pickerStepOf { mode, origin } := by
  have hone : isTradeAmount ['1'] = true := rfl
  have hstep := stepOf_drawn mode h
  exact ⟨readsBack_picker hone mode h hstep, readsBack_picker hone mode h hstep,
    readsBack_picker hone mode h hstep⟩

/-! ## The buttons -/

/-- **A pressed button does what was drawn**: a datum of the bot's fits a button, is matched by its own
pattern and by no other current or legacy one, and is decoded to the values it was built from; and every
amount offered is accepted under the limits it was offered for. -/
theorem callback_reads_back :
    (∀ assetId, AssetId assetId → ∀ durationSec : DemoDurationSec,
      (∀ origin,
        ReadsBack (.current .launch) (demoLaunchCallbackData assetId durationSec origin) launchDataOf
          (assetId, durationSec, origin)) ∧
      (∀ amount back, isTradeAmount amount = true →
        ReadsBack (.current .cycleStake) (cycleStakeCallbackData assetId durationSec amount back)
          cycleStakeDataOf ({ assetId, durationSec, back }, amount)) ∧
      (∀ back,
        ReadsBack (.current .cycleCustom) (cycleCustomCallbackData assetId durationSec back)
          cycleCustomDataOf { assetId, durationSec, back }) ∧
      (∀ action mode,
        ReadsBack (.current .analysisMore) (analysisMoreCallbackData assetId durationSec action mode)
          analysisMoreDataOf { assetId, durationSec, action, renderedMode := mode }) ∧
      (∀ action nonce fingerprint, HexText 12 nonce → HexText 6 fingerprint →
        ReadsBack (.current .stake) (stakeCallbackData assetId durationSec action nonce fingerprint)
          stakeDataOf { assetId, durationSec, action, nonce, fingerprint := some fingerprint }) ∧
      ∀ mode launch,
        ReadsBack (.current .session) (sessionStartCallbackData mode assetId durationSec launch)
          (fun m => sessionStartDataOf m defaultSessionCycles) { mode, assetId, durationSec, launch }) ∧
    (∀ mode origin, OriginOk origin →
      (ReadsBack (.picker .opening) (stakeOpenCallbackData mode origin) pickerStepOf { mode, origin } ∧
        ReadsBack (.picker .reset) (stakeResetCallbackData mode origin) pickerStepOf { mode, origin } ∧
        ReadsBack (.picker .custom) (stakeCustomCallbackData mode origin) pickerStepOf { mode, origin }) ∧
      ∀ amount, isTradeAmount amount = true →
        ReadsBack (.picker .preset) (stakePresetCallbackData amount mode origin) presetStepOf
          (amount, { mode, origin })) ∧
    ∀ limits : StakeLimits, NumericText limits.minTradeAmount → NumericText limits.available →
      ∃ presets, stakePresets limits = .ok presets ∧
        ∀ amount ∈ presets, checkStake amount limits = none ∧ isTradeAmount amount = true := by
  refine ⟨fun assetId hassetId durationSec => ⟨fun origin => ?_, fun amount back hamount => ?_,
    fun back => ?_, fun action mode => ?_, fun action nonce fingerprint hnonce hfingerprint => ?_,
    fun mode launch => ?_⟩,
    fun mode origin horigin => ⟨stakeStep_reads_back mode horigin, fun amount hamount => ?_⟩,
    fun limits hmin _ => stakePresets_checked hmin⟩
  · exact demoLaunch_reads_back hassetId durationSec origin
  · exact cycleStake_reads_back hassetId durationSec hamount back
  · exact cycleCustom_reads_back hassetId durationSec back
  · exact analysisMore_reads_back hassetId durationSec action mode
  · exact stake_reads_back hassetId durationSec action hnonce hfingerprint
  · exact sessionStart_reads_back hassetId durationSec mode launch
  · exact stakePreset_reads_back hamount mode horigin

/-- The longest stake button and the longest amount drawn read back, and what is offered for a balance of `2`
is accepted. -/
theorem callback_reads_back_longest :
    (∀ back, ReadsBack (.current .cycleStake)
      (cycleStakeCallbackData 2147483647 demoDurationSec "999999999999.99999999".toList back)
      cycleStakeDataOf
      ({ assetId := 2147483647, durationSec := demoDurationSec, back }, "999999999999.99999999".toList)) ∧
    (∃ presets, stakePresets ⟨"1.00000000".toList, "2.00000000".toList⟩ = .ok presets ∧
      ∀ amount ∈ presets, checkStake amount ⟨"1.00000000".toList, "2.00000000".toList⟩ = none ∧
        isTradeAmount amount = true) ∧
    AssetId 2147483647 ∧ HexText 12 "0123456789ab".toList ∧ HexText 6 "0a1b2c".toList ∧
      ReadsBack (.current .stake)
        (stakeCallbackData 2147483647 demoDurationSec .down "0123456789ab".toList "0a1b2c".toList)
        stakeDataOf
        { assetId := 2147483647, durationSec := demoDurationSec, action := .down,
          nonce := "0123456789ab".toList, fingerprint := some "0a1b2c".toList } := by
  have hid : AssetId 2147483647 := ⟨by decide, le_rfl⟩
  have hnonce : HexText 12 "0123456789ab".toList := ⟨rfl, List.all_eq_true.mp rfl⟩
  have hfingerprint : HexText 6 "0a1b2c".toList := ⟨rfl, List.all_eq_true.mp rfl⟩
  have hlimit : ∀ whole, whole ≠ [] → (∀ c ∈ whole, c.isDigit = true) → whole.length ≤ amountIntegerDigits →
      NumericText (whole ++ ".00000000".toList) := fun whole hwhole hdigits hlength =>
    ⟨[], whole, "00000000".toList, rfl, .inl rfl, hwhole, hdigits, hlength, List.all_eq_true.mp rfl, by decide⟩
  exact ⟨fun back => (callback_reads_back.1 _ hid demoDurationSec).2.1 _ back (by decide),
    callback_reads_back.2.2 ⟨"1.00000000".toList, "2.00000000".toList⟩
      (hlimit ['1'] (by decide) (List.all_eq_true.mp rfl) (by decide))
      (hlimit ['2'] (by decide) (List.all_eq_true.mp rfl) (by decide)),
    hid, hnonce, hfingerprint, (callback_reads_back.1 _ hid demoDurationSec).2.2.2.2.1 .down _ _ hnonce hfingerprint⟩

end CallbackData

end Binarius
