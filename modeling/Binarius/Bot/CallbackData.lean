import Mathlib.Tactic
import Binarius.Lib.Regex
import Binarius.Shared.StakeSettings

/-!
# Bot.CallbackData — what a button carries and what its press reads (apps/bot: demo.ts, stake-picker.ts)

A callback datum is a `List Char`; a pattern is the regular expression of the source between `^` and
`$`, and a match is its groups.  A demo duration is one of those offered.

* the builders, from `demoLaunchCallbackData` to `stakeCustomCallbackData`.
* `CallbackPattern`, `pattern`: the current and legacy patterns of the two modules.
* the parsers, from `assetIdOf` to `stakeOriginOf`.
-/

namespace Binarius

open Lib

/-- DEMO_DURATIONS_SEC. -/
def demoDurationsSec : List ℕ := [5]

/-- LEGACY_DEMO_DURATIONS_SEC. -/
def legacyDemoDurationsSec : List ℕ := [15, 60, 300, 900, 1800, 3600]

abbrev DemoDurationSec := { sec : ℕ // sec ∈ demoDurationsSec }

/-- DEMO_DURATION_SEC, the first of them. -/
def demoDurationSec : DemoDurationSec := ⟨5, List.mem_cons_self⟩

namespace CallbackData

/-- `String()` of a whole number. -/
def numText (n : ℕ) : List Char := Nat.toDigits 10 n

/-! ## Builders (demo.ts) -/

/-- Where the amount screen of a demo cycle was opened. -/
inductive CycleOrigin
  | l
  | a
  | n
  deriving DecidableEq, Repr

/-- The way back of the amount screen. -/
inductive CycleBack
  | l
  | a
  deriving DecidableEq, Repr

def CycleBack.text : CycleBack → List Char
  | .l => ['l']
  | .a => ['a']

def modeText : TradeMode → List Char
  | .demo => "demo".toList
  | .real => "real".toList

/-- MODE_TOKENS. -/
def modeToken : TradeMode → List Char
  | .demo => ['d']
  | .real => ['r']

def actionText : TradeAction → List Char
  | .up => "up".toList
  | .down => "down".toList

def cycleDoorCallbackData (assetId durationSec : ℕ) : List Char :=
  "demo:l:".toList ++ (numText assetId ++ ':' :: (numText durationSec ++ ":n".toList))

def demoLaunchCallbackData (assetId : ℕ) (durationSec : DemoDurationSec) (origin : CycleOrigin) :
    List Char :=
  match origin with
  | .n => cycleDoorCallbackData assetId durationSec
  | .l => "demo:l:".toList ++ (numText assetId ++ ':' :: numText durationSec)
  | .a => "demo:l:".toList ++ (numText assetId ++ ':' :: (numText durationSec ++ ":a".toList))

def cycleStakeCallbackData (assetId : ℕ) (durationSec : DemoDurationSec) (amount : List Char)
    (back : CycleBack) : List Char :=
  "demo:sa:".toList ++ (numText assetId ++ ':' :: (numText durationSec ++ ':' :: (amount ++ ':' :: back.text)))

def cycleCustomCallbackData (assetId : ℕ) (durationSec : DemoDurationSec) (back : CycleBack) : List Char :=
  "demo:sc:".toList ++ (numText assetId ++ ':' :: (numText durationSec ++ ':' :: back.text))

def analysisMoreCallbackData (assetId : ℕ) (durationSec : DemoDurationSec) (action : TradeAction)
    (mode : TradeMode) : List Char :=
  "demo:more:".toList ++
    (numText assetId ++ ':' :: (numText durationSec ++ ':' :: (actionText action ++ ':' :: modeToken mode)))

def stakeCallbackData (assetId : ℕ) (durationSec : DemoDurationSec) (action : TradeAction)
    (nonce fingerprint : List Char) : List Char :=
  "demo:stake:".toList ++
    (numText assetId ++ ':' :: (numText durationSec ++ ':' :: (actionText action ++ ':' ::
      (nonce ++ ':' :: fingerprint))))

def sessionStartCallbackData (mode : TradeMode) (assetId : ℕ) (durationSec : DemoDurationSec)
    (launch : Bool) : List Char :=
  modeText mode ++ (":sess:".toList ++
    (numText assetId ++ ':' :: (numText durationSec ++ if launch then ":l".toList else [])))

/-! ## Builders (stake-picker.ts) -/

/-- Where the picker was opened. -/
inductive StakeOrigin
  | settings
  | analysis (assetId : ℕ) (durationSec : DemoDurationSec)
  | pair (assetId : ℕ) (durationSec : DemoDurationSec)
  deriving DecidableEq

def originData : StakeOrigin → List Char
  | .settings => ['s']
  | .analysis assetId durationSec => 'a' :: ':' :: (numText assetId ++ ':' :: numText durationSec)
  | .pair assetId durationSec => 'p' :: ':' :: (numText assetId ++ ':' :: numText durationSec)

def pickerData (action : List Char) (mode : TradeMode) (origin : StakeOrigin) : List Char :=
  "stk:".toList ++ (action ++ ':' :: (modeToken mode ++ ':' :: originData origin))

def stakeOpenCallbackData (mode : TradeMode) (origin : StakeOrigin) : List Char :=
    pickerData ['o'] mode origin

def stakePresetCallbackData (amount : List Char) (mode : TradeMode) (origin : StakeOrigin) : List Char :=
  pickerData ('s' :: ':' :: amount) mode origin

def stakeResetCallbackData (mode : TradeMode) (origin : StakeOrigin) : List Char :=
    pickerData ['z'] mode origin

def stakeCustomCallbackData (mode : TradeMode) (origin : StakeOrigin) : List Char :=
    pickerData ['c'] mode origin

/-! ## Patterns -/

def digits (lo hi : ℕ) : Rx := .rep Char.isDigit lo hi

def hexDigits (n : ℕ) : Rx := .rep (fun c => c.isDigit || ('a' ≤ c && c ≤ 'f')) n n

/-- `(5)`, or the legacy durations: the alternatives of a pattern. -/
def durationTexts (durations : List ℕ) : List (List Char) := durations.map numText

/-- STAKE_AMOUNT_PATTERN. -/
def stakeAmountPattern : Rx :=
  Rx.cat [digits 1 amountIntegerDigits, .opt (Rx.cat [.lit ['.'], digits 1 numericFractionDigits])]

def assetIdGroup : Rx := .group (digits 1 10)

/-- `(\d{1,10}):(durations)`, the fields most shapes start with. -/
def pairFields (durations : List ℕ) : List Rx :=
  [assetIdGroup, .lit [':'], .group (.oneOf (durationTexts durations))]

def actionGroup : Rx := .group (.oneOf [actionText .up, actionText .down])

def backGroup : Rx := .group (.oneOf [CycleBack.l.text, CycleBack.a.text])

def demoDurationPattern (durations : List ℕ) : Rx := Rx.cat (.lit "demo:d:".toList :: pairFields durations)

def demoAnalysisPattern (durations : List ℕ) : Rx := Rx.cat (.lit "demo:an:".toList :: pairFields durations)

def stakeCallbackPattern (durations : List ℕ) : Rx :=
  Rx.cat (.lit "demo:stake:".toList :: pairFields durations ++
    [.lit [':'], actionGroup, .lit [':'], .group (hexDigits 12),
      .opt (Rx.cat [.lit [':'], .group (hexDigits 6)])])

def sessionStartPattern (durations : List ℕ) : Rx :=
  Rx.cat (.group (.oneOf [modeText .demo, modeText .real]) :: .lit ":sess:".toList ::
    pairFields durations ++
    [.opt (Rx.cat [.lit [':'], .group (.lit ['l'])])])

def demoLaunchPattern (durations : List ℕ) : Rx :=
  Rx.cat (.lit "demo:l:".toList :: pairFields durations ++
    [.opt (Rx.cat [.lit [':'], .group (.oneOf [['a'], ['n']])])])

def cycleStakePattern (durations : List ℕ) : Rx :=
  Rx.cat (.lit "demo:sa:".toList :: pairFields durations ++
    [.lit [':'], .group stakeAmountPattern, .lit [':'], backGroup])

def cycleCustomPattern (durations : List ℕ) : Rx :=
  Rx.cat (.lit "demo:sc:".toList :: pairFields durations ++ [.lit [':'], backGroup])

/-- Both tokens are optional: the payout floor's verdict, read by nobody, and the mode. -/
def analysisMorePattern (durations : List ℕ) : Rx :=
  Rx.cat (.lit "demo:more:".toList :: pairFields durations ++
    [.lit [':'], actionGroup, .opt (Rx.cat [.lit [':'], .group (.oneOf [['s'], ['n']])]),
      .opt (Rx.cat [.lit [':'], .group (.oneOf [['d'], ['r']])])])

def demoPagePattern : Rx :=
  Rx.cat [.lit "demo:t:".toList, .group (.rep (fun c => 'a' ≤ c && c ≤ 'z') 1 16), .lit [':'],
    .group (digits 1 4)]

def demoAssetPattern : Rx := Rx.cat [.lit "demo:a:".toList, assetIdGroup]

def demoSignalsPattern : Rx :=
  Rx.cat [.lit "demo:sig".toList,
    .opt (Rx.cat [.lit [':'],
      .oneOf (durationTexts demoDurationsSec ++ durationTexts legacyDemoDurationsSec)])]

/-- A launch screen's button from before the durations. -/
def legacyLaunchPattern : Rx := Rx.cat [.lit "demo:l:".toList, assetIdGroup]

inductive PickerAction
  | opening
  | preset
  | reset
  | custom
  deriving DecidableEq, Repr

/-- `pickerPatterns`: the four shapes over an optional mode group and an origin. -/
def pickerPattern (mode : List Rx) (origin : Rx) : PickerAction → Rx
  | .opening => Rx.cat (.lit "stk:o:".toList :: mode ++ [origin])
  | .preset => Rx.cat (.lit "stk:s:".toList :: .group stakeAmountPattern :: .lit [':'] :: mode ++ [origin])
  | .reset => Rx.cat (.lit "stk:z:".toList :: mode ++ [origin])
  | .custom => Rx.cat (.lit "stk:c:".toList :: mode ++ [origin])

def originDurations : List ℕ := demoDurationsSec ++ legacyDemoDurationsSec

/-- ORIGIN_PATTERN. -/
def originPattern : Rx :=
  .group (.alt (.lit ['s'])
    (Rx.cat [.rep (fun c => c = 'a' || c = 'p') 1 1, .lit [':'], digits 1 10, .lit [':'],
      .oneOf (durationTexts originDurations)]))

def modeGroup : List Rx := [.group (.oneOf [modeToken .demo, modeToken .real]), .lit [':']]

/-- `(p:\d{1,10})`: a launch screen from before the durations. -/
def launchOriginPattern : Rx := .group (Rx.cat [.lit ['p', ':'], digits 1 10])

/-- The shapes that carry a duration of the demo's. -/
inductive DurationShape
  | duration
  | analysis
  | stake
  | session
  | launch
  | cycleStake
  | cycleCustom
  | analysisMore
  deriving DecidableEq, Repr

def shapePattern (durations : List ℕ) : DurationShape → Rx
  | .duration => demoDurationPattern durations
  | .analysis => demoAnalysisPattern durations
  | .stake => stakeCallbackPattern durations
  | .session => sessionStartPattern durations
  | .launch => demoLaunchPattern durations
  | .cycleStake => cycleStakePattern durations
  | .cycleCustom => cycleCustomPattern durations
  | .analysisMore => analysisMorePattern durations

/-- Every pattern of the two modules: the current ones, `LEGACY_DURATION_PATTERNS` and
`LEGACY_PICKER_PATTERNS`. -/
inductive CallbackPattern
  | current (shape : DurationShape)
  | page
  | asset
  | signals
  | picker (action : PickerAction)
  | legacy (shape : DurationShape)
  | legacyLaunch
  | legacyPicker (action : PickerAction)
  | legacyLaunchPicker (action : PickerAction)
  deriving DecidableEq, Repr

def pattern : CallbackPattern → Rx
  | .current shape => shapePattern demoDurationsSec shape
  | .page => demoPagePattern
  | .asset => demoAssetPattern
  | .signals => demoSignalsPattern
  | .picker action => pickerPattern modeGroup originPattern action
  | .legacy shape => shapePattern legacyDemoDurationsSec shape
  | .legacyLaunch => legacyLaunchPattern
  | .legacyPicker action => pickerPattern [] originPattern action
  | .legacyLaunchPicker action => pickerPattern [] launchOriginPattern action

/-! ## Parsers -/

/-- `Number()` of a digit string, what an asset id's group is. -/
def numberOf (raw : List Char) : Option ℕ :=
  if raw ≠ [] ∧ raw.all Char.isDigit = true then some (Nat.ofDigitChars 10 raw 0) else none

/-- An asset id the backend accepts: a positive int4. -/
def assetIdOf (raw : Option (List Char)) : Option ℕ := do
  let n ← numberOf (← raw)
  if 0 < n ∧ (n : ℤ) ≤ int4Max then some n else none

def durationOf (raw : Option (List Char)) : Option DemoDurationSec :=
  demoDurationsSec.attach.find? fun sec => decide (some (numText sec) = raw)

def actionOf (raw : Option (List Char)) : Option TradeAction :=
  [TradeAction.up, TradeAction.down].find? fun action => decide (some (actionText action) = raw)

/-- tradeModeSchema. -/
def tradeModeOf (raw : Option (List Char)) : Option TradeMode :=
  [TradeMode.demo, TradeMode.real].find? fun mode => decide (some (modeText mode) = raw)

/-- tradeAmountSchema. -/
def tradeAmountOf (raw : Option (List Char)) : Option DecimalString := raw.filter isTradeAmount

structure StakeData where
  assetId : ℕ
  durationSec : DemoDurationSec
  action : TradeAction
  nonce : List Char
  fingerprint : Option (List Char)
  deriving DecidableEq

def stakeDataOf (m : Rx.Groups) : Option StakeData := do
  let assetId ← assetIdOf (Rx.groupOf m 1)
  let durationSec ← durationOf (Rx.groupOf m 2)
  let action ← actionOf (Rx.groupOf m 3)
  let nonce ← Rx.groupOf m 4
  return { assetId, durationSec, action, nonce, fingerprint := Rx.groupOf m 5 }

structure AnalysisMoreData where
  assetId : ℕ
  durationSec : DemoDurationSec
  action : TradeAction
  renderedMode : TradeMode
  deriving DecidableEq

/-- The floor's token, group 4, is read by nobody; a datum without the mode token was drawn in demo. -/
def analysisMoreDataOf (m : Rx.Groups) : Option AnalysisMoreData := do
  let assetId ← assetIdOf (Rx.groupOf m 1)
  let durationSec ← durationOf (Rx.groupOf m 2)
  let action ← actionOf (Rx.groupOf m 3)
  let renderedMode := if Rx.groupOf m 5 = some ['r'] then TradeMode.real else TradeMode.demo
  return { assetId, durationSec, action, renderedMode }

def defaultSessionCycles : ℤ := 5

def sessionSettleSlackSec : ℤ := 120

def sessionFitsDeadline (cycles durationSec : ℤ) (strategy : SessionStakeStrategy) : Bool :=
  let stepsPerCycle := match strategy with
    | .martingale => martingaleMaxSteps
    | .fixed => 1
  decide (cycles * stepsPerCycle * (durationSec + sessionSettleSlackSec) * 1000 ≤ sessionMaxDurationMs)

def sessionFits (durationSec cycles : ℤ) : Bool := sessionFitsDeadline cycles durationSec .martingale

structure SessionStartData where
  mode : TradeMode
  assetId : ℕ
  durationSec : DemoDurationSec
  launch : Bool
  deriving DecidableEq

def sessionStartDataOf (m : Rx.Groups) (cycles : ℤ) : Option SessionStartData := do
  let mode ← tradeModeOf (Rx.groupOf m 1)
  let assetId ← assetIdOf (Rx.groupOf m 2)
  let durationSec ← durationOf (Rx.groupOf m 3)
  if sessionFits durationSec.1 cycles then
    some { mode, assetId, durationSec, launch := decide (Rx.groupOf m 4 = some ['l']) }
  else none

structure CycleStakeStep where
  assetId : ℕ
  durationSec : DemoDurationSec
  back : CycleBack
  deriving DecidableEq

def cycleBackOfData (raw : Option (List Char)) : Option CycleBack :=
  [CycleBack.l, CycleBack.a].find? fun back => decide (some back.text = raw)

def cycleCustomDataOf (m : Rx.Groups) : Option CycleStakeStep := do
  let assetId ← assetIdOf (Rx.groupOf m 1)
  let durationSec ← durationOf (Rx.groupOf m 2)
  let back ← cycleBackOfData (Rx.groupOf m 3)
  return { assetId, durationSec, back }

def cycleStakeDataOf (m : Rx.Groups) : Option (CycleStakeStep × DecimalString) := do
  let assetId ← assetIdOf (Rx.groupOf m 1)
  let durationSec ← durationOf (Rx.groupOf m 2)
  let amount ← tradeAmountOf (Rx.groupOf m 3)
  let back ← cycleBackOfData (Rx.groupOf m 4)
  if sessionFits durationSec.1 defaultSessionCycles then
    some ({ assetId, durationSec, back }, amount)
  else none

/-- What the launch press reads of its match. -/
def launchDataOf (m : Rx.Groups) : Option (ℕ × DemoDurationSec × CycleOrigin) := do
  let assetId ← assetIdOf (Rx.groupOf m 1)
  let durationSec ← durationOf (Rx.groupOf m 2)
  let origin : CycleOrigin :=
    if Rx.groupOf m 3 = some ['a'] then .a else if Rx.groupOf m 3 = some ['n'] then .n else .l
  return (assetId, durationSec, origin)

def stakeModeOf (raw : Option (List Char)) : Option TradeMode :=
  [TradeMode.demo, TradeMode.real].find? fun mode => decide (some (modeToken mode) = raw)

/-- The duration is one: an accepted older token names the same pair's screen today. -/
def stakeOriginOf (raw : Option (List Char)) : Option StakeOrigin :=
  if raw = some ['s'] then some .settings
  else
    let parts := match raw with
      | some raw => raw.splitOn ':'
      | none => []
    do
      let assetId ← assetIdOf parts[1]?
      if originDurations.any (fun sec => decide (some (numText sec) = parts[2]?)) then
        if parts[0]? = some ['p'] then some (.pair assetId demoDurationSec)
        else if parts[0]? = some ['a'] then some (.analysis assetId demoDurationSec)
        else none
      else none

/-- What every picker callback carries. -/
structure StakeStep where
  mode : TradeMode
  origin : StakeOrigin
  deriving DecidableEq

def stepOf (mode origin : Option (List Char)) : Option StakeStep := do
  let stakeMode ← stakeModeOf mode
  let stakeOrigin ← stakeOriginOf origin
  return { mode := stakeMode, origin := stakeOrigin }

/-- What the presses of the picker read of their matches. -/
def pickerStepOf (m : Rx.Groups) : Option StakeStep := stepOf (Rx.groupOf m 1) (Rx.groupOf m 2)

def presetStepOf (m : Rx.Groups) : Option (DecimalString × StakeStep) := do
  let amount ← tradeAmountOf (Rx.groupOf m 1)
  let step ← stepOf (Rx.groupOf m 2) (Rx.groupOf m 3)
  return (amount, step)

end CallbackData

end Binarius
